import Mathlib.Analysis.SpecialFunctions.Log.Basic
import Hoverfly.Lib.Ranking
import Hoverfly.Sched.Scheduler

/-! Rendezvous ranking over exact scores. A chunk's lane follows from the keys of the
lanes that are left, so lanes that come, go or change speed move no other chunk. -/
namespace Hoverfly.Lib

/-- Exact reals, with the constants of a double. -/
noncomputable instance : F64 ℝ where
  __ := (inferInstance : Add ℝ)
  __ := (inferInstance : Mul ℝ)
  __ := (inferInstance : Div ℝ)
  __ := (inferInstance : Neg ℝ)
  __ := (inferInstance : OfScientific ℝ)
  ofNat n := n
  toNat x := ⌊x⌋.toNat
  ceil x := ⌈x⌉
  ln := Real.log
  max := max
  min := min
  partialCmp a b := some (compare a b)
  maxValue := (2 ^ 53 - 1) * 2 ^ 971
  minPositive := 1 / 2 ^ 1022

end Hoverfly.Lib

namespace Hoverfly.Sched
open Lib

variable {a b : ℝ}

theorem real_lt : F64.lt a b = true ↔ a < b := by
  change (some (compare a b) == some Ordering.lt) = true ↔ a < b
  rw [beq_iff_eq, Option.some_inj, compare_lt_iff_lt]

theorem real_eq : F64.eq a b = true ↔ a = b := by
  change (some (compare a b) == some Ordering.eq) = true ↔ a = b
  rw [beq_iff_eq, Option.some_inj, compare_eq_iff_eq]

theorem real_le : F64.le a b = true ↔ a ≤ b := by
  rw [F64.le, Bool.or_eq_true, real_lt, real_eq, le_iff_lt_or_eq]

noncomputable def boosted (cfg : Config ℝ) (addr : Addr) (overlay : Option Addr) (w : ℝ) : ℝ :=
  match overlay with
  | some ov =>
    if F64.lt 0.0 cfg.proximityAlpha then
      w * (1.0 + cfg.proximityAlpha * (F64.min (F64.ofNat (proximity addr ov)) 8.0 / 8.0))
    else w
  | none => w

/-- The weight over the chunk's draw for the lane; a draw of one saturates. -/
noncomputable def drawn (hash : UInt64) (w : ℝ) : ℝ :=
  let u : ℝ := (F64.ofNat hash.toNat + 1.0) / (F64.ofNat (2 ^ 64 - 1) + 1.0)
  if F64.le (-F64.ln u) F64.minPositive then F64.maxValue else w / -F64.ln u

theorem boosted_mono (cfg : Config ℝ) (addr : Addr) (overlay : Option Addr) :
    Monotone (boosted cfg addr overlay) := by
  intro w w' le
  unfold boosted
  cases overlay with
  | none => exact le
  | some ov =>
    dsimp only
    split
    next near =>
      have alpha : 0 < cfg.proximityAlpha := by
        have pos := real_lt.mp near
        norm_num at pos
        exact pos
      have shared : (0 : ℝ) ≤ F64.min (F64.ofNat (proximity addr ov)) 8.0 / 8.0 :=
        div_nonneg (le_min (Nat.cast_nonneg _) (by norm_num)) (by norm_num)
      apply mul_le_mul_of_nonneg_right le
      have more := mul_nonneg alpha.le shared
      norm_num at more ⊢
      linarith
    next => exact le

theorem drawn_mono (hash : UInt64) : Monotone (drawn hash) := by
  intro w w' le
  unfold drawn
  dsimp only
  split
  next => exact le_rfl
  next room =>
    rw [real_le, not_le] at room
    apply div_le_div_of_nonneg_right le
    exact (le_of_lt (by positivity : (0 : ℝ) < 1 / 2 ^ 1022)).trans room.le

namespace Scheduler

variable {s : Scheduler ℝ} {ci lane : Nat}

theorem score_eq {l : Lane ℝ} {c : ChunkState} (found : s.lanes[lane]? = some l) (chunk : s.chunks[ci]? = some c) :
    s.score ci lane = drawn (hash64 c.addr (UInt64.ofNat l.id))
      (boosted s.cfg c.addr l.info.overlay (l.weight s.cfg)) := by
  unfold score
  rw [found, chunk]
  rfl

theorem score_congr {s t : Scheduler ℝ} {ci lane : Nat} (cfg : t.cfg = s.cfg) (chunks : t.chunks = s.chunks)
    (same : t.lanes[lane]? = s.lanes[lane]?) : t.score ci lane = s.score ci lane := by
  unfold score
  rw [same, chunks, cfg]

theorem score_raised {l l' : Lane ℝ} (found : s.lanes[lane]? = some l)
    (id : l'.id = l.id) (overlay : l'.info.overlay = l.info.overlay)
    (heavier : l.weight s.cfg ≤ l'.weight s.cfg) :
    s.score ci lane ≤ (s.updLane lane fun _ => l').score ci lane := by
  have found' : (s.updLane lane fun _ => l').lanes[lane]? = some l' := by
    unfold updLane
    rw [List.getElem?_modify_eq, found]
    rfl
  cases chunk : s.chunks[ci]? with
  | none =>
    unfold score
    rw [found, found', chunk]
    exact le_of_eq (by rw [show (s.updLane lane fun _ => l').chunks[ci]? = none from chunk])
  | some c =>
    rw [score_eq found chunk, score_eq found' chunk, id, overlay]
    exact drawn_mono _ (boosted_mono _ _ _ heavier)

theorem score_updLane_ne (s : Scheduler ℝ) (ci : Nat) {j : Nat} (other : lane ≠ j) (l' : Lane ℝ) :
    (s.updLane j fun _ => l').score ci lane = s.score ci lane := by
  refine @score_congr s (s.updLane j fun _ => l') ci lane rfl rfl ?_
  exact List.getElem?_modify_ne _ _ (Ne.symm other)

theorem rankBefore_iff {a b : ℝ × Nat} :
    rankBefore a b = true ↔ b.1 < a.1 ∨ a.1 = b.1 ∧ a.2 ≤ b.2 := by
  change ((compare b.1 a.1).then (compare a.2 b.2) != .gt) = true ↔ _
  rw [bne_iff_ne]
  rcases lt_trichotomy b.1 a.1 with less | same | more
  · rw [compare_lt_iff_lt.mpr less]
    exact iff_of_true Ordering.noConfusion (.inl less)
  · rw [compare_eq_iff_eq.mpr same]
    change compare a.2 b.2 ≠ .gt ↔ _
    rw [Ne, compare_gt_iff_gt, not_lt]
    simp [same]
  · rw [compare_gt_iff_gt.mpr more]
    exact iff_of_false (fun no => no rfl) (by rintro (less | ⟨same, _⟩) <;> linarith)

theorem rankNth_eq (s : Scheduler ℝ) (ci : Nat) (eligible : List Nat) (n : Nat) :
    s.rankNth ci eligible n = (eligible.insertionSort (Ahead (s.score ci)))[n]? := by
  have sorted := List.map_insertionSort (Ahead (s.score ci)) (fun a b => rankBefore a b = true)
    (fun l => (s.score ci l, l)) eligible (fun a _ b _ =>
      (@rankBefore_iff (s.score ci a, a) (s.score ci b, b)).symm)
  unfold rankNth
  dsimp only
  rw [← sorted, List.getElem?_map, Option.map_map]
  exact congrFun Option.map_id _

theorem rankLane_iff {best : Nat} {eligible : List Nat} :
    s.rankLane ci eligible = some best ↔ Leads (Ahead (s.score ci)) best eligible := by
  rw [rankLane, rankNth_eq, first_iff]

theorem rankLane_eq_none {eligible : List Nat} :
    s.rankLane ci eligible = none ↔ eligible = [] := by
  rw [rankLane, rankNth_eq, List.getElem?_eq_none_iff, List.length_insertionSort, Nat.le_zero,
    List.length_eq_zero_iff]

/-- Losing other lanes moves no chunk, the runner-up is the winner among the others, and a lane that gains
weight can only win chunks itself. -/
theorem rank_stable (s : Scheduler ℝ) (ci : Nat) (eligible : List Nat) (distinct : eligible.Nodup) :
    (∀ best kept, s.rankLane ci eligible = some best → kept ⊆ eligible → best ∈ kept →
      s.rankLane ci kept = some best) ∧
    s.rankNth ci eligible 1 =
      (s.rankLane ci eligible).bind (fun best => s.rankLane ci (eligible.filter (· != best))) ∧
    ∀ j l l', s.lanes[j]? = some l → l'.id = l.id → l'.info.overlay = l.info.overlay →
      l.weight s.cfg ≤ l'.weight s.cfg →
      (s.updLane j fun _ => l').rankLane ci eligible = s.rankLane ci eligible ∨
        (s.updLane j fun _ => l').rankLane ci eligible = some j := by
  refine ⟨?_, ?_, ?_⟩
  · intro best kept first fewer mem
    exact rankLane_iff.mpr ((rankLane_iff.mp first).restrict fewer mem)
  · simp only [rankLane, rankNth_eq, second_eq, distinct.erase_eq_filter]
  · intro j l l' found id overlay heavier
    cases before : s.rankLane ci eligible with
    | none =>
      rw [rankLane_eq_none] at before
      exact .inl (rankLane_eq_none.mpr before)
    | some best =>
      cases after : (s.updLane j fun _ => l').rankLane ci eligible with
      | none =>
        rw [rankLane_eq_none.mpr (rankLane_eq_none.mp after)] at before
        cases before
      | some moved =>
        have same := leads_raised (fun i other => s.score_updLane_ne ci other l')
          (score_raised found id overlay heavier) (rankLane_iff.mp before) (rankLane_iff.mp after)
        exact same.imp (congrArg some) (congrArg some)

/-- Two lanes, and the second is measured at eight chunks a second, four times its prior. -/
theorem rank_stable_measured :
    let s : Scheduler ℝ := ((new [{}, {}] Config.default).admitChunks [(⟨List.replicate 32 0, rfl⟩, 4096)]).1
    let faster : Lane ℝ :=
      { id := 1, info := {}, health := .warming, failStreak := 0, backoffExp := 0, inflight := 0,
        rate := 8, batchMs := 0, ackedTotal := 16, failedTotal := 0, bytesTotal := 65536 }
    s.rankNth 0 [0, 1] 1 = (s.rankLane 0 [0, 1]).bind (fun best => s.rankLane 0 ([0, 1].filter (· != best))) ∧
      ((s.updLane 1 fun _ => faster).rankLane 0 [0, 1] = s.rankLane 0 [0, 1] ∨
        (s.updLane 1 fun _ => faster).rankLane 0 [0, 1] = some 1) := by
  intro s faster
  have stable := rank_stable s 0 [0, 1] (by decide)
  refine ⟨stable.2.1, stable.2.2 1 _ faster rfl rfl rfl ?_⟩
  unfold Lane.weight
  dsimp only
  rw [if_pos (real_eq.mpr rfl), if_neg (fun zero => absurd (real_eq.mp zero) (by norm_num [faster]))]
  apply max_le_max_right
  change max (((16 : Nat) : ℝ) / 8.0) 0.5 * 1.0 * ((1 : Nat) : ℝ) ≤ 8 * 1.0 * ((1 : Nat) : ℝ)
  norm_num

end Scheduler

end Hoverfly.Sched
