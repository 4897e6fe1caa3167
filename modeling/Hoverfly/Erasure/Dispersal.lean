import Hoverfly.Erasure.Replicas
import Hoverfly.Lib.Disperse
import Mathlib.Data.List.GetD
import Mathlib.Tactic.IntervalCases

/-! The search's flags, slots and counters represent the elements tried so far, so the narrower levels' replicas
come first. -/
namespace Hoverfly.Erasure
open Lib Disperse

def leadingBits (d : Nat) (addr : Addr) : Nat := (addr.val.getD 0 0).toNat / 2 ^ (8 - d)

namespace Replicator
variable {c x : Candidate} {d e depth : Nat} {cs : List Candidate} {r : Replicator}

def top (d : Nat) (c : Candidate) : Nat := (c.addr.val.getD 0 0).toNat * 2 ^ d / 256

theorem top_eq (c : Candidate) (le : d ≤ 8) : top d c = leadingBits d c.addr := by
  have whole : 256 = 2 ^ (8 - d) * 2 ^ d := by rw [← Nat.pow_add, Nat.sub_add_cancel le]
  rw [top, leadingBits, whole, Nat.mul_div_mul_right _ _ (Nat.two_pow_pos d)]

theorem top_halves (d : Nat) (c : Candidate) : top d c = top (d + 1) c / 2 := by
  rw [top, top, Nat.pow_succ, Nat.div_div_eq_div_mul, ← Nat.mul_assoc, Nat.mul_div_mul_right _ _ (by decide)]

theorem top_lt (d : Nat) (c : Candidate) : top d c < 2 ^ d := by
  rw [top, Nat.div_lt_iff_lt_mul (by decide), Nat.mul_comm]
  exact Nat.mul_lt_mul_of_pos_left (UInt8.toNat_lt _) (Nat.two_pow_pos d)

theorem nh_eq (c : Candidate) (pos : 0 < d) (le : d ≤ 4) : nh d c.addr = 2 ^ d - 2 + top d c := by
  have base : replicaIndexBases.getD (d - 1) 0 = 2 ^ d - 2 := by
    interval_cases d <;> rfl
  have shift : (UInt8.ofNat (8 - d)).toNat % 8 = 8 - d := by
    interval_cases d <;> rfl
  rw [nh, base, UInt8.toNat_shiftRight, shift, Nat.shiftRight_eq_div_pow, top_eq c (by omega), leadingBits]

theorem nh_lt (c : Candidate) (pos : 0 < d) (le : d ≤ 4) : nh d c.addr < 30 := by
  have small := top_lt d c
  rw [nh_eq c pos le]
  interval_cases d <;> omega

theorem nh_inj (pos : 0 < d) (le : d ≤ 4) (pos' : 0 < e) (le' : e ≤ 4) :
    nh d c.addr = nh e x.addr ↔ d = e ∧ top d c = top e x := by
  have small := top_lt d c
  have small' := top_lt e x
  rw [nh_eq c pos le, nh_eq x pos' le']
  interval_cases d <;> interval_cases e <;> omega

structure Lands (c : Candidate) (e d : Nat) (r r' : Replicator) : Prop where
  flags : r'.exist.length = r.exist.length
  exist : ∀ j x, 0 < j → j ≤ 4 → r'.exist.getD (nh j x.addr) false =
    (r.exist.getD (nh j x.addr) false || decide (e ≤ j ∧ j ≤ d ∧ top j c = top j x))
  sizes : r'.sizes = r.sizes.set (e - 1) (r.sizes.getD (e - 1) 0 + 1)
  queue : r'.queue = r.queue.set (r.sizes.getD (e - 1) 0) (some c)

theorem getD_claim (flags : r.exist.length = 30) (pos : 0 < d) (le : d ≤ 4) {j : Nat} (posj : 0 < j) (lej : j ≤ 4) :
    (r.exist.set (nh d c.addr) true).getD (nh j x.addr) false =
      (r.exist.getD (nh j x.addr) false || decide (d = j ∧ top d c = top j x)) := by
  have inside := nh_lt c pos le
  have inj := nh_inj (c := c) (x := x) pos le posj lej
  by_cases same : nh d c.addr = nh j x.addr
  · rw [decide_eq_true (inj.mp same), Bool.or_true, ← same]
    simp [flags, inside]
  · simp [same, inj.not.mp same]

theorem replicaCounts_ne_zero (le : d + 1 ≤ 4) : replicaCounts.getD (d + 1) 0 ≠ 0 := by
  have : d < 4 := le
  interval_cases d <;> decide

theorem add_of_taken (taken : d = 0 ∨ r.exist.getD (nh d c.addr) false = true) : r.add c d = ((0, 0), r) := by
  cases d with
  | zero => rfl
  | succ d => exact if_pos (taken.resolve_left (Nat.succ_ne_zero d))

theorem lands_here (flags : r.exist.length = 30) (le : d + 1 ≤ 4) :
    Lands c (d + 1) (d + 1) r
      { r with
        exist := r.exist.set (nh (d + 1) c.addr) true
        sizes := r.sizes.set d (r.sizes.getD d 0 + 1)
        queue := if r.sizes.getD d 0 < r.queue.length then r.queue.set (r.sizes.getD d 0) (some c) else r.queue } where
  flags := List.length_set
  exist j x pos le' := by
    rw [getD_claim flags (Nat.succ_pos d) le pos le']
    congr 2
    ext
    constructor
    · rintro ⟨rfl, same⟩
      exact ⟨le_rfl, le_rfl, same⟩
    · rintro ⟨low, high, same⟩
      obtain rfl := Nat.le_antisymm low high
      exact ⟨rfl, same⟩
  sizes := rfl
  queue := by
    split
    · rfl
    · rename_i outside
      exact (List.set_eq_of_length_le (Nat.le_of_not_lt outside)).symm

theorem Lands.finer {r' : Replicator} (flags : r.exist.length = 30) (le : d + 1 ≤ 4) (most : e ≤ d)
    (landed : Lands c e d { r with exist := r.exist.set (nh (d + 1) c.addr) true } r') : Lands c e (d + 1) r r' where
  flags := landed.flags.trans List.length_set
  exist j x pos le' := by
    rw [landed.exist j x pos le', getD_claim flags (Nat.succ_pos d) le pos le', Bool.or_assoc, ← Bool.decide_or]
    congr 2
    ext
    constructor
    · rintro (⟨rfl, same⟩ | ⟨low, high, same⟩)
      · exact ⟨by omega, le_rfl, same⟩
      · exact ⟨low, by omega, same⟩
    · rintro ⟨low, high, same⟩
      rcases Nat.eq_or_lt_of_le high with here | before
      · exact .inl ⟨here.symm, here ▸ same⟩
      · exact .inr ⟨low, by omega, same⟩
  sizes := landed.sizes
  queue := landed.queue

theorem add_of_free (c : Candidate) (flags : r.exist.length = 30) (pos : 0 < d) (le : d ≤ 4)
    (free : r.exist.getD (nh d c.addr) false = false) :
    ∃ e, 0 < e ∧ e ≤ d ∧ r.exist.getD (nh e c.addr) false = false ∧
      (e - 1 = 0 ∨ r.exist.getD (nh (e - 1) c.addr) false = true) ∧
      (r.add c d).1.1 ≠ 0 ∧ Lands c e d r (r.add c d).2 := by
  induction d generalizing r with
  | zero => cases pos
  | succ d ih =>
    have claimed : (r.exist.set (nh (d + 1) c.addr) true).length = 30 := List.length_set.trans flags
    have kept : ∀ j, 0 < j → j ≤ d →
        (r.exist.set (nh (d + 1) c.addr) true).getD (nh j c.addr) false = r.exist.getD (nh j c.addr) false := by
      intro j below le'
      rw [getD_claim flags (Nat.succ_pos d) le below (by omega), decide_eq_false (by omega), Bool.or_false]
    have deeper : r.add c (d + 1) = _ := if_neg (ne_true_of_eq_false free)
    by_cases taken : d = 0 ∨ r.exist.getD (nh d c.addr) false = true
    · have still : d = 0 ∨ (r.exist.set (nh (d + 1) c.addr) true).getD (nh d c.addr) false = true := by
        rcases Nat.eq_zero_or_pos d with zero | below
        · exact .inl zero
        · exact taken.imp_right (kept d below le_rfl).trans
      have blocked : add c d { r with exist := r.exist.set (nh (d + 1) c.addr) true } = _ := add_of_taken still
      rw [blocked] at deeper
      refine ⟨d + 1, Nat.succ_pos d, le_rfl, free, taken, ?_, ?_⟩
      · rw [deeper]
        exact replicaCounts_ne_zero le
      · rw [deeper]
        exact lands_here flags le
    · obtain ⟨below, open_⟩ := not_or.mp taken
      have below := Nat.pos_of_ne_zero below
      obtain ⟨e, first, most, free, next, placed, landed⟩ :=
        @ih { r with exist := r.exist.set (nh (d + 1) c.addr) true } claimed below (by omega)
          ((kept d below le_rfl).trans (eq_false_of_ne_true open_))
      have deeper : r.add c (d + 1) = add c d { r with exist := r.exist.set (nh (d + 1) c.addr) true } :=
        deeper.trans (if_neg placed)
      refine ⟨e, first, by omega, (kept e first most).symm.trans free, ?_, ?_, ?_⟩
      · rcases Nat.eq_zero_or_pos (e - 1) with zero | above
        · exact .inl zero
        · exact next.imp_right ((kept (e - 1) above (by omega)).symm.trans ·)
      · rw [deeper]
        exact placed
      · rw [deeper]
        exact landed.finer flags le most

structure Represents (depth : Nat) (cs : List Candidate) (r : Replicator) : Prop where
  flags : r.exist.length = 30
  exist : ∀ d x, 0 < d → d ≤ depth → r.exist.getD (nh d x.addr) false = !fresh top d cs x
  counters : r.sizes.length = 5
  sizes : ∀ d, 0 < d → d ≤ depth → r.sizes.getD (d - 1) 0 = start d + (placed top d cs).length
  queue : r.queue = board top depth 4 cs

theorem represents_new (le : depth ≤ 4) : Represents depth [] new where
  flags := rfl
  exist d x pos le' := by
    have inside := nh_lt x pos (by omega)
    have open_ : fresh top d [] x = true := fresh_iff.mpr ⟨pos, by simp⟩
    rw [open_, new, List.getD_replicate _ inside]
    rfl
  counters := rfl
  sizes d pos le' := by
    have : d ≤ 4 := by omega
    interval_cases d <;> rfl
  queue := by interval_cases depth <;> rfl

theorem Represents.passed (rep : Represents depth cs r) (full : fresh top depth cs c = false) :
    Represents depth (cs ++ [c]) r where
  flags := rep.flags
  exist d x pos le := by
    rw [rep.exist d x pos le, fresh_concat]
    by_cases same : top d c = top d x
    · rw [← fresh_congr same, not_fresh_mono top_halves le full, Bool.false_and]
    · simp [same]
  counters := rep.counters
  sizes d pos le := by
    rw [rep.sizes d pos le, placed_concat, not_lands_of_not_fresh top_halves full le]
    simp
  queue := by rw [rep.queue, board_concat_of_not_fresh top_halves full]

theorem Represents.placed {r' : Replicator} (rep : Represents depth cs r) (most : depth ≤ 4) (pos : 0 < e) (le : e ≤ depth)
    (landing : lands top e cs c = true) (landed : Lands c e depth r r') : Represents depth (cs ++ [c]) r' where
  flags := landed.flags.trans rep.flags
  exist d x pos' le' := by
    rw [landed.exist d x pos' (by omega), rep.exist d x pos' le', fresh_concat]
    by_cases same : top d c = top d x
    · rcases Nat.lt_or_ge d e with coarse | fine
      · rw [← fresh_congr same, not_fresh_of_lands top_halves landing coarse]
        simp
      · simp [same, fine, le']
    · simp [same]
  counters := by rw [landed.sizes, List.length_set, rep.counters]
  sizes d pos' le' := by
    have counters := rep.counters
    rw [landed.sizes, placed_concat]
    by_cases here : d = e
    · subst here
      have inside : d - 1 < r.sizes.length := by omega
      rw [if_pos landing, rep.sizes d pos le, List.length_append, List.length_singleton, ← Nat.add_assoc]
      simp [inside]
    · have apart : lands top d cs c = false := by
        by_contra other
        exact here (lands_unique top_halves (Bool.eq_true_of_not_eq_false other) landing)
      have other : e - 1 ≠ d - 1 := by omega
      rw [apart, List.getD_eq_getElem?_getD, List.getElem?_set_ne other, ← List.getD_eq_getElem?_getD, rep.sizes d pos' le']
      simp
  queue := by
    rw [landed.queue, rep.queue, rep.sizes e pos le,
      board_concat_of_lands top_halves pos le (length_placed_lt top_halves top_lt pos landing) landing, if_pos (by omega)]

theorem Represents.add (rep : Represents depth cs r) (most : depth ≤ 4) (c : Candidate) :
    Represents depth (cs ++ [c]) (r.add c depth).2 ∧ ((r.add c depth).1.1 = 0 → (r.add c depth).2 = r) := by
  cases free : fresh top depth cs c with
  | false =>
    have taken : depth = 0 ∨ r.exist.getD (nh depth c.addr) false = true := by
      rcases Nat.eq_zero_or_pos depth with zero | pos
      · exact .inl zero
      · exact .inr (by rw [rep.exist depth c pos le_rfl, free]; rfl)
    rw [add_of_taken taken]
    exact ⟨rep.passed free, fun _ => rfl⟩
  | true =>
    have pos := (fresh_iff.mp free).1
    have open_ : r.exist.getD (nh depth c.addr) false = false := by rw [rep.exist depth c pos le_rfl, free]; rfl
    obtain ⟨e, first, le, here, above, placed, landed⟩ := add_of_free c rep.flags pos most open_
    have landing : lands top e cs c = true := by
      have bucket : fresh top e cs c = true := by
        rw [rep.exist e c first le] at here
        simpa using here
      have taken : fresh top (e - 1) cs c = false := by
        rcases Nat.eq_zero_or_pos (e - 1) with zero | more
        · simp [zero, fresh]
        · have shut := above.resolve_left more.ne'
          rw [rep.exist (e - 1) c more (by omega)] at shut
          simpa using shut
      simp [lands, bucket, taken]
    exact ⟨rep.placed most first le landing landed, fun zero => absurd zero placed⟩

theorem flush_out (slots : List (Option Candidate)) (idx advanced : Nat) (out : List Candidate) :
    (flush slots idx advanced out).2 = out ++ contiguous slots := by
  induction slots generalizing idx advanced out with
  | nil => simp [flush, contiguous]
  | cons slot rest ih =>
    cases slot with
    | none => simp [flush, contiguous]
    | some c => simp [flush, contiguous, ih]

theorem flush_advanced (slots : List (Option Candidate)) (idx advanced : Nat) (out : List Candidate)
    (hole : (contiguous slots).length < slots.length) :
    (flush slots idx advanced out).1 = idx + (contiguous slots).length := by
  induction slots generalizing idx advanced out with
  | nil => simp at hole
  | cons slot rest ih =>
    cases slot with
    | none => rfl
    | some c =>
      rw [flush, ih _ _ _ (by simpa [contiguous] using hole)]
      simp [contiguous]
      omega

theorem runLoop_spec {want : Nat} (few : want ≤ 16) (most : depth ≤ 4) (rest : List Candidate) {n : Nat}
    (rep : Represents depth cs r) (at_ : n = (contiguous r.queue).length ∨ 16 ≤ (contiguous r.queue).length) :
    (runLoop want depth rest r n (contiguous r.queue)).take want =
      (contiguous (board top depth 4 (cs ++ rest))).take want := by
  induction rest generalizing cs r n with
  | nil => rw [runLoop, rep.queue, List.append_nil]
  | cons c rest ih =>
    have grows := contiguous_board_append top_halves top_lt most cs
    unfold runLoop
    split
    · rename_i short
      obtain ⟨next, still⟩ := rep.add most c
      rw [← List.singleton_append, ← List.append_assoc]
      dsimp only
      split
      · rename_i zero
        have same := still zero
        rw [same] at next ⊢
        exact ih next at_
      · have kept := grows [c]
        rw [← rep.queue, ← next.queue] at kept
        have longer : (contiguous r.queue).length ≤ (contiguous (r.add c depth).2.queue).length := by
          have := congrArg List.length kept
          rw [List.length_take] at this
          omega
        have stands : n = (contiguous r.queue).length := by omega
        have emitted := contiguous_drop longer
        have total := congrArg List.length emitted
        rw [kept, ← stands, ← flush_out _ 0 0] at emitted
        rw [List.length_append, List.length_take, Nat.min_eq_left longer, ← stands] at total
        rw [← emitted]
        refine ih next ?_
        by_cases hole : (contiguous ((r.add c depth).2.queue.drop n)).length < ((r.add c depth).2.queue.drop n).length
        · rw [flush_advanced _ _ _ _ hole]
          omega
        · have slots : (r.add c depth).2.queue.length = 16 := by rw [next.queue, length_board]; rfl
          rw [List.length_drop, slots] at hole
          omega
    · rename_i enough
      have kept := grows (c :: rest)
      rw [← rep.queue] at kept
      rw [← kept, List.take_take, Nat.min_eq_left (by omega)]

variable {keccak256 : List UInt8 → Addr} {root : Addr} {level : Level}

theorem depth_le (level : Level) : level.depth ≤ 4 := by cases level <;> decide

variable (keccak256)

theorem run_eq (root : Addr) (level : Level) :
    run keccak256 root level =
      (contiguous (board top level.depth 4 (candidates keccak256 root))).take level.replicaCount := by
  have most := depth_le level
  have few : level.replicaCount ≤ 16 := by cases level <;> decide
  have rep := represents_new most
  have nothing : contiguous new.queue = [] := rfl
  have loop := runLoop_spec few most (candidates keccak256 root) rep (.inl rfl)
  rwa [nothing, List.nil_append] at loop

theorem replicaCount_mono {wide : Level} (le : level.depth ≤ wide.depth) : level.replicaCount ≤ wide.replicaCount := by
  revert le
  cases level <;> cases wide <;> decide

theorem replicaCount_eq (some_ : level ≠ .none) : level.replicaCount = start (level.depth + 1) := by
  cases level
  · exact absurd rfl some_
  all_goals rfl

theorem run_take (root : Addr) {wide : Level} (some_ : level ≠ .none) (le : level.depth ≤ wide.depth) :
    run keccak256 root level = (run keccak256 root wide).take level.replicaCount := by
  have most := depth_le level
  have fewer := replicaCount_mono le
  rw [run_eq, run_eq, List.take_take, Nat.min_eq_left fewer, replicaCount_eq some_, ← contiguous_take, ← contiguous_take,
    take_board most, take_board most, board_congr le_rfl le]

theorem run_nodup (root : Addr) (level : Level) :
    ((run keccak256 root level).map fun c => leadingBits level.depth c.addr).Nodup := by
  have most := depth_le level
  have distinct := nodup_allPlaced top_halves level.depth (candidates keccak256 root)
  rw [← reduce_board top_halves top_lt most] at distinct
  have bits : (fun c : Candidate => leadingBits level.depth c.addr) = top level.depth := by
    funext c
    rw [top_eq c (by omega)]
  rw [bits, run_eq]
  exact distinct.sublist (((List.take_sublist _ _).trans (contiguous_sublist _)).map _)

variable {keccak256}

theorem run_perm (complete : (run keccak256 root level).length = level.replicaCount) (some_ : level ≠ .none) :
    ((run keccak256 root level).map fun c => leadingBits level.depth c.addr).Perm (List.range (2 ^ level.depth)) := by
  have most : level.depth ≤ 8 := (depth_le level).trans (by decide)
  have count : level.replicaCount = 2 ^ level.depth := by cases level <;> first | exact absurd rfl some_ | rfl
  have inside : (run keccak256 root level).map (fun c => leadingBits level.depth c.addr) ⊆
      List.range (2 ^ level.depth) := by
    intro b member
    obtain ⟨c, -, rfl⟩ := List.mem_map.mp member
    rw [List.mem_range, ← top_eq c most]
    exact top_lt _ _
  refine (List.subperm_of_subset (run_nodup keccak256 root level) inside).perm_of_length_le ?_
  rw [List.length_range, List.length_map, complete, count]

/-- Whatever the hash: narrower levels come first, a level's addresses differ in as many leading bits as
the level has depths, and a complete list visits every neighbourhood of every depth once. -/
theorem replicas_disperse (keccak256 : List UInt8 → Addr) (root : Addr) :
    (∀ narrow wide : Level, narrow ≠ .none → narrow.depth ≤ wide.depth →
      run keccak256 root narrow = (run keccak256 root wide).take narrow.replicaCount) ∧
    (∀ level : Level, ((run keccak256 root level).map fun c => leadingBits level.depth c.addr).Nodup) ∧
    ∀ level : Level, (run keccak256 root level).length = level.replicaCount →
      ∀ d, 1 ≤ d → d ≤ level.depth →
        (((run keccak256 root level).take (2 ^ d)).map fun c => leadingBits d c.addr).Perm (List.range (2 ^ d)) := by
  refine ⟨fun narrow wide some_ le => run_take keccak256 root some_ le, run_nodup keccak256 root,
    fun level complete d pos le => ?_⟩
  have most := depth_le level
  have named : ∃ narrow : Level, narrow ≠ .none ∧ narrow.depth = d ∧ narrow.replicaCount = 2 ^ d := by
    have : d ≤ 4 := by omega
    interval_cases d
    · exact ⟨.medium, by decide, rfl, rfl⟩
    · exact ⟨.strong, by decide, rfl, rfl⟩
    · exact ⟨.insane, by decide, rfl, rfl⟩
    · exact ⟨.paranoid, by decide, rfl, rfl⟩
  obtain ⟨narrow, some_, rfl, count⟩ := named
  have first := run_take keccak256 root some_ le
  have fewer := replicaCount_mono le
  rw [← count, ← first, count]
  refine run_perm ?_ some_
  rw [first, List.length_take, complete, Nat.min_eq_left fewer]

def spreadHash (bytes : List UInt8) : Addr := ⟨bytes.getD 0 0 <<< 4 :: List.replicate 31 0, rfl⟩

theorem replicas_disperse_spread :
    (run spreadHash (spreadHash []) .paranoid).length = 16 ∧
      (((run spreadHash (spreadHash []) .paranoid).take 8).map fun c => leadingBits 3 c.addr).Perm (List.range 8) :=
  ⟨by decide +kernel,
    (replicas_disperse spreadHash (spreadHash [])).2.2 .paranoid (by decide +kernel) 3 (by decide) (by decide)⟩

end Replicator
end Hoverfly.Erasure
