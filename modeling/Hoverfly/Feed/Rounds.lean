import Hoverfly.Feed.Bracket
import Hoverfly.Lib.Fold
import Mathlib.Data.List.TakeWhile

/-! What a round of probes, the gallop and the narrowing leave behind, whatever the store answers. -/
namespace Hoverfly.Feed
open Lib

section
variable {address : Nat → Bytes 32} {good : (Bytes 32 → Reply) → Prop}

/-- A store that gives no fetch error for an update: it is present or absent. -/
def Quiet (address : Nat → Bytes 32) (answer : Bytes 32 → Reply) : Prop :=
  ∀ i < 2 ^ 64, ∃ seen, getUpdate (answer (address i)) = .ok seen

def Answers (address : Nat → Bytes 32) (good : (Bytes 32 → Reply) → Prop) : Prop :=
  ∀ answer, good answer → Quiet address answer

def Said (address : Nat → Bytes 32) (good : (Bytes 32 → Reply) → Prop) (p : Nat × Option Chunk) : Prop :=
  p.1 < 2 ^ 64 ∧ ∃ answer, good answer ∧ getUpdate (answer (address p.1)) = .ok p.2

structure Spans (low high : Nat) (b : Bracket) : Prop where
  low_le : low ≤ b.low
  found : (b.chunk = none ∧ b.low = low) ∨ ∃ chunk, b.chunk = some chunk ∧ (b.low, some chunk) ∈ b.asked
  present : ∀ i chunk, (i, some chunk) ∈ b.asked → i ≤ b.low
  le_high : b.high ≤ high
  missed : b.high = high ∨ (b.high, none) ∈ b.asked
  absent : ∀ i, (i, none) ∈ b.asked → b.high ≤ i
  any : b.anyPresent = true ↔ ∃ i chunk, (i, some chunk) ∈ b.asked

theorem spans_start (low high : Nat) : Spans low high { low, high } where
  low_le := le_rfl
  found := .inl ⟨rfl, rfl⟩
  present := by simp
  le_high := le_rfl
  missed := .inl rfl
  absent := by simp
  any := by simp

variable {low high : Nat} {idxs : List Nat} {b : Bracket}

theorem takeProbe_spec {i idx : Nat} {answer : Bytes 32 → Reply}
    {seen : Option Chunk} (here : idxs[i]? = some idx) (told : getUpdate (answer (address idx)) = .ok seen)
    (spans : Spans low high b) :
    ∃ b', takeProbe address idxs i answer b = .ok b' ∧ b'.asked = b.asked ++ [(idx, seen)] ∧ Spans low high b' := by
  obtain ⟨low_le, found, present, le_high, missed, absent, any⟩ := spans
  have missed : b.high = high ∨ (b.high, none) ∈ b.asked ++ [(idx, seen)] := missed.imp_right (List.mem_append_left _)
  unfold takeProbe
  rw [here]
  dsimp only
  rw [told]
  cases seen with
  | some chunk =>
    have absent : ∀ j, (j, none) ∈ b.asked ++ [(idx, some chunk)] → b.high ≤ j := by simpa using absent
    have any : true = true ↔ ∃ j c, (j, some c) ∈ b.asked ++ [(idx, some chunk)] := by
      simp only [true_iff]
      exact ⟨idx, chunk, by simp⟩
    refine ⟨_, rfl, by split <;> rfl, ?_⟩
    split
    · rename_i higher
      refine ⟨by dsimp only; omega, .inr ⟨chunk, rfl, by simp⟩, fun j c member => ?_, le_high, missed, absent, any⟩
      rcases List.mem_append.mp member with old | new
      · exact (present j c old).trans higher.le
      · cases List.mem_singleton.mp new
        exact le_rfl
    · rename_i lower
      refine ⟨low_le, ?_, fun j c member => ?_, le_high, missed, absent, any⟩
      · exact found.imp_right fun ⟨c, same, old⟩ => ⟨c, same, List.mem_append_left _ old⟩
      · rcases List.mem_append.mp member with old | new
        · exact present j c old
        · cases List.mem_singleton.mp new
          exact Nat.le_of_not_lt lower
  | none =>
    have found : (b.chunk = none ∧ b.low = low) ∨ ∃ c, b.chunk = some c ∧ (b.low, some c) ∈ b.asked ++ [(idx, none)] :=
      found.imp_right fun ⟨c, same, old⟩ => ⟨c, same, List.mem_append_left _ old⟩
    have present : ∀ j c, (j, some c) ∈ b.asked ++ [(idx, none)] → j ≤ b.low := by simpa using present
    have any : b.anyPresent = true ↔ ∃ j c, (j, some c) ∈ b.asked ++ [(idx, none)] := by simpa using any
    refine ⟨_, rfl, by split <;> rfl, ?_⟩
    split
    · rename_i lower
      refine ⟨low_le, found, present, by dsimp only; omega, .inr (by simp), fun j member => ?_, any⟩
      rcases List.mem_append.mp member with old | new
      · exact lower.le.trans (absent j old)
      · cases List.mem_singleton.mp new
        exact le_rfl
    · rename_i higher
      refine ⟨low_le, found, present, le_high, missed, fun j member => ?_, any⟩
      rcases List.mem_append.mp member with old | new
      · exact absent j old
      · cases List.mem_singleton.mp new
        exact Nat.le_of_not_lt higher

theorem probeRound_ends {idxs : List Nat} (fit : ∀ i ∈ idxs, i < 2 ^ 64) (low high : Nat) {env : Env}
    (kind : env.All (good ·.answer)) :
    Window.Ends idxs.length
      (fun seen (b : Bracket) => Spans low high b ∧ b.asked.map (·.1) = seen.reverse.map (idxs.getD · 0) ∧
        ∀ p ∈ b.asked, Said address good p)
      (fun _ => ¬ Answers address good) (probeRound address idxs { low, high } env).1 ∧
      (probeRound address idxs { low, high } env).2.All (good ·.answer) := by
  refine Window.drain_spec (fun seen i answer b inside _ kind holds => ?_) idxs.length
    (Window.covers_start le_rfl (by omega)) (Nat.le_refl _) ⟨spans_start low high, rfl, by simp⟩ kind
  obtain ⟨spans, order, said⟩ := holds
  have here := List.getElem?_eq_getElem inside
  have small := fit _ (List.getElem_mem inside)
  cases reply : getUpdate (answer (address idxs[i])) with
  | error e =>
    have stopped : takeProbe address idxs i answer b = .error (.error e) := by
      unfold takeProbe
      rw [here]
      dsimp only
      rw [reply]
    rw [stopped]
    intro answers
    obtain ⟨seen, told⟩ := answers answer kind idxs[i] small
    rw [reply] at told
    cases told
  | ok told =>
    obtain ⟨b', stepped, asked, spans'⟩ := takeProbe_spec here reply spans
    rw [stepped]
    refine ⟨spans', ?_, fun p member => ?_⟩
    · rw [asked, List.map_append, order, List.reverse_cons, List.map_append]
      simp [here]
    · rw [asked] at member
      rcases List.mem_append.mp member with old | new
      · exact said p old
      · rw [List.mem_singleton.mp new]
        exact ⟨small, answer, kind, reply⟩

theorem asked_perm {seen : List Nat} {round : Round} (all : seen.Perm (List.range idxs.length))
    (order : round.map (·.1) = seen.reverse.map (idxs.getD · 0)) : (round.map (·.1)).Perm idxs := by
  rw [order]
  have whole : (List.range idxs.length).map (idxs.getD · 0) = idxs :=
    List.ext_getElem (by simp) fun k _ inside => by simp [inside]
  have visited := ((List.reverse_perm seen).trans all).map (idxs.getD · 0)
  rwa [whole] at visited

theorem probeRound_spec (answers : Answers address good) (fit : ∀ i ∈ idxs, i < 2 ^ 64)
    (low high : Nat) {env : Env} (kind : env.All (good ·.answer)) :
    ∃ b env', probeRound address idxs { low, high } env = (.ok b, env') ∧ env'.All (good ·.answer) ∧ Spans low high b ∧
      (b.asked.map (·.1)).Perm idxs ∧ ∀ p ∈ b.asked, Said address good p := by
  obtain ⟨ends, later⟩ := @probeRound_ends address good idxs fit low high env kind
  generalize probeRound address idxs { low, high } env = out at ends later
  obtain ⟨halt | b, env'⟩ := out
  · exact absurd answers ends
  · obtain ⟨seen, all, spans, order, said⟩ := ends
    exact ⟨b, env', rfl, later, spans, asked_perm all order, said⟩

theorem probeRound_ok (fit : ∀ i ∈ idxs, i < 2 ^ 64) {env env' : Env}
    (probed : probeRound address idxs { low, high } env = (.ok b, env')) :
    Spans low high b ∧ (b.asked.map (·.1)).Perm idxs := by
  have ends := (@probeRound_ends address (fun _ => True) idxs fit low high env fun _ => trivial).1
  rw [probed] at ends
  obtain ⟨seen, all, spans, order, -⟩ := ends
  exact ⟨spans, asked_perm all order⟩

/-- No index was answered present above one answered absent. -/
def Ordered (round : Round) : Prop := ∀ i chunk j, (i, some chunk) ∈ round → (j, none) ∈ round → i ≤ j

theorem Spans.upright (spans : Spans low high b)
    (inside : ∀ p ∈ b.asked, low < p.1 ∧ p.1 < high) (wide : low < high) : b.low ≤ b.high ↔ Ordered b.asked := by
  constructor
  · intro upright i chunk j present absent
    exact (spans.present i chunk present).trans (upright.trans (spans.absent j absent))
  · intro ordered
    rcases spans.found with ⟨-, same⟩ | ⟨chunk, -, found⟩
    · rcases spans.missed with same' | missed
      · omega
      · have := (inside _ missed).1
        omega
    · rcases spans.missed with same | missed
      · have := (inside _ found).2
        omega
      · exact ordered _ _ _ found missed

end

section
variable {checks : Bool} {low high : Nat}

theorem bracketCandidates_spec (small : low ≤ maxProbeIndex) (short : high ≤ maxProbeIndex) :
    ∃ out, (∀ checks, bracketCandidates checks low high probeBand = .ok out) ∧ (∀ c ∈ out, low < c ∧ c < high) ∧
      (low + 1 < high → out ≠ []) ∧ (high ≤ low + 1 → out = []) := by
  have top : maxProbeIndex + 1 < 2 ^ 64 := by simp [maxProbeIndex]
  by_cases closed : high ≤ low + 1
  · refine ⟨[], fun checks => ?_, by simp, fun open_ => by omega, fun _ => rfl⟩
    exact bracketCandidates_nil closed (by omega)
  · obtain ⟨span, wide⟩ : ∃ span, low + span + 1 = high := ⟨high - low - 1, by omega⟩
    have room : span * min probeBand span < 2 ^ 64 := by
      have product : span * min probeBand span ≤ maxProbeIndex * probeBand :=
        Nat.mul_le_mul (by omega) (Nat.min_le_left ..)
      exact product.trans_lt (by simp [maxProbeIndex, probeBand])
    refine ⟨_, fun checks => bracketCandidates_eq wide (by omega) room, fun c member => ?_, fun _ => ?_,
      fun shut => absurd shut closed⟩
    · obtain ⟨j, inside, rfl⟩ := List.mem_map.mp member
      have := List.mem_range'_1.mp inside
      exact spread_inside wide (by omega) (by omega)
    · have : min probeBand span ≠ 0 := by unfold probeBand; omega
      simpa [spreads] using this

theorem Spans.narrowed {address : Nat → Bytes 32} {out : List Nat} {g : Nat} {env env' : Env} {b : Bracket}
    (chain : (low :: out ++ [high]).IsChain fun x y => x < y ∧ y - x ≤ g) (fit : ∀ c ∈ out, c < 2 ^ 64)
    (probed : probeRound address out { low, high } env = (.ok b, env')) : b.high - b.low ≤ g := by
  obtain ⟨spans, asked⟩ := probeRound_ok fit probed
  have among : ∀ p ∈ b.asked, p.1 ∈ low :: out ++ [high] := fun p member => by
    have := asked.subset (List.mem_map_of_mem member)
    simp [this]
  refine chain_gap chain ?_ ?_ fun c member => ?_
  · rcases spans.found with ⟨-, same⟩ | ⟨chunk, -, found⟩
    · simp [same]
    · exact among _ found
  · rcases spans.missed with same | missed
    · simp [same]
    · exact among _ missed
  · rcases List.mem_append.mp member with inside | last
    · rcases List.mem_cons.mp inside with rfl | inside
      · exact .inl spans.low_le
      · obtain ⟨⟨_, seen⟩, here, rfl⟩ := List.mem_map.mp (asked.symm.subset inside)
        cases seen with
        | some chunk => exact .inl (spans.present _ _ here)
        | none => exact .inr (spans.absent _ here)
    · rw [List.mem_singleton.mp last]
      exact .inr spans.le_high

theorem bracketCandidates_even {k : Nat} (wide : low < high) (some_ : 1 ≤ k) (fits : high < 2 ^ 64)
    (room : (high - low) * k < 2 ^ 64) :
    ∃ out, bracketCandidates checks low high k = .ok out ∧ out.Pairwise (· < ·) ∧ out.length ≤ k ∧
      (∀ c ∈ out, low < c ∧ c < high) ∧ (out ≠ [] ↔ ∃ i, low < i ∧ i < high) ∧
      (low :: out ++ [high]).IsChain (fun a b => b - a ≤ (high - low) ⌈/⌉ (min k (high - low - 1) + 1) + 1) ∧
      ∀ address env b env', probeRound address out { low, high } env = (.ok b, env') →
        b.high - b.low ≤ (high - low) ⌈/⌉ (min k (high - low - 1) + 1) ∧ 2 * (b.high - b.low) ≤ high - low + 1 := by
  obtain ⟨span, rfl⟩ : ∃ span, high = low + span + 1 := ⟨high - low - 1, by omega⟩
  have inside : low + span + 1 - low - 1 = span := by omega
  rw [inside]
  have few : min k span ≤ span := Nat.min_le_right ..
  have product : span * min k span < 2 ^ 64 :=
    (Nat.mul_le_mul (by omega) (Nat.min_le_left ..)).trans_lt room
  have chain := @spread_chain low (low + span + 1) span _ few rfl
  have within : ∀ c ∈ spreads low span (min k span) (min k span), low < c ∧ c < low + span + 1 := fun c member => by
    obtain ⟨j, counted, rfl⟩ := List.mem_map.mp member
    have := List.mem_range'_1.mp counted
    exact spread_inside rfl (by omega) (by omega)
  refine ⟨_, bracketCandidates_eq rfl fits product, ?_, ?_, within, ?_, chain.imp fun _ _ near => by omega, ?_⟩
  · have sorted : (low :: spreads low span (min k span) (min k span) ++ [low + span + 1]).IsChain (· < ·) :=
      chain.imp fun _ _ => And.left
    exact (List.pairwise_append.mp sorted.pairwise).1.tail
  · simp [spreads]
  · constructor
    · intro found
      obtain ⟨c, member⟩ := List.exists_mem_of_ne_nil _ found
      exact ⟨c, within c member⟩
    · rintro ⟨i, above, beneath⟩
      have : min k span ≠ 0 := by omega
      simpa [spreads] using this
  · intro address env b env' probed
    have narrowed := Spans.narrowed chain (fun c member => by have := (within c member).2; omega) probed
    refine ⟨narrowed, ?_⟩
    rw [width_ceilDiv rfl] at narrowed
    have half : span / (min k span + 1) ≤ span / 2 ∨ span = 0 := by
      rcases Nat.eq_zero_or_pos span with none_ | pos
      · exact .inr none_
      · exact .inl (Nat.div_le_div_left (by omega) (by decide))
    rcases half with half | rfl
    · omega
    · simp at narrowed
      omega

end

theorem bracketCandidates_even_ten :
    ∃ out, bracketCandidates true 0 10 3 = .ok out ∧ out.Pairwise (· < ·) ∧ out ≠ [] := by
  obtain ⟨out, ran, sorted, -, -, some_, -⟩ :=
    @bracketCandidates_even true 0 10 3 (by decide) (by decide) (by decide) (by decide)
  exact ⟨out, ran, sorted, some_.mpr ⟨1, by decide, by decide⟩⟩

theorem mem_band {lo idx : Nat} (member : idx ∈ band lo 1) : lo < idx ∧ idx ≤ maxProbeIndex := by
  have top : maxProbeIndex + 1 < 2 ^ 64 := by simp [maxProbeIndex]
  have le : idx ≤ maxProbeIndex := by simpa using List.mem_takeWhile_imp member
  obtain ⟨k, inside, rfl⟩ := List.mem_map.mp ((List.takeWhile_sublist _).subset member)
  have pos := Nat.two_pow_pos k
  unfold satAdd at le ⊢
  omega

theorem band_eq_nil {lo : Nat} (none_ : band lo 1 = []) : maxProbeIndex ≤ lo := by
  have top : maxProbeIndex + 1 < 2 ^ 64 := by simp [maxProbeIndex]
  have bands : List.range probeBand = 0 :: (List.range 11).map (· + 1) := rfl
  rw [band, bands, List.map_cons, List.takeWhile_cons] at none_
  split at none_
  · cases none_
  · rename_i beyond
    have beyond : ¬ satAdd 64 lo (min (1 * 2 ^ 0) (2 ^ 64 - 1)) ≤ maxProbeIndex := fun le => beyond (decide_eq_true le)
    unfold satAdd at beyond
    omega

section
variable {address : Nat → Bytes 32} {good : (Bytes 32 → Reply) → Prop} {anchor : Nat}

structure Searched (address : Nat → Bytes 32) (good : (Bytes 32 → Reply) → Prop) (anchor : Nat) (f : Found) : Prop where
  anchored : anchor ≤ f.lo
  held : ∃ round ∈ f.log, (f.lo, some f.chunk) ∈ round
  said : ∀ round ∈ f.log, ∀ p ∈ round, Said address good p

def Missed (f : Found) (i : Nat) : Prop := ∃ round ∈ f.log, (i, none) ∈ round

def AllOrdered (f : Found) : Prop := ∀ round ∈ f.log, Ordered round

inductive Galloped (f : Found) : Prop where
  | last (unset_ : f.hi = unset) (top : maxProbeIndex ≤ f.lo) (ordered : AllOrdered f)
  | bracket (lo : f.lo ≤ maxProbeIndex) (hi : f.hi ≤ maxProbeIndex) (missed : Missed f f.hi)
      (upright : AllOrdered f ↔ f.lo ≤ f.hi)

def Found.after (f : Found) (b : Bracket) : Found :=
  { lo := b.low, chunk := b.chunk.getD f.chunk, hi := b.high, log := f.log ++ [b.asked] }

variable {f : Found} {b : Bracket} {high : Nat} {env : Env}

theorem Searched.after (searched : Searched address good anchor f)
    (spans : Spans f.lo high b) (said : ∀ p ∈ b.asked, Said address good p) :
    Searched address good anchor (f.after b) where
  anchored := searched.anchored.trans spans.low_le
  held := by
    rcases spans.found with ⟨none_, same⟩ | ⟨chunk, some_, found⟩
    · obtain ⟨round, member, here⟩ := searched.held
      exact ⟨round, List.mem_append_left _ member, by rw [Found.after, none_, same]; exact here⟩
    · exact ⟨b.asked, by simp [Found.after], by rw [Found.after, some_]; exact found⟩
  said := by
    intro round member p inside
    rcases List.mem_append.mp member with old | new
    · exact searched.said round old p inside
    · exact said p (List.mem_singleton.mp new ▸ inside)

theorem allOrdered_after (b : Bracket) (ordered : AllOrdered f) :
    AllOrdered (f.after b) ↔ Ordered b.asked := by
  constructor
  · exact fun all => all _ (by simp [Found.after])
  · intro last round member
    rcases List.mem_append.mp member with old | new
    · exact ordered round old
    · exact List.mem_singleton.mp new ▸ last

theorem gallop_round {checks : Bool} {fuel step : Nat} {env' : Env} (open_ : f.hi = unset)
    (some_ : band f.lo step ≠ [])
    (probed : probeRound address (band f.lo step) { low := f.lo, high := f.hi } env = (.ok b, env')) :
    gallop checks address (fuel + 1) step f env =
      if b.high ≠ unset then (.ok (f.after b), env')
      else if b.anyPresent = false ∨ (band f.lo step).foldl max f.lo ≥ maxProbeIndex then (.ok (f.after b), env')
      else
        match u64 checks (((band f.lo step).foldl max f.lo : Nat) - (b.low : Int)) with
        | .error halt => (.error halt, env')
        | .ok gap => gallop checks address fuel (satAdd 64 gap 1) (f.after b) env' := by
  rw [gallop, if_neg (not_or.mpr ⟨not_not.mpr open_, some_⟩), probed]
  rfl

theorem gallop_spec (answers : Answers address good) (fuel : Nat)
    (searched : Searched address good anchor f) (open_ : f.hi = unset) (ordered : AllOrdered f)
    (enough : maxProbeIndex < fuel + f.lo) (pos : 0 < fuel) (kind : env.All (good ·.answer)) :
    ∃ f' env', (∀ checks, gallop checks address fuel 1 f env = (.ok f', env')) ∧ env'.All (good ·.answer) ∧
      Searched address good anchor f' ∧ Galloped f' := by
  have top : maxProbeIndex < unset := by simp [maxProbeIndex, unset]
  induction fuel generalizing f env with
  | zero => cases pos
  | succ fuel ih =>
    by_cases none_ : band f.lo 1 = []
    · refine ⟨f, env, fun checks => ?_, kind, searched, .last open_ (band_eq_nil none_) ordered⟩
      rw [gallop, if_pos (.inr none_)]
    obtain ⟨first, firstIn⟩ := List.exists_mem_of_ne_nil _ none_
    have below := mem_band firstIn
    have fit : ∀ i ∈ band f.lo 1, i < 2 ^ 64 := fun i member => by
      have := mem_band member
      unfold unset at top
      omega
    obtain ⟨b, env', probed, kind', spans, asked, said⟩ := probeRound_spec answers fit f.lo f.hi kind
    have within : ∀ p ∈ b.asked, f.lo < p.1 ∧ p.1 ≤ maxProbeIndex := fun p member =>
      mem_band (asked.subset (List.mem_map_of_mem member))
    have low : b.low ≤ maxProbeIndex := by
      rcases spans.found with ⟨-, same⟩ | ⟨chunk, -, found⟩
      · omega
      · exact (within _ found).2
    have next := searched.after spans said
    have upright := spans.upright (fun p member => ⟨(within p member).1, by have := (within p member).2; omega⟩) (by omega)
    have order := allOrdered_after b ordered
    by_cases closed : b.high = unset
    · -- an absent index would have closed the bracket
      have present : ∀ i ∈ band f.lo 1, ∃ chunk, (i, some chunk) ∈ b.asked := by
        intro i member
        obtain ⟨⟨j, seen⟩, here, rfl⟩ := List.mem_map.mp (asked.symm.subset member)
        cases seen with
        | some chunk => exact ⟨chunk, here⟩
        | none =>
          have := spans.absent _ here
          have := (within _ here).2
          omega
      have higher : f.lo < b.low := by
        obtain ⟨chunk, here⟩ := present first firstIn
        exact Nat.lt_of_lt_of_le below.1 (spans.present _ _ here)
      have reached : (band f.lo 1).foldl max f.lo = b.low := by
        refine foldl_max_eq (fun i member => ?_) higher.le (.inr ?_)
        · obtain ⟨chunk, here⟩ := present i member
          exact spans.present _ _ here
        · rcases spans.found with ⟨-, same⟩ | ⟨chunk, -, found⟩
          · omega
          · exact asked.subset (List.mem_map_of_mem found)
      have some_ : b.anyPresent = true := spans.any.mpr ⟨first, present first firstIn⟩
      have inOrder : AllOrdered (f.after b) := order.mpr (upright.mp (by omega))
      by_cases atTop : maxProbeIndex ≤ b.low
      · refine ⟨f.after b, env', fun checks => ?_, kind', next, .last closed atTop inOrder⟩
        rw [gallop_round open_ none_ probed, reached, if_neg (not_not.mpr closed), if_pos (.inr atTop)]
      · obtain ⟨f', env'', galloped, rest⟩ := ih next closed inOrder (by change _ < fuel + b.low; omega) (by omega) kind'
        refine ⟨f', env'', fun checks => ?_, rest⟩
        have still : u64 checks ((b.low : Int) - b.low) = .ok 0 := u64_nat (by simp) (by decide)
        rw [gallop_round open_ none_ probed, reached, if_neg (not_not.mpr closed), if_neg (by simp [some_, atTop]), still]
        exact galloped checks
    · refine ⟨f.after b, env', fun checks => ?_, kind', next, ?_⟩
      · rw [gallop_round open_ none_ probed, if_pos closed]
      · have missed := spans.missed.resolve_left (by omega)
        exact .bracket low (within _ missed).2 ⟨b.asked, by simp [Found.after], missed⟩ (order.trans upright.symm)

theorem narrow_round {checks : Bool} {fuel low gap : Nat} {candidates : List Nat} {env' : Env}
    (measured : u64 checks ((high : Int) - low) = .ok gap) (wide : 1 < gap)
    (chosen : bracketCandidates checks low high probeBand = .ok candidates) (some_ : candidates ≠ [])
    (probed : probeRound address candidates { low, high } env = (.ok b, env')) (same : low = f.lo) (spans : Spans low high b)
    (progress : ¬(b.low = low ∧ b.high = high)) :
    narrow checks address (fuel + 1) low high f env =
      narrow checks address fuel b.low b.high { f.after b with hi := f.hi } env' := by
  rw [narrow, measured]
  dsimp only
  rw [if_pos wide, chosen]
  dsimp only
  rw [if_neg some_, probed]
  dsimp only
  rw [if_neg progress]
  rcases spans.found with ⟨none_, stays⟩ | ⟨chunk, found, -⟩
  · rw [none_, Found.after, none_, stays, same]
    rfl
  · rw [found, Found.after, found]
    rfl

theorem narrow_spec (answers : Answers address good) (fuel : Nat)
    (searched : Searched address good anchor f) (lo : f.lo ≤ maxProbeIndex) (hi : high ≤ maxProbeIndex)
    (missed : Missed f high) (upright : AllOrdered f ↔ f.lo ≤ high) (enough : high < fuel + f.lo) (pos : 0 < fuel)
    (kind : env.All (good ·.answer)) :
    ∃ f' env', narrow false address fuel f.lo high f env = (.ok f', env') ∧ Searched address good anchor f' ∧
      (AllOrdered f' → narrow true address fuel f.lo high f env = (.ok f', env') ∧
        ∃ end_, end_ ≤ f'.lo + 1 ∧ Missed f' end_) ∧
      (¬ AllOrdered f' → (narrow true address fuel f.lo high f env).1 = .error .overflow) := by
  have top : maxProbeIndex + 1 < 2 ^ 64 := by simp [maxProbeIndex]
  induction fuel generalizing f high env with
  | zero => cases pos
  | succ fuel ih =>
    obtain ⟨candidates, chosen, inside, some_, none_⟩ := bracketCandidates_spec lo hi
    by_cases order : f.lo ≤ high
    · have gap : ∀ checks, u64 checks ((high : Int) - f.lo) = .ok (high - f.lo) := fun _ => u64_nat (by omega) (by omega)
      by_cases wide : 1 < high - f.lo
      · have some_ := some_ (by omega)
        obtain ⟨b, env', probed, kind', spans, asked, said⟩ := probeRound_spec answers
          (fun i member => by have := (inside i member).2; omega) f.lo high kind
        have within : ∀ p ∈ b.asked, f.lo < p.1 ∧ p.1 < high := fun p member =>
          inside _ (asked.subset (List.mem_map_of_mem member))
        have progress : ¬(b.low = f.lo ∧ b.high = high) := by
          obtain ⟨i, member⟩ := List.exists_mem_of_ne_nil _ some_
          obtain ⟨⟨_, seen⟩, here, rfl⟩ := List.mem_map.mp (asked.symm.subset member)
          have strict := within _ here
          cases seen with
          | some chunk =>
            have := spans.present _ _ here
            omega
          | none =>
            have := spans.absent _ here
            omega
        have low : b.low ≤ maxProbeIndex := by
          rcases spans.found with ⟨-, same⟩ | ⟨chunk, -, found⟩
          · omega
          · have := (within _ found).2
            omega
        have next := searched.after spans said
        have missed : Missed (f.after b) b.high := by
          rcases spans.missed with same | now
          · obtain ⟨round, member, here⟩ := missed
            exact ⟨round, List.mem_append_left _ member, same ▸ here⟩
          · exact ⟨b.asked, by simp [Found.after], now⟩
        have upright := (allOrdered_after b (upright.mpr order)).trans (spans.upright within (by omega)).symm
        have low_le := spans.low_le
        have le_high := spans.le_high
        obtain ⟨f', env'', rest⟩ := @ih { f.after b with hi := f.hi } b.high env'
          ⟨next.anchored, next.held, next.said⟩ low (by omega) missed upright
          (by change b.high < fuel + b.low; omega) (by omega) kind'
        have step : ∀ checks, narrow checks address (fuel + 1) f.lo high f env =
            narrow checks address fuel b.low b.high { f.after b with hi := f.hi } env' := fun checks =>
          narrow_round (gap checks) wide (chosen checks) some_ probed rfl spans progress
        refine ⟨f', env'', ?_⟩
        rw [step, step]
        exact rest
      · have done : ∀ checks, narrow checks address (fuel + 1) f.lo high f env = (.ok f, env) := fun checks => by
          rw [narrow, gap checks]
          exact if_neg wide
        exact ⟨f, env, done false, searched, fun _ => ⟨done true, high, by omega, missed⟩,
          fun not_ => absurd (upright.mpr order) not_⟩
    · have overflow : u64 true ((high : Int) - f.lo) = .error .overflow := by
        rw [u64, if_neg (by omega)]
        rfl
      -- the wrapped difference is large, but nothing lies between
      have wrapped : u64 false ((high : Int) - f.lo) = .ok (2 ^ 64 + high - f.lo) := by
        rw [u64, if_neg (by omega), if_neg (by decide)]
        congr 1
        omega
      refine ⟨f, env, ?_, searched, fun ordered => absurd (upright.mp ordered) order, fun _ => ?_⟩
      · rw [narrow, wrapped]
        dsimp only
        rw [if_pos (by omega), chosen]
        exact if_pos (none_ (by omega))
      · rw [narrow, overflow]

end

end Hoverfly.Feed
