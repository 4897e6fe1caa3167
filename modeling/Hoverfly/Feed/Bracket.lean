import Hoverfly.Feed.Search
import Mathlib.Algebra.Order.Floor.Div

/-! The candidates of a bracket: where they lie, and how far apart. -/
namespace Hoverfly.Feed
open Lib

section
variable {checks : Bool} {low high k : Nat}

theorem u64_nat {n : Nat} {exact_ : Int} (same : exact_ = n) (fits : n < 2 ^ 64) : u64 checks exact_ = .ok n := by
  unfold u64
  rw [if_pos (by omega), same, Int.toNat_natCast]

def spread (low span probes j : Nat) : Nat := low + span * j / (probes + 1) + 1

def spreads (low span probes n : Nat) : List Nat := (List.range' 1 n).map (spread low span probes)

variable {span probes j : Nat}

theorem spreads_succ (n : Nat) : spreads low span probes (n + 1) = spreads low span probes n ++ [spread low span probes (n + 1)] := by
  unfold spreads
  rw [List.range'_1_concat, List.map_append, List.map_singleton, Nat.add_comm 1 n]

theorem share_le (le : j ≤ probes + 1) : span * j / (probes + 1) ≤ span := by
  rw [Nat.div_le_iff_le_mul_add_pred (by omega)]
  have := Nat.mul_le_mul_left span le
  rw [Nat.mul_comm span (probes + 1)] at this
  omega

theorem share_lt (pos : 0 < span) (le : j ≤ probes) : span * j / (probes + 1) < span := by
  rw [Nat.div_lt_iff_lt_mul (by omega)]
  exact Nat.mul_lt_mul_of_pos_left (by omega) pos

theorem spread_inside (wide : low + span + 1 = high) (pos : 0 < span) (le : j ≤ probes) :
    low < spread low span probes j ∧ spread low span probes j < high := by
  have share : span * j / (probes + 1) < span := share_lt pos le
  unfold spread
  generalize span * j / (probes + 1) = q at share
  omega

theorem spread_lt (few : probes ≤ span) (pos : 0 < j) (le : j ≤ probes) :
    spread low span probes j < spread low span probes (j + 1) := by
  have parts : 0 < probes + 1 := by omega
  have apart : span * j / (probes + 1) < span * (j + 1) / (probes + 1) := by
    rcases few.eq_or_lt with same | more
    · -- every index inside is a candidate, and the shares are 0, 1, 2, …
      subst same
      have shares : ∀ i ≤ probes, probes * (i + 1) / (probes + 1) = i := by
        intro i inside
        rw [Nat.div_eq_iff parts, Nat.mul_succ, Nat.mul_succ, Nat.mul_comm probes i]
        omega
      obtain ⟨i, rfl⟩ : ∃ i, j = i + 1 := ⟨j - 1, by omega⟩
      rw [shares i (by omega), shares (i + 1) le]
      exact Nat.lt_succ_self i
    · calc span * j / (probes + 1) < span * j / (probes + 1) + 1 := Nat.lt_succ_self _
        _ = (span * j + (probes + 1)) / (probes + 1) := (Nat.add_div_right _ parts).symm
        _ ≤ span * (j + 1) / (probes + 1) := Nat.div_le_div_right (by rw [Nat.mul_succ]; omega)
  unfold spread
  omega

theorem share_step : span * (j + 1) / (probes + 1) ≤ span * j / (probes + 1) + span / (probes + 1) + 1 := by
  rw [Nat.mul_succ]
  have split := Nat.add_div (a := span * j) (b := span) (show 0 < probes + 1 by omega)
  split_ifs at split <;> omega

theorem width_ceilDiv (wide : low + span + 1 = high) :
    (high - low) ⌈/⌉ (probes + 1) = span / (probes + 1) + 1 := by
  rw [Nat.ceilDiv_eq_add_pred_div]
  have : high - low + (probes + 1) - 1 = span + (probes + 1) := by omega
  rw [this, Nat.add_div_right _ (by omega)]

theorem spread_last (wide : low + span + 1 = high) : spread low span probes (probes + 1) = high := by
  rw [spread, Nat.mul_div_cancel _ (by omega)]
  exact wide

theorem spread_chain (few : probes ≤ span) (wide : low + span + 1 = high) :
    (low :: spreads low span probes probes ++ [high]).IsChain
      fun a b => a < b ∧ b - a ≤ (high - low) ⌈/⌉ (probes + 1) := by
  have ends : low :: spreads low span probes probes ++ [high] = low :: spreads low span probes (probes + 1) := by
    rw [spreads_succ, spread_last wide]
    rfl
  rw [ends, width_ceilDiv wide, spreads, List.isChain_iff_getElem]
  intro i inside
  rw [List.length_cons, List.length_map, List.length_range'] at inside
  cases i with
  | zero =>
    simp only [List.getElem_cons_zero, List.getElem_cons_succ, List.getElem_map, List.getElem_range', spread,
      Nat.mul_zero, Nat.add_zero, Nat.mul_one]
    generalize span / (probes + 1) = share
    omega
  | succ i =>
    simp only [List.getElem_cons_succ, List.getElem_map, List.getElem_range', Nat.one_mul]
    have up := @spread_lt low span probes (1 + i) few (by omega) (by omega)
    have step := @share_step span probes (1 + i)
    rw [← Nat.add_assoc]
    refine ⟨up, ?_⟩
    unfold spread
    generalize span * (1 + i) / (probes + 1) = here at step ⊢
    generalize span * (1 + i + 1) / (probes + 1) = next at step ⊢
    generalize span / (probes + 1) = each at step ⊢
    omega

theorem bracketIndex_eq (room : span * j < 2 ^ 64) (le : j ≤ probes) (few : probes ≤ span) (wide : low + span + 1 = high)
    (fits : high < 2 ^ 64) : bracketIndex checks low span probes j = .ok (spread low span probes j) := by
  have share : span * j / (probes + 1) ≤ span := share_le (by omega)
  have scale : u64 checks ((span : Int) * j) = .ok (span * j) := u64_nat (by rw [Int.natCast_mul]) room
  have parts : u64 checks ((probes : Int) + 1) = .ok (probes + 1) := u64_nat (by simp) (by omega)
  have base : u64 checks ((low : Int) + (span * j / (probes + 1) : Nat)) = .ok (low + span * j / (probes + 1)) :=
    u64_nat (by rw [Int.natCast_add]) (by omega)
  have next : u64 checks (((low + span * j / (probes + 1) : Nat) : Int) + 1) = .ok (spread low span probes j) :=
    u64_nat (by rw [spread, Int.natCast_add _ 1]; rfl) (by unfold spread; omega)
  simp only [bracketIndex, scale, bind, Except.bind, parts, base, next]

theorem bracketLoop_eq (few : probes ≤ span) (pos : 0 < span) (wide : low + span + 1 = high) (fits : high < 2 ^ 64)
    (room : span * probes < 2 ^ 64) (n i : Nat) (le : i + n ≤ probes) :
    bracketLoop checks low high span probes (List.range' (i + 1) n) (spreads low span probes i) =
      .ok (spreads low span probes (i + n)) := by
  induction n generalizing i with
  | zero => rfl
  | succ n ih =>
    have index : bracketIndex checks low span probes (i + 1) = .ok (spread low span probes (i + 1)) :=
      bracketIndex_eq ((Nat.mul_le_mul_left span (by omega)).trans_lt room) (by omega) few wide fits
    obtain ⟨above, beneath⟩ := @spread_inside low high span probes (i + 1) wide pos (by omega)
    have last : (spreads low span probes i).getLast? ≠ some (spread low span probes (i + 1)) := by
      cases i with
      | zero => exact nofun
      | succ i =>
        have up := @spread_lt low span probes (i + 1) few (by omega) (by omega)
        rw [spreads_succ, List.getLast?_concat]
        exact fun same => up.ne (Option.some.inj same)
    rw [List.range'_succ, bracketLoop, index]
    dsimp only [bind, Except.bind]
    rw [if_pos ⟨above, beneath, last⟩, ← spreads_succ, ih (i + 1) (by omega), Nat.add_assoc, Nat.add_comm 1 n]

theorem bracketCandidates_nil (closed : high ≤ low + 1) (fits : low + 1 < 2 ^ 64) :
    bracketCandidates checks low high k = .ok [] := by
  have next : u64 checks ((low : Int) + 1) = .ok (low + 1) := u64_nat (by simp) fits
  simp only [bracketCandidates, next, bind, Except.bind, if_pos closed]

theorem bracketCandidates_eq (wide : low + span + 1 = high) (fits : high < 2 ^ 64)
    (room : span * min k span < 2 ^ 64) :
    bracketCandidates checks low high k = .ok (spreads low span (min k span) (min k span)) := by
  cases span with
  | zero =>
    rw [Nat.min_zero]
    exact bracketCandidates_nil (by omega) (by omega)
  | succ span =>
    have next : u64 checks ((low : Int) + 1) = .ok (low + 1) := u64_nat (by simp) (by omega)
    have gap : u64 checks ((high : Int) - low) = .ok (span + 1 + 1) := u64_nat (by omega) (by omega)
    have inside : u64 checks (((span + 1 + 1 : Nat) : Int) - 1) = .ok (span + 1) := u64_nat (by omega) (by omega)
    simp only [bracketCandidates, next, bind, Except.bind, if_neg (show ¬ high ≤ low + 1 by omega), gap, inside]
    have looped := @bracketLoop_eq checks low high (span + 1) _ (Nat.min_le_right k _) (by omega) wide fits room
      (min k (span + 1)) 0 (by omega)
    rw [Nat.zero_add (min k (span + 1))] at looped
    exact looped

end

theorem chain_gap {l : List Nat} {g a b : Nat} (chain : l.IsChain fun x y => x < y ∧ y - x ≤ g) (fst : a ∈ l) (snd : b ∈ l)
    (free : ∀ c ∈ l, c ≤ a ∨ b ≤ c) : b - a ≤ g := by
  induction l with
  | nil => cases fst
  | cons x rest ih =>
    have above : ∀ c ∈ rest, x < c := by
      have sorted : (x :: rest).IsChain (· < ·) := chain.imp fun _ _ => And.left
      exact (List.pairwise_cons.mp sorted.pairwise).1
    rcases List.mem_cons.mp fst with rfl | fst'
    · rcases List.mem_cons.mp snd with rfl | snd'
      · omega
      · cases rest with
        | nil => cases snd'
        | cons y rest =>
          have near := (List.isChain_cons_cons.mp chain).1
          have := free y (by simp)
          omega
    · rcases List.mem_cons.mp snd with rfl | snd'
      · have := above a fst'
        omega
      · exact ih chain.tail fst' snd' fun c member => free c (List.mem_cons_of_mem _ member)

end Hoverfly.Feed
