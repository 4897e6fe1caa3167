import Hoverfly.Lib.Robin
import Hoverfly.Lib.Word

/-! The order in which a pool dials its candidates: one bucket of the address space after another. -/
namespace Hoverfly.Peers
open Lib

/-- A tuple of `open_session_pool_into`. The underlay's type is that of the transport. -/
structure Candidate (M : Type) where
  overlay : Bytes 32
  name : String
  underlay : M
  rank : UInt8
  rttMs : UInt32

variable {M : Type}

namespace Candidate

def bucket (p : Candidate M) : Nat := (p.overlay.val.headD 0).toNat

/-- The comparison of the sort is not `Greater`: the later of two is to be taken first. -/
def worseFirst (a c : Candidate M) : Bool :=
  ((compare c.rank a.rank).then (compare c.rttMs a.rttMs)).isLE

def Before (a b : Candidate M) : Prop := a.rank < b.rank ∨ a.rank = b.rank ∧ a.rttMs ≤ b.rttMs

theorem worseFirst_iff {a c : Candidate M} : worseFirst a c = true ↔ Before c a := by
  rw [worseFirst, Ordering.isLE_then_iff_or, Std.compare_eq_lt, Std.compare_eq_iff_eq,
    Std.LawfulOrderOrd.isLE_compare, Before]

theorem bucket_lt (p : Candidate M) : p.bucket < 256 := UInt8.toNat_lt _

end Candidate

def intoBuckets (peers : List (Candidate M)) : List (List (Candidate M)) :=
  peers.foldl (fun buckets p => buckets.modify p.bucket (· ++ [p])) (List.replicate 256 [])

/-- One pass over the buckets. There is no result if the count of non-empty ones would go below zero. -/
def round : List (List (Candidate M)) → (peers : List (Candidate M)) → (nonempty : Nat) →
    Option (List (List (Candidate M)) × List (Candidate M) × Nat)
  | [], peers, nonempty => some ([], peers, nonempty)
  | b :: rest, peers, nonempty =>
    match b.getLast? with
    | none => (round rest peers nonempty).map fun r => (b :: r.1, r.2)
    | some p =>
      if b.dropLast.isEmpty then
        if nonempty = 0 then none
        else (round rest (peers ++ [p]) (nonempty - 1)).map fun r => (b.dropLast :: r.1, r.2)
      else (round rest (peers ++ [p]) nonempty).map fun r => (b.dropLast :: r.1, r.2)

def rounds : (fuel : Nat) → List (List (Candidate M)) → (peers : List (Candidate M)) → (nonempty : Nat) →
    Option (List (Candidate M))
  | 0, _, peers, nonempty => if nonempty > 0 then none else some peers
  | fuel + 1, buckets, peers, nonempty =>
    if nonempty > 0 then (round buckets peers nonempty).bind fun r => rounds fuel r.1 r.2.1 r.2.2 else some peers

def spreadAcrossAddressSpace (fuel : Nat) (peers : List (Candidate M)) : Option (List (Candidate M)) :=
  let buckets := (intoBuckets peers).map (·.mergeSort Candidate.worseFirst)
  rounds fuel buckets [] (buckets.countP (!·.isEmpty))

theorem intoBuckets_eq (peers : List (Candidate M)) :
    intoBuckets peers = (List.range 256).map fun k => peers.filter (·.bucket = k) := by
  induction peers using List.reverseRecOn with
  | nil =>
    change List.replicate 256 [] = (List.range 256).map fun _ => []
    rw [List.map_const', List.length_range]
  | append_singleton peers p ih =>
    rw [intoBuckets, List.foldl_append, ← intoBuckets, ih]
    refine List.ext_getElem? fun k => ?_
    rw [List.foldl_cons, List.foldl_nil, List.getElem?_modify, List.getElem?_map, List.getElem?_map]
    by_cases inside : k < 256
    · by_cases here : p.bucket = k <;> simp [List.getElem?_range inside, here]
    · rw [List.getElem?_eq_none (by simpa using inside)]
      rfl

theorem round_eq (buckets : List (List (Candidate M))) (peers : List (Candidate M)) (others : Nat) :
    round buckets peers (buckets.countP (!·.isEmpty) + others) =
      some (buckets.map List.dropLast, peers ++ buckets.filterMap List.getLast?,
        (buckets.map List.dropLast).countP (!·.isEmpty) + others) := by
  induction buckets generalizing peers others with
  | nil => simp [round]
  | cons b rest ih =>
    rcases List.eq_nil_or_concat b with rfl | ⟨xs, p, rfl⟩
    · simp [round, ih, List.filterMap_cons]
    · by_cases alone : xs = []
      · have less : rest.countP (!·.isEmpty) + 1 + others - 1 = rest.countP (!·.isEmpty) + others := by omega
        simp [round, alone, less, ih]
      · have more : rest.countP (!·.isEmpty) + 1 + others = rest.countP (!·.isEmpty) + (others + 1) := by omega
        simp [round, alone, more, ih]
        omega

theorem rounds_eq {ks : List Nat} {f : Nat → List (Candidate M)} {fuel : Nat}
    (enough : ∀ k ∈ ks, (f k).length ≤ fuel) (peers : List (Candidate M)) :
    rounds fuel (ks.map f) peers ((ks.map f).countP (!·.isEmpty)) = some (peers ++ robin ks fuel f) := by
  induction fuel generalizing f peers with
  | zero =>
    have none_ : (ks.map f).countP (!·.isEmpty) = 0 := by simpa using enough
    rw [none_]
    simp [rounds, robin]
  | succ fuel ih =>
    by_cases some_ : (ks.map f).countP (!·.isEmpty) > 0
    · have fewer : ∀ k ∈ ks, (f k).dropLast.length ≤ fuel := fun k member => by
        rw [List.length_dropLast]
        exact Nat.sub_le_of_le_add (enough k member)
      have next := ih fewer (peers ++ tops ks f)
      have step := round_eq (ks.map f) peers 0
      rw [List.map_map, List.filterMap_map, Nat.add_zero, Nat.add_zero] at step
      rw [rounds, if_pos some_, step, robin, ← List.append_assoc, ← next]
      rfl
    · have none_ : ∀ k ∈ ks, f k = [] := by simpa using some_
      rw [rounds, if_neg some_, robin_nil none_, List.append_nil]

section Spread

variable (peers : List (Candidate M))

def sorted (k : Nat) : List (Candidate M) := (peers.filter (·.bucket = k)).mergeSort Candidate.worseFirst

theorem length_sorted (k : Nat) : (sorted peers k).length = peers.countP (·.bucket = k) := by
  rw [sorted, List.length_mergeSort, List.countP_eq_length_filter]

theorem keyed_sorted : Keyed Candidate.bucket (sorted peers) := by
  intro k p member
  simpa using (List.mem_filter.mp ((List.mergeSort_perm ..).mem_iff.mp member)).2

theorem spread_eq (spare : Nat) : spreadAcrossAddressSpace (peers.length + spare) peers =
    some (robin (List.range 256) peers.length (sorted peers)) := by
  have few : ∀ k ∈ List.range 256, (sorted peers k).length ≤ peers.length := fun k _ => by
    rw [length_sorted]
    exact List.countP_le_length
  have buckets :
      (intoBuckets peers).map (·.mergeSort Candidate.worseFirst) = (List.range 256).map (sorted peers) := by
    rw [intoBuckets_eq, List.map_map]
    rfl
  unfold spreadAcrossAddressSpace
  dsimp only
  rw [buckets, rounds_eq (fun k member => (few k member).trans (Nat.le_add_right ..)), robin_add few, List.nil_append]

theorem pairwise_sorted (k : Nat) : (sorted peers k).reverse.Pairwise Candidate.Before := by
  rw [List.pairwise_reverse]
  refine (List.pairwise_mergeSort ?_ ?_ _).imp Candidate.worseFirst_iff.mp
  · intro a b c
    simp only [Candidate.worseFirst_iff, Candidate.Before]
    grind
  · intro a b
    simp only [Bool.or_eq_true, Candidate.worseFirst_iff, Candidate.Before]
    grind

theorem filter_spread {k : Nat} (inside : k < 256) :
    (robin (List.range 256) peers.length (sorted peers)).filter (·.bucket = k) = (sorted peers k).reverse :=
  filter_robin (keyed_sorted peers) List.nodup_range (List.mem_range.mpr inside)
    (length_sorted peers k ▸ List.countP_le_length)

theorem spread_perm : (robin (List.range 256) peers.length (sorted peers)).Perm peers := by
  classical
  refine List.perm_iff_count.mpr fun p => ?_
  have mine (out : List (Candidate M)) : (out.filter (·.bucket = p.bucket)).count p = out.count p :=
    List.count_filter (decide_eq_true rfl)
  calc (robin (List.range 256) peers.length (sorted peers)).count p
      = ((robin (List.range 256) peers.length (sorted peers)).filter (·.bucket = p.bucket)).count p :=
        (mine _).symm
    _ = (sorted peers p.bucket).reverse.count p := by rw [filter_spread peers p.bucket_lt]
    _ = (peers.filter (·.bucket = p.bucket)).count p := by
        rw [List.count_reverse]
        exact (List.mergeSort_perm ..).count_eq p
    _ = peers.count p := mine peers

end Spread

/-- With as many rounds as there are peers the loop has ended. Nobody is lost or taken twice, no bucket
gets ahead of one that still has peers by more than a turn, and each gives its best first. -/
theorem spread_fair (peers : List (Candidate M)) :
    ∃ out, (∀ spare, spreadAcrossAddressSpace (peers.length + spare) peers = some out) ∧ out.Perm peers ∧
      (∀ pre, pre <+: out → ∀ i j : Nat,
        pre.countP (·.bucket = j) < peers.countP (·.bucket = j) →
          pre.countP (·.bucket = i) ≤ pre.countP (·.bucket = j) + 1) ∧
      ∀ k, (out.filter (·.bucket = k)).Pairwise Candidate.Before := by
  refine ⟨_, spread_eq peers, spread_perm peers, fun pre start i j left => ?_, fun k => ?_⟩
  · obtain ⟨p, -, here⟩ := List.countP_pos_iff.mp (Nat.zero_lt_of_lt left)
    have inside : j < 256 := of_decide_eq_true here ▸ p.bucket_lt
    rw [← length_sorted peers] at left
    rw [List.prefix_iff_eq_take.mp start] at left ⊢
    exact robin_fair (keyed_sorted peers) List.nodup_range i (List.mem_range.mpr inside) _ left
  · by_cases inside : k < 256
    · rw [filter_spread peers inside]
      exact pairwise_sorted peers k
    · have outside (p : Candidate M) : p.bucket ≠ k := fun here => inside (here ▸ p.bucket_lt)
      simp [outside]

end Hoverfly.Peers
