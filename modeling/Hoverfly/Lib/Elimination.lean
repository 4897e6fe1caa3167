import Mathlib.LinearAlgebra.Matrix.NonsingularInverse
import Mathlib.LinearAlgebra.Matrix.Transvection
import Mathlib.Order.Interval.Finset.Fin
import Hoverfly.Lib.Fold

/-! Inversion of a square matrix over a field by elimination: a pass that swaps in a
pivot, scales it to one and clears below it, and a pass that clears above. -/
namespace Hoverfly.Lib.Elimination

variable {K : Type*} [Field K]

abbrev Grid (K : Type*) := List (List K)

def entry (w : Grid K) (i j : Nat) : K := (w.getD i []).getD j 0

def swapRows (w : Grid K) (i j : Nat) : Grid K := (w.set i (w.getD j [])).set j (w.getD i [])

def scaleRow (w : Grid K) (i : Nat) (c : K) : Grid K := w.set i ((w.getD i []).map (· * c))

def subRow (w : Grid K) (i r : Nat) (c : K) : Grid K :=
  w.set i (List.zipWith (fun x y => x - c * y) (w.getD i []) (w.getD r []))

structure Shaped (n m : Nat) (w : Grid K) : Prop where
  rows : w.length = n
  cols : ∀ i < n, (w.getD i []).length = m

namespace Shaped

variable {n m : Nat} {w : Grid K} {i : Nat}

omit [Field K] in
theorem set (h : Shaped n m w) (lt : i < n) {row : List K} (length : row.length = m) :
    Shaped n m (w.set i row) := by
  refine ⟨by rw [List.length_set, h.rows], fun a ha => ?_⟩
  rw [getD_set w i a row [] (h.rows ▸ lt)]
  split
  · exact length
  · exact h.cols a ha

omit [Field K] in
theorem swapRows (h : Shaped n m w) {j : Nat} (hi : i < n) (hj : j < n) :
    Shaped n m (swapRows w i j) :=
  (h.set hi (h.cols j hj)).set hj (h.cols i hi)

theorem scaleRow (h : Shaped n m w) (hi : i < n) (c : K) : Shaped n m (scaleRow w i c) :=
  h.set hi (by rw [List.length_map, h.cols i hi])

theorem subRow (h : Shaped n m w) {r : Nat} (hi : i < n) (hr : r < n) (c : K) :
    Shaped n m (subRow w i r c) :=
  h.set hi (by rw [List.length_zipWith, h.cols i hi, h.cols r hr, Nat.min_self])

theorem entry_swapRows (h : Shaped n m w) {j : Nat} (hi : i < n) (hj : j < n) (a b : Nat) :
    entry (Elimination.swapRows w i j) a b =
      if a = j then entry w i b else if a = i then entry w j b else entry w a b := by
  unfold Elimination.swapRows entry
  rw [getD_set _ _ _ _ _ (by rw [List.length_set, h.rows]; exact hj), getD_set _ _ _ _ _ (h.rows ▸ hi)]
  simp only [eq_comm]
  split
  · rfl
  · split <;> rfl

theorem entry_scaleRow (h : Shaped n m w) (hi : i < n) (c : K) (a b : Nat) :
    entry (Elimination.scaleRow w i c) a b = if a = i then entry w i b * c else entry w a b := by
  unfold Elimination.scaleRow entry
  rw [getD_set _ _ _ _ _ (h.rows ▸ hi)]
  simp only [eq_comm]
  split
  · simp only [List.getD_eq_getElem?_getD, List.getElem?_map]
    cases (w[i]?.getD [])[b]? <;> simp
  · rfl

theorem entry_subRow (h : Shaped n m w) {r : Nat} (hi : i < n) (hr : r < n) (c : K) (a b : Nat) :
    entry (Elimination.subRow w i r c) a b =
      if a = i then entry w i b - c * entry w r b else entry w a b := by
  unfold Elimination.subRow entry
  rw [getD_set _ _ _ _ _ (h.rows ▸ hi)]
  simp only [eq_comm]
  split
  · have left := h.cols i hi
    have right := h.cols r hr
    generalize w.getD i [] = x at left
    generalize w.getD r [] = y at right
    simp only [List.getD_eq_getElem?_getD, List.getElem?_zipWith]
    by_cases inside : b < m
    · rw [List.getElem?_eq_getElem (left ▸ inside), List.getElem?_eq_getElem (right ▸ inside)]
      rfl
    · rw [List.getElem?_eq_none (by omega), List.getElem?_eq_none (by omega)]
      simp
  · rfl

end Shaped

def grid (n : Nat) (w : Grid K) : Matrix (Fin n) Nat K := fun i j => entry w i j

def left (n : Nat) (w : Grid K) : Matrix (Fin n) (Fin n) K := fun i j => entry w i j

def right (n : Nat) (w : Grid K) : Matrix (Fin n) (Fin n) K := fun i j => entry w i (n + j)

/-- The two halves of a grid under row operations that began at `M` beside the identity. -/
structure Tracks {n : Nat} (M : Matrix (Fin n) (Fin n) K) (w : Grid K) : Prop where
  shaped : Shaped n (2 * n) w
  product : left n w = right n w * M
  regular : (right n w).det ≠ 0

namespace Tracks

variable {n : Nat} {M : Matrix (Fin n) (Fin n) K} {w v : Grid K}

theorem mul (h : Tracks M w) (E : Matrix (Fin n) (Fin n) K) (regular : E.det ≠ 0)
    (shaped : Shaped n (2 * n) v)
    (factor : grid n v = E * grid n w) : Tracks M v := by
  have onLeft : left n v = E * left n w := by
    ext i j
    exact congrFun (congrFun factor i) j
  have onRight : right n v = E * right n w := by
    ext i j
    exact congrFun (congrFun factor i) (n + j)
  refine ⟨shaped, ?_, ?_⟩
  · rw [onLeft, onRight, h.product, Matrix.mul_assoc]
  · rw [onRight, Matrix.det_mul]
    exact mul_ne_zero regular h.regular

theorem swapRows (h : Tracks M w) {i j : Nat} (hi : i < n) (hj : j < n) :
    Tracks M (swapRows w i j) := by
  let σ : Equiv.Perm (Fin n) := Equiv.swap ⟨i, hi⟩ ⟨j, hj⟩
  have swapped : ∀ (a : Fin n) (b : Nat), entry (Elimination.swapRows w i j) a b = entry w (σ a) b := by
    intro a b
    rw [h.shaped.entry_swapRows hi hj]
    by_cases atJ : a = ⟨j, hj⟩
    · subst atJ
      simp [σ]
    · by_cases atI : a = ⟨i, hi⟩
      · subst atI
        simp only [σ, Equiv.swap_apply_left, if_true]
        split
        · rename_i same
          rw [same]
        · rfl
      · have kept : σ a = a := Equiv.swap_apply_of_ne_of_ne atI atJ
        rw [if_neg (fun same => atJ (Fin.ext same)), if_neg (fun same => atI (Fin.ext same)), kept]
  have onLeft : left n (Elimination.swapRows w i j) = (left n w).submatrix σ id := by
    ext a b
    exact swapped a b
  have onRight : right n (Elimination.swapRows w i j) = (right n w).submatrix σ id := by
    ext a b
    exact swapped a (n + b)
  refine ⟨h.shaped.swapRows hi hj, ?_, ?_⟩
  · rw [onLeft, onRight, h.product]
    rfl
  · rw [onRight, Matrix.det_permute]
    rcases Int.units_eq_one_or (Equiv.Perm.sign σ) with sign | sign
    · simpa [sign] using h.regular
    · simpa [sign] using h.regular

theorem scaleRow (h : Tracks M w) {i : Nat} (hi : i < n) {c : K} (nonzero : c ≠ 0) :
    Tracks M (scaleRow w i c) := by
  refine h.mul (Matrix.diagonal fun k => if k.val = i then c else 1) ?_ (h.shaped.scaleRow hi c) ?_
  · rw [Matrix.det_diagonal, Finset.prod_ne_zero_iff]
    intro k _
    split
    · exact nonzero
    · exact one_ne_zero
  · ext a b
    rw [Matrix.diagonal_mul]
    dsimp only [grid]
    rw [h.shaped.entry_scaleRow hi]
    split
    · rename_i same
      rw [same, mul_comm]
    · rw [one_mul]

theorem subRow (h : Tracks M w) {i r : Nat} (hi : i < n) (hr : r < n) (apart : i ≠ r) (c : K) :
    Tracks M (subRow w i r c) := by
  have distinct : (⟨i, hi⟩ : Fin n) ≠ ⟨r, hr⟩ := fun same => apart (congrArg Fin.val same)
  refine h.mul (Matrix.transvection ⟨i, hi⟩ ⟨r, hr⟩ (-c)) ?_ (h.shaped.subRow hi hr c) ?_
  · rw [Matrix.det_transvection_of_ne _ _ distinct]
    exact one_ne_zero
  · ext a b
    dsimp only [grid]
    rw [h.shaped.entry_subRow hi hr]
    split
    · rename_i same
      obtain rfl : a = ⟨i, hi⟩ := Fin.ext same
      rw [Matrix.transvection_mul_apply_same, neg_mul, sub_eq_add_neg]
      rfl
    · rename_i other
      rw [Matrix.transvection_mul_apply_of_ne _ _ _ _ (fun same => other (congrArg Fin.val same))]
      rfl

theorem inverse (h : Tracks M w) (done : left n w = 1) : right n w * M = 1 := by
  rw [← h.product, done]

theorem singular (h : Tracks M w) (zero : (left n w).det = 0) : M.det = 0 := by
  rw [h.product, Matrix.det_mul] at zero
  exact (mul_eq_zero.mp zero).resolve_left h.regular

end Tracks

theorem det_eq_zero_of_stair {n : Nat} (A : Matrix (Fin n) (Fin n) K) (r : Fin n)
    (below : ∀ i j : Fin n, j < r → j < i → A i j = 0) (empty : ∀ i : Fin n, r ≤ i → A i r = 0) :
    A.det = 0 := by
  rw [Matrix.det_apply]
  apply Finset.sum_eq_zero
  intro σ _
  suffices zero : ∃ j, A (σ j) j = 0 by
    obtain ⟨j, zero⟩ := zero
    have product : ∏ i, A (σ i) i = 0 := Finset.prod_eq_zero (Finset.mem_univ j) zero
    rw [product, smul_zero]
  by_contra none_
  -- otherwise the permutation takes the first `r + 1` columns to the first `r` rows
  have into : ∀ j ∈ Finset.Iic r, σ j ∈ Finset.Iio r := by
    intro j member
    rw [Finset.mem_Iio]
    by_contra high
    rcases (Finset.mem_Iic.mp member).lt_or_eq with before | same
    · exact none_ ⟨j, below (σ j) j before (before.trans_le (not_lt.mp high))⟩
    · subst same
      exact none_ ⟨j, empty (σ j) (not_lt.mp high)⟩
  obtain ⟨a, _, b, _, apart, same⟩ := Finset.exists_ne_map_eq_of_card_lt_of_maps_to
    (by rw [Fin.card_Iio, Fin.card_Iic]; omega) into
  exact apart (σ.injective same)

variable [DecidableEq K]

def pivot (w : Grid K) (r : Nat) : Grid K :=
  if entry w r r = 0 then
    match (List.range' (r + 1) (w.length - (r + 1))).find? (fun i => entry w i r ≠ 0) with
    | some i => swapRows w r i
    | none => w
  else w

def normalize (w : Grid K) (r : Nat) : Grid K :=
  if entry w r r ≠ 1 then scaleRow w r (entry w r r)⁻¹ else w

def clear (r : Nat) (w : Grid K) (i : Nat) : Grid K :=
  if entry w i r ≠ 0 then subRow w i r (entry w i r) else w

def forward (w : Grid K) (r : Nat) : Option (Grid K) :=
  let w := pivot w r
  if entry w r r = 0 then none
  else some ((List.range' (r + 1) (w.length - (r + 1))).foldl (clear r) (normalize w r))

def backward (w : Grid K) (d : Nat) : Grid K := (List.range d).foldl (clear d) w

def eliminate (w : Grid K) : Option (Grid K) :=
  ((List.range w.length).foldlM forward w).map fun v => (List.range w.length).foldl backward v

section Steps

variable {n : Nat} {M : Matrix (Fin n) (Fin n) K} {w : Grid K} {r : Nat}

theorem Tracks.clear (h : Tracks M w) {i : Nat} (hi : i < n) (hr : r < n) (apart : i ≠ r) :
    Tracks M (clear r w i) := by
  unfold Elimination.clear
  split
  · exact h.subRow hi hr apart _
  · exact h

theorem entry_clear (h : Tracks M w) {i : Nat} (hi : i < n) (hr : r < n) (a b : Nat) :
    entry (clear r w i) a b =
      if a = i then entry w i b - entry w i r * entry w r b else entry w a b := by
  unfold clear
  split
  · exact h.shaped.entry_subRow hi hr _ a b
  · rename_i zero
    rw [not_not.mp zero, zero_mul, sub_zero]
    split
    · rename_i same
      rw [same]
    · rfl

theorem clearAll (h : Tracks M w) (hr : r < n) (rows : List Nat) (nodup : rows.Nodup)
    (range : ∀ i ∈ rows, i < n ∧ i ≠ r) :
    Tracks M (rows.foldl (clear r) w) ∧ ∀ a b, entry (rows.foldl (clear r) w) a b =
      if a ∈ rows then entry w a b - entry w a r * entry w r b else entry w a b := by
  induction rows generalizing w with
  | nil => exact ⟨h, by simp⟩
  | cons i rest ih =>
    obtain ⟨fresh, nodup⟩ := List.nodup_cons.mp nodup
    obtain ⟨hi, apart⟩ := range i (List.mem_cons_self ..)
    obtain ⟨tracks, entries⟩ := ih (h.clear hi hr apart) nodup
      (fun k member => range k (List.mem_cons_of_mem _ member))
    refine ⟨tracks, fun a b => (entries a b).trans ?_⟩
    simp only [entry_clear h hi hr, if_neg (Ne.symm apart), List.mem_cons]
    by_cases here : a = i
    · subst here
      simp [fresh]
    · simp [here]

structure Stair (n r : Nat) (w : Grid K) : Prop where
  below : ∀ i j, i < n → j < r → j < i → entry w i j = 0
  diagonal : ∀ j < r, entry w j j = 1

/-- A pivot is found, or the matrix is singular. -/
theorem pivot_spec (h : Tracks M w) (hr : r < n) (stair : Stair n r w) :
    Tracks M (pivot w r) ∧ Stair n r (pivot w r) ∧ (entry (pivot w r) r r = 0 → M.det = 0) := by
  unfold pivot
  split
  · rename_i zero
    split
    · rename_i i found
      have member := List.mem_of_find?_eq_some found
      have nonzero : entry w i r ≠ 0 := by simpa using List.find?_some found
      rw [List.mem_range'_1, h.shaped.rows] at member
      have hi : i < n := by omega
      have entries := h.shaped.entry_swapRows hr hi
      refine ⟨h.swapRows hr hi, ⟨fun a b ha hb less => ?_, fun b hb => ?_⟩, fun none_ => ?_⟩
      · rw [entries]
        split
        · exact stair.below r b hr hb hb
        · split
          · exact stair.below i b hi hb (by omega)
          · exact stair.below a b ha hb less
      · rw [entries, if_neg (by omega), if_neg (by omega)]
        exact stair.diagonal b hb
      · rw [entries, if_neg (by omega), if_pos rfl] at none_
        exact absurd none_ nonzero
    · rename_i none_
      refine ⟨h, stair, fun _ => h.singular ?_⟩
      apply det_eq_zero_of_stair _ ⟨r, hr⟩
      · exact fun i j before less => stair.below i j i.isLt before less
      · intro i high
        rcases (Fin.le_def.mp high).lt_or_eq with after | same
        · have all := List.find?_eq_none.mp none_ i (by
            rw [List.mem_range'_1, h.shaped.rows]
            have := i.isLt
            dsimp only at after
            omega)
          simpa [left] using all
        · dsimp only at same
          rw [left, ← same]
          exact zero
  · rename_i nonzero
    exact ⟨h, stair, fun zero => absurd zero nonzero⟩

theorem normalize_spec (h : Tracks M w) (hr : r < n) (stair : Stair n r w) (nonzero : entry w r r ≠ 0) :
    Tracks M (normalize w r) ∧ Stair n r (normalize w r) ∧ entry (normalize w r) r r = 1 := by
  unfold normalize
  split
  · have entries := h.shaped.entry_scaleRow hr (entry w r r)⁻¹
    refine ⟨h.scaleRow hr (inv_ne_zero nonzero), ⟨fun a b ha hb less => ?_, fun b hb => ?_⟩, ?_⟩
    · rw [entries]
      split
      · rw [stair.below r b hr hb hb, zero_mul]
      · exact stair.below a b ha hb less
    · rw [entries, if_neg (by omega)]
      exact stair.diagonal b hb
    · rw [entries, if_pos rfl, mul_inv_cancel₀ nonzero]
  · rename_i one
    exact ⟨h, stair, not_not.mp one⟩

theorem forward_none (h : Tracks M w) (hr : r < n) (stair : Stair n r w)
    (stuck : forward w r = none) : M.det = 0 := by
  obtain ⟨_, _, singular⟩ := pivot_spec h hr stair
  unfold forward at stuck
  dsimp only at stuck
  split at stuck
  · rename_i zero
    exact singular zero
  · cases stuck

theorem forward_some (h : Tracks M w) (hr : r < n) (stair : Stair n r w) {v : Grid K}
    (out : forward w r = some v) : Tracks M v ∧ Stair n (r + 1) v := by
  obtain ⟨tracks, stair, _⟩ := pivot_spec h hr stair
  unfold forward at out
  dsimp only at out
  split at out
  · cases out
  rename_i nonzero
  cases Option.some.inj out
  rw [tracks.shaped.rows]
  obtain ⟨tracks, stair, one⟩ := normalize_spec tracks hr stair nonzero
  obtain ⟨cleared, entries⟩ := clearAll tracks hr (List.range' (r + 1) (n - (r + 1))) List.nodup_range'
    (fun i member => by rw [List.mem_range'_1] at member; omega)
  refine ⟨cleared, ⟨fun i j hi hj less => ?_, fun j hj => ?_⟩⟩
  · rw [entries]
    rcases Nat.lt_succ_iff_lt_or_eq.mp hj with before | same
    · split
      · rw [stair.below i j hi before less, stair.below r j hr before before, mul_zero, sub_zero]
      · exact stair.below i j hi before less
    · subst same
      rw [if_pos (by rw [List.mem_range'_1]; omega), one, mul_one, sub_self]
  · rw [entries, if_neg (by rw [List.mem_range'_1]; omega)]
    rcases Nat.lt_succ_iff_lt_or_eq.mp hj with before | same
    · exact stair.diagonal j before
    · rw [same]
      exact one

theorem forwardAll (h : Tracks M w) (k : Nat) (le : k ≤ n) :
    ((List.range k).foldlM forward w = none → M.det = 0) ∧
      ∀ v, (List.range k).foldlM forward w = some v → Tracks M v ∧ Stair n k v := by
  induction k with
  | zero =>
    refine ⟨nofun, fun v out => ?_⟩
    cases Option.some.inj out
    exact ⟨h, fun _ j _ hj => absurd hj (Nat.not_lt_zero j), fun j hj => absurd hj (Nat.not_lt_zero j)⟩
  | succ k ih =>
    obtain ⟨stuck, next⟩ := ih (by omega)
    rw [List.range_succ, List.foldlM_append]
    cases so_far : (List.range k).foldlM forward w with
    | none => exact ⟨fun _ => stuck so_far, nofun⟩
    | some u =>
      obtain ⟨tracks, stair⟩ := next u so_far
      simp only [List.foldlM_cons, List.foldlM_nil, Option.bind_eq_bind, Option.bind_some]
      constructor
      · intro none_
        apply forward_none tracks (by omega) stair
        simpa using none_
      · intro v out
        apply forward_some tracks (by omega) stair
        simpa using out

structure Reduced (n d : Nat) (w : Grid K) : Prop extends Stair n n w where
  above : ∀ i j, i < j → j < d → entry w i j = 0

theorem backward_spec (h : Tracks M w) {d : Nat} (hd : d < n) (reduced : Reduced n d w) :
    Tracks M (backward w d) ∧ Reduced n (d + 1) (backward w d) := by
  obtain ⟨tracks, entries⟩ := clearAll h hd (List.range d) List.nodup_range
    (fun i member => by rw [List.mem_range] at member; omega)
  refine ⟨tracks, ⟨⟨fun i j hi hj less => ?_, fun j hj => ?_⟩, fun i j less hj => ?_⟩⟩
  all_goals
    unfold backward
    rw [entries]
  · split
    · rename_i member
      rw [List.mem_range] at member
      rw [reduced.below i j hi hj less, reduced.below d j hd hj (by omega), mul_zero, sub_zero]
    · exact reduced.below i j hi hj less
  · split
    · rename_i member
      rw [reduced.below d j hd hj (List.mem_range.mp member), mul_zero, sub_zero]
      exact reduced.diagonal j hj
    · exact reduced.diagonal j hj
  · rcases Nat.lt_succ_iff_lt_or_eq.mp hj with before | same
    · split
      · rw [reduced.below d j hd (by omega) before, mul_zero, sub_zero]
        exact reduced.above i j less before
      · exact reduced.above i j less before
    · subst same
      rw [if_pos (List.mem_range.mpr less), reduced.diagonal j hd, mul_one, sub_self]

theorem backwardAll (h : Tracks M w) (stair : Stair n n w) (k : Nat) (le : k ≤ n) :
    Tracks M ((List.range k).foldl backward w) ∧ Reduced n k ((List.range k).foldl backward w) := by
  induction k with
  | zero => exact ⟨h, stair, fun _ j _ hj => absurd hj (Nat.not_lt_zero j)⟩
  | succ k ih =>
    obtain ⟨tracks, reduced⟩ := ih (by omega)
    rw [List.range_succ, List.foldl_append]
    exact backward_spec tracks (by omega) reduced

omit [DecidableEq K] in
theorem left_eq_one (reduced : Reduced n n w) : left n w = 1 := by
  ext i j
  rw [Matrix.one_apply]
  split
  · rename_i same
    rw [same]
    exact reduced.diagonal j j.isLt
  · rename_i other
    rcases Nat.lt_or_gt_of_ne (fun same => other (Fin.ext same)) with less | more
    · exact reduced.above i j less j.isLt
    · exact reduced.below i j i.isLt j.isLt more

/-- Elimination ends at the inverse, and fails on a singular matrix only. -/
theorem eliminate_spec (h : Tracks M w) :
    (eliminate w = none → M.det = 0) ∧
      ∀ v, eliminate w = some v → Shaped n (2 * n) v ∧ right n v * M = 1 := by
  obtain ⟨stuck, next⟩ := forwardAll h n (Nat.le_refl n)
  unfold eliminate
  rw [h.shaped.rows]
  constructor
  · intro none_
    exact stuck (Option.map_eq_none_iff.mp none_)
  · intro v out
    obtain ⟨u, forwarded, rfl⟩ := Option.map_eq_some_iff.mp out
    obtain ⟨tracks, stair⟩ := next u forwarded
    obtain ⟨tracks, reduced⟩ := backwardAll tracks stair n (Nat.le_refl n)
    exact ⟨tracks.shaped, tracks.inverse (left_eq_one reduced)⟩

end Steps

end Hoverfly.Lib.Elimination
