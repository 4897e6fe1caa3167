import Mathlib.Data.List.Basic
import Mathlib.Data.List.TakeDrop

/-! Taking turns: the last of every stack that has one, round after round. -/
namespace Hoverfly.Lib

variable {A K : Type*}

def tops (ks : List K) (f : K → List A) : List A := ks.filterMap fun k => (f k).getLast?

def robin (ks : List K) : Nat → (K → List A) → List A
  | 0, _ => []
  | n + 1, f => tops ks f ++ robin ks n fun k => (f k).dropLast

def Keyed (key : A → K) (f : K → List A) : Prop := ∀ k, ∀ a ∈ f k, key a = k

variable {key : A → K} {ks : List K} {f : K → List A} {n : Nat}

theorem Keyed.dropLast (keyed : Keyed key f) : Keyed key fun k => (f k).dropLast :=
  fun k a member => keyed k a (List.dropLast_subset _ member)

theorem robin_nil (none_ : ∀ k ∈ ks, f k = []) : robin ks n f = [] := by
  induction n generalizing f with
  | zero => rfl
  | succ n ih =>
    have first : tops ks f = [] := List.filterMap_eq_nil_iff.mpr fun k member => by rw [none_ k member]; rfl
    rw [robin, first, ih fun k member => by rw [none_ k member]; rfl]
    rfl

theorem robin_add (enough : ∀ k ∈ ks, (f k).length ≤ n) (m : Nat) : robin ks (n + m) f = robin ks n f := by
  induction n generalizing f with
  | zero => exact robin_nil fun k member => List.length_eq_zero_iff.mp (Nat.le_zero.mp (enough k member))
  | succ n ih =>
    have fewer : ∀ k ∈ ks, (f k).dropLast.length ≤ n := fun k member => by
      rw [List.length_dropLast]
      exact Nat.sub_le_of_le_add (enough k member)
    rw [Nat.succ_add, robin, robin, ih fewer]

variable [DecidableEq K]

theorem filter_tops (keyed : Keyed key f) (nodup : ks.Nodup) (k : K) :
    (tops ks f).filter (key · = k) = if k ∈ ks then (f k).getLast?.toList else [] := by
  unfold tops
  induction ks with
  | nil => rfl
  | cons j rest ih =>
    obtain ⟨first, later⟩ := List.nodup_cons.mp nodup
    have here : ∀ a, (f j).getLast? = some a → key a = j := fun a last => keyed j a (List.mem_of_getLast? last)
    by_cases same : k = j
    · subst same
      cases last : (f k).getLast? with
      | none => simp [last, ih later, first]
      | some a => simp [last, ih later, first, here a last]
    · cases last : (f j).getLast? with
      | none => simp [last, ih later, same]
      | some a => simp [last, ih later, same, here a last, Ne.symm same]

theorem filter_robin (keyed : Keyed key f) (nodup : ks.Nodup) {k : K} (member : k ∈ ks) (enough : (f k).length ≤ n) :
    (robin ks n f).filter (key · = k) = (f k).reverse := by
  induction n generalizing f with
  | zero => simp [robin, List.length_eq_zero_iff.mp (Nat.le_zero.mp enough)]
  | succ n ih =>
    have fewer : (f k).dropLast.length ≤ n := by
      rw [List.length_dropLast]
      omega
    rw [robin, List.filter_append, filter_tops keyed nodup, if_pos member, ih keyed.dropLast fewer]
    rcases List.eq_nil_or_concat (f k) with none_ | ⟨xs, a, some_⟩
    · simp [none_]
    · simp [some_]

/-- However far it has come, no stack is more than one turn ahead of one that still has elements. -/
theorem robin_fair (keyed : Keyed key f) (nodup : ks.Nodup) (i : K) {j : K} (member : j ∈ ks) (m : Nat)
    (left : ((robin ks n f).take m).countP (key · = j) < (f j).length) :
    ((robin ks n f).take m).countP (key · = i) ≤ ((robin ks n f).take m).countP (key · = j) + 1 := by
  induction n generalizing f m with
  | zero => simp [robin]
  | succ n ih =>
    have once : (tops ks f).countP (key · = i) ≤ 1 := by
      rw [List.countP_eq_length_filter, filter_tops keyed nodup]
      split
      · cases (f i).getLast? <;> simp
      · simp
    simp only [robin, List.take_append, List.countP_append] at left ⊢
    by_cases inside : m ≤ (tops ks f).length
    · have part : ((tops ks f).take m).countP (key · = i) ≤ (tops ks f).countP (key · = i) :=
        (List.take_sublist m _).countP_le
      rw [Nat.sub_eq_zero_of_le inside]
      simp only [List.take_zero, List.countP_nil, Nat.add_zero]
      omega
    · rw [List.take_of_length_le (Nat.le_of_not_le inside)] at left ⊢
      have some_ : f j ≠ [] := List.ne_nil_of_length_pos (by omega)
      have one : (tops ks f).countP (key · = j) = 1 := by
        rw [List.countP_eq_length_filter, filter_tops keyed nodup, if_pos member, List.getLast?_eq_some_getLast some_]
        rfl
      have later := ih keyed.dropLast (m - (tops ks f).length) (by rw [List.length_dropLast]; omega)
      omega

end Hoverfly.Lib
