import Mathlib.Data.List.Sort
import Mathlib.Order.Lattice

/-! Ranking by a key, the larger one first, where the order of the ranked things breaks ties. -/
namespace Hoverfly.Lib

section Sorted

variable {A : Type} (r : A → A → Prop)

def Leads (a : A) (xs : List A) : Prop := a ∈ xs ∧ ∀ b ∈ xs, r a b

variable {r} {a : A} {xs : List A}

theorem Leads.unique [Std.Antisymm r] {b : A} (first : Leads r a xs) (again : Leads r b xs) : a = b :=
  antisymm (first.2 b again.1) (again.2 a first.1)

theorem Leads.restrict {ys : List A} (first : Leads r a xs) (fewer : ys ⊆ xs) (kept : a ∈ ys) : Leads r a ys :=
  ⟨kept, fun b mem => first.2 b (fewer mem)⟩

variable [DecidableRel r] [Std.Total r] [IsTrans A r]

theorem leads_of_cons {rest : List A} (sorted : xs.insertionSort r = a :: rest) :
    Leads r a xs := by
  have ordered := List.pairwise_insertionSort r xs
  rw [sorted] at ordered
  have first := (List.pairwise_cons.mp ordered).1
  refine ⟨(List.mem_insertionSort r).mp (sorted ▸ List.mem_cons_self), fun b mem => ?_⟩
  have placed := (List.mem_insertionSort r).mpr mem
  rw [sorted] at placed
  rcases List.mem_cons.mp placed with rfl | later
  · exact refl b
  · exact first b later

variable [Std.Antisymm r]

theorem first_iff : (xs.insertionSort r)[0]? = some a ↔ Leads r a xs := by
  cases sorted : xs.insertionSort r with
  | nil =>
    have none : xs = [] := by simpa [sorted] using (List.perm_insertionSort r xs).symm
    subst none
    simp [Leads]
  | cons b rest =>
    have leads := leads_of_cons sorted
    constructor
    · intro eq
      cases Option.some.inj eq
      exact leads
    · intro other
      exact congrArg some (leads.unique other)

theorem second_eq [DecidableEq A] (xs : List A) :
    (xs.insertionSort r)[1]? =
      (xs.insertionSort r)[0]?.bind fun best => ((xs.erase best).insertionSort r)[0]? := by
  cases sorted : xs.insertionSort r with
  | nil => rfl
  | cons best rest =>
    have all := List.perm_insertionSort r xs
    have ordered := List.pairwise_insertionSort r xs
    rw [sorted] at all ordered
    -- What follows the first is sorted and holds the rest of the list, and there is only one such list.
    have others : rest.Perm ((xs.erase best).insertionSort r) := by
      have without := all.erase best
      rw [List.erase_cons_head] at without
      exact without.trans (List.perm_insertionSort r _).symm
    have same := others.eq_of_pairwise' (List.pairwise_cons.mp ordered).2 (List.pairwise_insertionSort r _)
    exact congrArg (·[0]?) same

end Sorted

section Keyed

variable {I K : Type} [LinearOrder I] [LinearOrder K]

def Ahead (key : I → K) (i j : I) : Prop := key j < key i ∨ key i = key j ∧ i ≤ j

variable {key key' : I → K}

instance : DecidableRel (Ahead key) := fun i j =>
  inferInstanceAs (Decidable (key j < key i ∨ key i = key j ∧ i ≤ j))

instance : Std.Total (Ahead key) where
  total i j := by
    rcases lt_trichotomy (key i) (key j) with less | same | more
    · exact .inr (.inl less)
    · exact (le_total i j).imp (fun le => .inr ⟨same, le⟩) fun le => .inr ⟨same.symm, le⟩
    · exact .inl (.inl more)

instance : IsTrans I (Ahead key) where
  trans i j k := by
    rintro (ij | ⟨ij, le⟩) (jk | ⟨jk, le'⟩)
    · exact .inl (jk.trans ij)
    · exact .inl (jk ▸ ij)
    · exact .inl (ij ▸ jk)
    · exact .inr ⟨ij.trans jk, le.trans le'⟩

instance : Std.Antisymm (Ahead key) where
  antisymm i j := by
    rintro (ij | ⟨ij, le⟩) (ji | ⟨ji, le'⟩)
    · exact absurd ij ji.not_gt
    · exact absurd ij ji.not_lt
    · exact absurd ji ij.not_lt
    · exact le_antisymm le le'

theorem leads_raised {j a b : I} {xs : List I} (others : ∀ i, i ≠ j → key' i = key i)
    (raised : key j ≤ key' j) (before : Leads (Ahead key) a xs) (after : Leads (Ahead key') b xs) :
    b = a ∨ b = j := by
  by_cases same : b = j
  · exact .inr same
  · left
    have ahead := after.2 a before.1
    have grown : key a ≤ key' a := by
      by_cases isJ : a = j
      · exact isJ ▸ raised
      · exact (others a isJ).ge
    rw [Ahead, others b same] at ahead
    refine antisymm (r := Ahead key) ?_ (before.2 b after.1)
    rcases ahead with less | ⟨tied, le⟩
    · exact .inl (grown.trans_lt less)
    · rcases grown.lt_or_eq with less | eq
      · exact .inl (tied ▸ less)
      · exact .inr ⟨tied.trans eq.symm, le⟩

end Keyed

end Hoverfly.Lib
