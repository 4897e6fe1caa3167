import Mathlib.Data.List.Nodup
import Mathlib.Data.List.Pairwise

/-! Radix trees: every fork consumes a piece of the path. A tree stands for the values it holds and
the paths that lead to them. -/
namespace Hoverfly.Lib

inductive Trie (A B : Type) where
  | node (entry : Option B) (forks : List (List A × Trie A B))

namespace Trie

variable {A B : Type}

mutual
def entries : Trie A B → List (List A × B)
  | node entry forks => (entry.map fun b => ([], b)).toList ++ entriesBelow forks
def entriesBelow : List (List A × Trie A B) → List (List A × B)
  | [] => []
  | (p, t) :: rest => (entries t).map (fun e => (p ++ e.1, e.2)) ++ entriesBelow rest
end

theorem entriesBelow_eq (forks : List (List A × Trie A B)) :
    entriesBelow forks = forks.flatMap fun f => f.2.entries.map fun e => (f.1 ++ e.1, e.2) := by
  induction forks with
  | nil => simp only [entriesBelow, List.flatMap_nil]
  | cons f rest ih => simp only [entriesBelow, List.flatMap_cons, ih]

theorem mem_entries {entry : Option B} {forks : List (List A × Trie A B)} {p : List A} {b : B} :
    (p, b) ∈ (node entry forks).entries ↔
      (p = [] ∧ entry = some b) ∨ ∃ f ∈ forks, ∃ q, f.1 ++ q = p ∧ (q, b) ∈ f.2.entries := by
  rw [entries, entriesBelow_eq, List.mem_append]
  refine or_congr ?_ ?_
  · cases entry <;> simp [eq_comm]
  · simp only [List.mem_flatMap, List.mem_map, Prod.exists, Prod.mk.injEq]
    constructor
    · rintro ⟨q, t, member, r, c, below, path, rfl⟩
      exact ⟨q, t, member, r, path, below⟩
    · rintro ⟨q, t, member, r, path, below⟩
      exact ⟨q, t, member, r, b, below, path, rfl⟩

/-- No piece is empty, and two pieces at one node start differently. -/
inductive Radix : Trie A B → Prop where
  | node {entry : Option B} {forks : List (List A × Trie A B)} (proper : ∀ f ∈ forks, f.1 ≠ [])
      (apart : forks.Pairwise fun f g => f.1.head? ≠ g.1.head?) (subtrees : ∀ f ∈ forks, Radix f.2) :
      Radix (.node entry forks)

theorem Radix.nodup {t : Trie A B} (radix : Radix t) : (t.entries.map Prod.fst).Nodup := by
  induction radix with
  | @node entry forks proper apart subtrees ih =>
    rw [entries, entriesBelow_eq, List.map_append, List.map_flatMap, List.nodup_append']
    refine ⟨by cases entry <;> simp, List.nodup_flatMap.mpr ⟨fun f member => ?_, ?_⟩, ?_⟩
    · rw [List.map_map]
      have shifted := (ih f member).map (List.append_right_injective f.1)
      rwa [List.map_map] at shifted
    · -- two forks lead to paths that differ in their first letter
      refine apart.imp_of_mem fun {f g} here there differ => ?_
      intro p fromF fromG
      simp only [List.map_map, List.mem_map] at fromF fromG
      obtain ⟨⟨e, -, rfl⟩, ⟨d, -, same⟩⟩ := And.intro fromF fromG
      refine differ ?_
      rw [← List.head?_append_of_ne_nil _ (proper f here), ← List.head?_append_of_ne_nil _ (proper g there)]
      exact (congrArg List.head? same).symm
    · intro p top below
      have empty : p = [] := by cases entry <;> simp_all
      subst empty
      simp only [List.mem_flatMap, List.map_map, List.mem_map] at below
      obtain ⟨f, member, e, -, path⟩ := below
      exact proper f member (List.append_eq_nil_iff.mp path).1

end Trie

end Hoverfly.Lib
