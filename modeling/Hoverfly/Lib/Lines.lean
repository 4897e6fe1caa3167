import Mathlib.Data.List.Basic

/-! Lines put together from parts of a text, whatever the parts. -/
namespace Hoverfly.Lib

variable {A : Type*} {sep : A}

def unlines (sep : A) (lines : List (List A)) : List A := lines.flatMap (· ++ [sep])

@[simp] theorem unlines_append (xs ys : List (List A)) : unlines sep (xs ++ ys) = unlines sep xs ++ unlines sep ys := by
  simp [unlines]

@[simp] theorem unlines_singleton (line : List A) : unlines sep [line] = line ++ [sep] := by simp [unlines]

/-- The lines of a text, and what comes after the last separator. -/
structure Reassembled (sep : A) (text : List A) (lines : List (List A)) (rest : List A) : Prop where
  whole : text = unlines sep lines ++ rest
  plain : ∀ line ∈ lines, sep ∉ line

namespace Reassembled

variable {text rest : List A} {lines : List (List A)}

theorem start : Reassembled sep ([] : List A) [] [] := ⟨rfl, by simp⟩

theorem feed (h : Reassembled sep text lines rest) (part : List A) :
    Reassembled sep (text ++ part) lines (rest ++ part) :=
  ⟨by rw [h.whole, List.append_assoc], h.plain⟩

variable [DecidableEq A]

theorem cut (h : Reassembled sep text lines rest) {i : Nat} (found : rest.idxOf? sep = some i) :
    Reassembled sep text (lines ++ [rest.take i]) (rest.drop (i + 1)) := by
  obtain ⟨inside, here, before⟩ := List.idxOf?_eq_some_iff.mp found
  have split_ : rest = rest.take i ++ sep :: rest.drop (i + 1) := by
    conv_lhs => rw [← List.take_append_drop i rest, List.drop_eq_getElem_cons inside, here]
  have plain : sep ∉ rest.take i := by
    intro member
    obtain ⟨j, early, same⟩ := List.mem_take_iff_getElem.mp member
    exact before j (by omega) same
  constructor
  · rw [unlines_append, unlines_singleton, List.append_assoc, List.append_assoc, List.singleton_append, ← split_]
    exact h.whole
  · intro line member
    rcases List.mem_append.mp member with old | new
    · exact h.plain line old
    · rwa [List.mem_singleton.mp new]

theorem splitOn_eq (h : Reassembled sep text lines rest) (done : sep ∉ rest) : text.splitOn sep = lines ++ [rest] := by
  have joined : ∀ ls : List (List A), unlines sep ls ++ rest = [sep].intercalate (ls ++ [rest]) := by
    intro ls
    induction ls with
    | nil => simp [unlines, List.intercalate_singleton]
    | cons l ls ih =>
      cases ls with
      | nil => simp [unlines, List.intercalate_cons_cons, List.intercalate_singleton]
      | cons k ls =>
        rw [List.cons_append, List.cons_append, List.intercalate_cons_cons, ← List.cons_append, ← ih]
        simp [unlines]
  rw [h.whole, joined]
  refine List.splitOn_intercalate sep (fun line member => ?_) (by simp)
  rcases List.mem_append.mp member with ended | last
  · exact h.plain line ended
  · rwa [List.mem_singleton.mp last]

end Reassembled

end Hoverfly.Lib
