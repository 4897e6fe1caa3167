import Mathlib.Data.Finset.Card
import Mathlib.Data.Finset.Dedup

/-! Keeping the first item of every key: a set of the keys taken so far beside the items
themselves, and a buffer that is emptied from its back. -/
namespace Hoverfly.Lib

structure Distinct (K V : Type) [DecidableEq K] where
  seen : Finset K
  items : List (K × V)
  keys : seen = (items.map Prod.fst).toFinset
  nodup : (items.map Prod.fst).Nodup

namespace Distinct

variable {K V : Type} [DecidableEq K] (d : Distinct K V)

theorem keys_append (x : K × V) :
    insert x.1 d.seen = ((d.items ++ [x]).map Prod.fst).toFinset := by
  rw [List.map_append, List.toFinset_append, ← d.keys]
  simp

theorem nodup_append {x : K × V} (fresh : x.1 ∉ d.seen) :
    ((d.items ++ [x]).map Prod.fst).Nodup := by
  rw [d.keys, List.mem_toFinset] at fresh
  rw [List.map_append, List.nodup_append]
  refine ⟨d.nodup, by simp, fun a old b new same => ?_⟩
  rw [List.map_singleton, List.mem_singleton] at new
  exact fresh (new ▸ same ▸ old)

def empty : Distinct K V := ⟨∅, [], rfl, List.nodup_nil⟩

def take (d : Distinct K V) (x : K × V) : Distinct K V :=
  if fresh : x.1 ∉ d.seen then ⟨insert x.1 d.seen, d.items ++ [x], d.keys_append x, d.nodup_append fresh⟩ else d

theorem seen_take (x : K × V) : (d.take x).seen = insert x.1 d.seen := by
  unfold take
  split
  next => rfl
  next old => exact (Finset.insert_eq_of_mem (not_not.mp old)).symm

theorem seen_foldl_take (xs : List (K × V)) :
    (xs.foldl take d).seen = xs.foldl (fun seen x => insert x.1 seen) d.seen := by
  induction xs generalizing d with
  | nil => rfl
  | cons x rest ih => rw [List.foldl_cons, ih, seen_take, List.foldl_cons]

theorem card_seen : d.seen.card = d.items.length := by
  rw [d.keys, List.toFinset_card_of_nodup d.nodup, List.length_map]

end Distinct

section Pop

variable {A : Type}

def popMany : Nat → List A → List A × List A
  | 0, xs => ([], xs)
  | n + 1, xs =>
    match xs.getLast? with
    | none => ([], xs)
    | some x => (x :: (popMany n xs.dropLast).1, (popMany n xs.dropLast).2)

theorem popMany_reverse (n : Nat) (xs : List A) :
    popMany n xs.reverse = (xs.take n, (xs.drop n).reverse) := by
  induction n generalizing xs with
  | zero => rfl
  | succ n ih =>
    cases xs with
    | nil => rfl
    | cons x rest =>
      unfold popMany
      rw [List.getLast?_reverse, List.head?_cons]
      have without : (x :: rest).reverse.dropLast = rest.reverse := by
        rw [List.reverse_cons, List.dropLast_concat]
      dsimp only
      rw [without, ih]
      rfl

end Pop

end Hoverfly.Lib
