import Hoverfly.Lib.Map
import Hoverfly.Lib.Run
import Mathlib.Data.Finset.Card

/-! A map that drops its oldest keys once there are more than a cap, followed against the
map that drops none. -/
namespace Hoverfly.Lib

variable {K V : Type*} [DecidableEq K]

structure Bounded (K V : Type*) where
  map : AList (fun _ : K => V) := ∅
  order : List K := []
  cap : Nat

inductive Call (K V : Type*) where
  | insert (k : K) (v : V)
  | remove (k : K)

/-- The keys in the order of their first insertions, the newest first, and the value each was last given. -/
structure History (K V : Type*) where
  firsts : List K := []
  latest : K → Option V := fun _ => none

namespace Bounded

def evict (cap : Nat) (map : AList (fun _ : K => V)) : List K → AList (fun _ : K => V) × List K
  | [] => (map, [])
  | old :: rest => if rest.length + 1 > cap then evict cap (map.erase old) rest else (map, old :: rest)

def insert (c : Bounded K V) (k : K) (v : V) : Bounded K V :=
  let order := if k ∈ c.map then c.order else c.order ++ [k]
  let kept := evict c.cap (c.map.insert k v) order
  { c with map := kept.1, order := kept.2 }

def remove (c : Bounded K V) (k : K) : Bounded K V :=
  { c with map := c.map.erase k, order := c.order.filter (· != k) }

def call (c : Bounded K V) : Call K V → Bounded K V
  | .insert k v => c.insert k v
  | .remove k => c.remove k

end Bounded

namespace History

def note (c : Bounded K V) (h : History K V) : Call K V → History K V
  | .insert k v => ⟨if k ∈ c.map then h.firsts else k :: h.firsts, Function.update h.latest k (some v)⟩
  | .remove k => { h with latest := Function.update h.latest k none }

def after (c : Bounded K V) (h : History K V) : List (Call K V) → History K V
  | [] => h
  | a :: rest => after (c.call a) (h.note c a) rest

def since (firsts : List K) (k : K) : Finset K := (firsts.takeWhile (· ≠ k)).toFinset

/-- `k` is one of the last `n` distinct keys to be first inserted. -/
def Recent (h : History K V) (n : Nat) (k : K) : Prop := k ∈ h.firsts ∧ (since h.firsts k).card < n

end History

namespace Bounded
open History

structure Follows (cap : Nat) (map : AList (fun _ : K => V)) (order : List K) (h : History K V) : Prop where
  listed : order.Perm map.keys
  latest : ∀ k v, map.lookup k = some v → h.latest k = some v
  gone : ∀ k, h.latest k ≠ none → k ∉ map → cap ≤ (since h.firsts k).card
  aged : order.Pairwise fun old new => new ∈ since h.firsts old

variable {cap : Nat} {map : AList (fun _ : K => V)} {order : List K} {h : History K V}

theorem Follows.nodup (f : Follows cap map order h) : order.Nodup := f.listed.nodup_iff.mpr map.nodupKeys

theorem Follows.evict (f : Follows cap map order h) :
    Follows cap (evict cap map order).1 (evict cap map order).2 h ∧ (Bounded.evict cap map order).2.length ≤ cap := by
  induction order generalizing map with
  | nil => exact ⟨f, Nat.zero_le _⟩
  | cons old rest ih =>
    unfold Bounded.evict
    split
    next full =>
      obtain ⟨newer, aged⟩ := List.pairwise_cons.mp f.aged
      refine ih ⟨perm_keys_erase f.listed, fun k v found => f.latest k v (lookup_of_erase found).2, ?_, aged⟩
      intro k given absent
      by_cases same : k = old
      · subst same
        have distinct : rest.toFinset.card = rest.length := List.toFinset_card_of_nodup f.nodup.of_cons
        have apart : rest.toFinset ⊆ since h.firsts k := fun j member => newer j (List.mem_toFinset.mp member)
        have less := Finset.card_le_card apart
        omega
      · exact f.gone k given fun here => absent (AList.mem_erase.mpr ⟨same, here⟩)
    next within => exact ⟨f, Nat.le_of_not_lt within⟩

theorem Follows.insert (f : Follows cap map order h) (k : K) (v : V) :
    Follows cap (map.insert k v) (if k ∈ map then order else order ++ [k])
      ⟨if k ∈ map then h.firsts else k :: h.firsts, Function.update h.latest k (some v)⟩ := by
  have grows : ∀ j ≠ k, since h.firsts j ⊆ since (if k ∈ map then h.firsts else k :: h.firsts) j := by
    intro j other
    split
    · exact Finset.Subset.refl _
    · simp only [since, List.takeWhile_cons, other.symm, ne_eq, not_false_eq_true, decide_true, if_true,
        List.toFinset_cons]
      exact Finset.subset_insert ..
  constructor
  · refine List.Perm.trans ?_ (perm_keys_insert ..).symm
    split
    · exact f.listed
    · exact (List.perm_append_singleton ..).trans (f.listed.cons _)
  · intro j u found
    obtain ⟨rfl, rfl⟩ | ⟨other, found⟩ := lookup_insert_cases found
    · exact Function.update_self ..
    · exact (Function.update_of_ne other ..).trans (f.latest j u found)
  · intro j given absent
    obtain ⟨other, absent⟩ : j ≠ k ∧ j ∉ map := by simpa using absent
    dsimp only at given
    rw [Function.update_of_ne other] at given
    exact (f.gone j given absent).trans (Finset.card_le_card (grows j other))
  · dsimp only
    by_cases known : k ∈ map
    · simpa only [if_pos known] using f.aged
    · simp only [if_neg known] at grows ⊢
      have old : ∀ j ∈ order, j ≠ k := fun j member same => known (f.listed.mem_iff.mp (same ▸ member))
      have aged := f.aged.imp_of_mem fun {j i} member _ newer => grows j (old j member) newer
      refine List.pairwise_append.mpr ⟨aged, List.pairwise_singleton .., fun j member i last => ?_⟩
      rw [List.mem_singleton.mp last]
      simp [since, (old j member).symm]

theorem Follows.remove (f : Follows cap map order h) (k : K) :
    Follows cap (map.erase k) (order.filter (· != k)) ⟨h.firsts, Function.update h.latest k none⟩ := by
  constructor
  · rw [← f.nodup.erase_eq_filter, AList.keys_erase]
    exact f.listed.erase k
  · intro j u found
    obtain ⟨other, found⟩ := lookup_of_erase found
    exact (Function.update_of_ne other ..).trans (f.latest j u found)
  · intro j given absent
    have other : j ≠ k := by
      rintro rfl
      exact given (Function.update_self ..)
    dsimp only at given
    rw [Function.update_of_ne other] at given
    exact f.gone j given fun here => absent (AList.mem_erase.mpr ⟨other, here⟩)
  · exact f.aged.filter _

structure Kept (cap : Nat) (c : Bounded K V) (h : History K V) : Prop where
  listed : c.order.Perm c.map.keys
  once : c.order.Nodup
  within : c.order.length ≤ cap
  recent : ∀ k, h.Recent cap k → h.latest k ≠ none → k ∈ c.map
  latest : ∀ k v, c.map.lookup k = some v → h.latest k = some v

theorem kept_run (cap : Nat) (calls : List (Call K V)) :
    Kept cap (run call ⟨∅, [], cap⟩ calls) (History.after ⟨∅, [], cap⟩ {} calls) := by
  have loop : ∀ (c : Bounded K V) (h : History K V), Follows c.cap c.map c.order h → c.order.length ≤ c.cap →
      Kept c.cap (run call c calls) (History.after c h calls) := by
    induction calls with
    | nil =>
      intro c h f within
      refine ⟨f.listed, f.nodup, within, fun k recent given => ?_, f.latest⟩
      by_contra absent
      exact absurd recent.2 (Nat.not_lt.mpr (f.gone k given absent))
    | cons a rest ih =>
      intro c h f within
      cases a with
      | insert k v =>
        obtain ⟨next, few⟩ := (f.insert k v).evict
        exact ih (c.insert k v) _ next few
      | remove k => exact ih (c.remove k) _ (f.remove k) ((List.length_filter_le ..).trans within)
  refine loop ⟨∅, [], cap⟩ {} ⟨.refl _, fun k v found => ?_, fun k given => absurd rfl given, .nil⟩ (Nat.zero_le _)
  cases found

end Bounded

end Hoverfly.Lib
