import Mathlib.Data.List.AList
import Mathlib.Data.List.Perm.Basic
import Mathlib.Logic.Function.Basic
import Mathlib.Algebra.GroupWithZero.Nat

/-! Maps built by inserting a list of entries one after another. When the keys
differ, the order of the list does not matter. -/
namespace Hoverfly.Lib

variable {K V : Type*} [DecidableEq K] {k : K}

theorem lookup_insert_cases {m : AList (fun _ : K => V)} {j : K} {v u : V}
    (found : (m.insert k v).lookup j = some u) : (j = k ∧ u = v) ∨ (j ≠ k ∧ m.lookup j = some u) := by
  by_cases same : j = k
  · rw [same, AList.lookup_insert] at found
    exact .inl ⟨same, (Option.some.inj found).symm⟩
  · rw [AList.lookup_insert_ne same] at found
    exact .inr ⟨same, found⟩

theorem lookup_of_erase {m : AList (fun _ : K => V)} {j : K} {u : V} (found : (m.erase k).lookup j = some u) :
    j ≠ k ∧ m.lookup j = some u := by
  have other : j ≠ k := by
    rintro rfl
    rw [AList.lookup_erase] at found
    exact nomatch found
  rw [AList.lookup_erase_ne other] at found
  exact ⟨other, found⟩

def insertAll (m : AList (fun _ : K => V)) (xs : List (K × V)) : AList (fun _ : K => V) :=
  xs.foldl (fun m e => m.insert e.1 e.2) m

theorem lookup_insertAll_of_notMem (m : AList (fun _ : K => V)) (xs : List (K × V)) (k : K)
    (other : k ∉ xs.map (·.1)) : (insertAll m xs).lookup k = m.lookup k := by
  induction xs generalizing m with
  | nil => rfl
  | cons e rest ih =>
    simp only [List.map_cons, List.mem_cons, not_or] at other
    exact (ih (m.insert e.1 e.2) other.2).trans (AList.lookup_insert_ne other.1)

theorem mem_insertAll (m : AList (fun _ : K => V)) (xs : List (K × V)) (k : K) :
    k ∈ insertAll m xs ↔ k ∈ xs.map (·.1) ∨ k ∈ m := by
  induction xs generalizing m with
  | nil => simp [insertAll]
  | cons e rest ih =>
    rw [show insertAll m (e :: rest) = insertAll (m.insert e.1 e.2) rest from rfl, ih, AList.mem_insert,
      List.map_cons, List.mem_cons]
    tauto

theorem lookup_insertAll (xs : List (K × V)) (nodup : (xs.map (·.1)).Nodup) (k : K) (v : V) :
    (insertAll ∅ xs).lookup k = some v ↔ (k, v) ∈ xs := by
  have loop : ∀ m : AList (fun _ : K => V), (∀ e ∈ xs, m.lookup e.1 = none) →
      ((insertAll m xs).lookup k = some v ↔ (k, v) ∈ xs ∨ m.lookup k = some v) := by
    induction xs with
    | nil => simp [insertAll]
    | cons e rest ih =>
      intro m fresh
      obtain ⟨first, nodup⟩ := List.nodup_cons.mp nodup
      by_cases same : k = e.1
      · subst same
        have here := lookup_insertAll_of_notMem (m.insert e.1 e.2) rest e.1 first
        rw [AList.lookup_insert] at here
        have absent : ¬(e.1, v) ∈ rest := fun member => first (List.mem_map.mpr ⟨_, member, rfl⟩)
        rw [show insertAll m (e :: rest) = insertAll (m.insert e.1 e.2) rest from rfl, here,
          fresh e (List.mem_cons_self ..), List.mem_cons]
        constructor
        · intro h
          cases h
          exact .inl (.inl rfl)
        · rintro ((h | h) | h)
          · rw [← h]
          · exact absurd h absent
          · cases h
      · have later := ih nodup (m.insert e.1 e.2) (by
          intro e' member
          have ne : e'.1 ≠ e.1 := fun h => first (List.mem_map.mpr ⟨e', member, h⟩)
          rw [AList.lookup_insert_ne ne]
          exact fresh e' (List.mem_cons_of_mem _ member))
        rw [AList.lookup_insert_ne same] at later
        rw [show insertAll m (e :: rest) = insertAll (m.insert e.1 e.2) rest from rfl, later,
          List.mem_cons]
        have other : (k, v) ≠ e := fun h => same (congrArg Prod.fst h)
        simp [other]
  have all := loop ∅ (by simp)
  simpa using all

theorem lookup_insert_eq_update (m : AList (fun _ : K => V)) (k : K) (v : V) :
    (fun i => (m.insert k v).lookup i) = Function.update (fun i => m.lookup i) k (some v) := by
  funext i
  by_cases same : i = k
  · subst same
    rw [AList.lookup_insert, Function.update_self]
  · rw [AList.lookup_insert_ne same, Function.update_of_ne same]

theorem lookup_erase_eq_update (m : AList (fun _ : K => V)) (k : K) :
    (fun i => (m.erase k).lookup i) = Function.update (fun i => m.lookup i) k none := by
  funext i
  by_cases same : i = k
  · subst same
    rw [AList.lookup_erase, Function.update_self]
  · rw [AList.lookup_erase_ne same, Function.update_of_ne same]

/-- A map written out, in any order and with some values left out, and read back. -/
theorem lookup_insertAll_perm {W : Type*} (m : AList (fun _ : K => V)) (keep : V → Bool) (f : V → W)
    (xs : List (K × W))
    (perm : xs.Perm ((m.entries.filter fun e => keep e.2).map fun e => (e.1, f e.2))) (k : K) :
    (insertAll ∅ xs).lookup k = ((m.lookup k).filter keep).map f := by
  have nodup : (xs.map (·.1)).Nodup := by
    have same : ((m.entries.filter fun e => keep e.2).map fun e => (e.1, f e.2)).map (·.1) =
        (m.entries.filter fun e => keep e.2).keys := by
      rw [List.map_map]
      rfl
    rw [(perm.map (·.1)).nodup_iff, same]
    exact m.nodupKeys.sublist List.filter_sublist
  apply Option.ext
  intro w
  rw [lookup_insertAll xs nodup, perm.mem_iff, Option.map_eq_some_iff, List.mem_map]
  constructor
  · rintro ⟨⟨k', v⟩, member, same⟩
    obtain ⟨member, kept⟩ := List.mem_filter.mp member
    cases same
    exact ⟨v, Option.filter_eq_some_iff.mpr ⟨AList.mem_lookup_iff.mpr member, kept⟩, rfl⟩
  · rintro ⟨v, found, rfl⟩
    obtain ⟨found, kept⟩ := Option.filter_eq_some_iff.mp found
    exact ⟨⟨k, v⟩, List.mem_filter.mpr ⟨AList.mem_lookup_iff.mp found, kept⟩, rfl⟩

theorem lookup_insertAll_entries (m : AList (fun _ : K => V)) (xs : List (K × V))
    (perm : xs.Perm (m.entries.map fun e => (e.1, e.2))) (k : K) :
    (insertAll ∅ xs).lookup k = m.lookup k := by
  rw [lookup_insertAll_perm m (fun _ => true) id xs (by simpa using perm) k]
  cases m.lookup k <;> rfl

theorem mapM_perm {A B C E : Type} (f : B → Except E C) (h : A → B) (g : A → C) (xs : List A)
    (ys : List B) (perm : ys.Perm (xs.map h)) (parses : ∀ x ∈ xs, f (h x) = .ok (g x)) :
    ∃ zs, ys.mapM f = .ok zs ∧ zs.Perm (xs.map g) := by
  have all : ∀ ys : List B, (∀ y ∈ ys, ∃ z, f y = .ok z) →
      ∃ zs, ys.mapM f = .ok zs ∧ zs.map some = ys.map fun y => (f y).toOption := by
    intro ys
    induction ys with
    | nil => exact fun _ => ⟨[], rfl, rfl⟩
    | cons y rest ih =>
      intro parses
      obtain ⟨z, hz⟩ := parses y (List.mem_cons_self ..)
      obtain ⟨zs, hzs, same⟩ := ih fun y' member => parses y' (List.mem_cons_of_mem _ member)
      refine ⟨z :: zs, ?_, ?_⟩
      · rw [List.mapM_cons, hz, hzs]
        rfl
      · rw [List.map_cons, List.map_cons, same, hz]
        rfl
  obtain ⟨zs, out, same⟩ := all ys (by
    intro y member
    obtain ⟨x, hx, rfl⟩ := List.mem_map.mp (perm.mem_iff.mp member)
    exact ⟨g x, parses x hx⟩)
  refine ⟨zs, out, (List.map_perm_map_iff fun _ _ => Option.some.inj).mp ?_⟩
  rw [same, List.map_map]
  refine (perm.map _).trans (List.Perm.of_eq ?_)
  rw [List.map_map]
  apply List.map_congr_left
  intro x hx
  simp only [Function.comp_apply, parses x hx]
  rfl

theorem perm_keys_insert (m : AList (fun _ : K => V)) (k : K) (v : V) :
    (m.insert k v).keys.Perm (if k ∈ m then m.keys else k :: m.keys) := by
  rw [AList.keys_insert]
  split
  · rename_i known
    exact (List.perm_cons_erase known).symm
  · rename_i new
    rw [List.erase_of_not_mem new]

theorem perm_keys_erase {m : AList (fun _ : K => V)} {rest : List K} (same : (k :: rest).Perm m.keys) :
    rest.Perm (m.erase k).keys := by
  rw [AList.keys_erase]
  simpa using same.erase k

theorem mem_of_lookup_insertAll (xs : List (K × V)) (k : K) (v : V)
    (found : (insertAll ∅ xs).lookup k = some v) : (k, v) ∈ xs := by
  have loop : ∀ (xs : List (K × V)) (m : AList (fun _ : K => V)), (insertAll m xs).lookup k = some v →
      (k, v) ∈ xs ∨ m.lookup k = some v := by
    intro xs
    induction xs with
    | nil => exact fun m found => .inr found
    | cons e rest ih =>
      intro m found
      rcases ih (m.insert e.1 e.2) found with member | here
      · exact .inl (List.mem_cons_of_mem _ member)
      · by_cases same : k = e.1
        · subst same
          rw [AList.lookup_insert, Option.some.injEq] at here
          subst here
          exact .inl (List.mem_cons_self ..)
        · rw [AList.lookup_insert_ne same] at here
          exact .inr here
  rcases loop xs ∅ found with member | none_
  · exact member
  · rw [AList.lookup_empty] at none_
    cases none_

theorem mem_of_mapM {B C E : Type} (f : B → Except E C) (ys : List B) (zs : List C)
    (out : ys.mapM f = .ok zs) : ∀ z ∈ zs, ∃ y ∈ ys, f y = .ok z := by
  induction ys generalizing zs with
  | nil =>
    cases out
    exact fun z member => by cases member
  | cons y rest ih =>
    rw [List.mapM_cons] at out
    cases first : f y with
    | error e =>
      rw [first] at out
      cases out
    | ok w =>
      cases tail : rest.mapM f with
      | error e =>
        rw [first, tail] at out
        cases out
      | ok ws =>
        rw [first, tail] at out
        cases out
        intro z member
        rcases List.mem_cons.mp member with same | member
        · exact ⟨y, List.mem_cons_self .., same ▸ first⟩
        · obtain ⟨y', inside, same⟩ := ih ws tail z member
          exact ⟨y', List.mem_cons_of_mem _ inside, same⟩

omit [DecidableEq K] in
theorem length_entries_eq (m : AList (fun _ : K => V)) : m.entries.length = m.keys.length := by
  simp [AList.keys, List.keys]

theorem length_insert_le (m : AList (fun _ : K => V)) (k : K) (v : V) :
    (m.insert k v).entries.length ≤ m.entries.length + 1 := by
  rw [length_entries_eq, length_entries_eq, (perm_keys_insert m k v).length_eq]
  split
  · exact Nat.le_succ _
  · rfl

theorem length_insert_of_mem {m : AList (fun _ : K => V)} (known : k ∈ m) (v : V) :
    (m.insert k v).entries.length = m.entries.length := by
  rw [length_entries_eq, length_entries_eq, (perm_keys_insert m k v).length_eq, if_pos known]

theorem length_insertAll_le (m : AList (fun _ : K => V)) (xs : List (K × V)) :
    (insertAll m xs).entries.length ≤ m.entries.length + xs.length := by
  induction xs generalizing m with
  | nil => exact Nat.le_refl _
  | cons e rest ih =>
    have first := length_insert_le m e.1 e.2
    have later : (insertAll m (e :: rest)).entries.length ≤ _ := ih (m.insert e.1 e.2)
    rw [List.length_cons]
    omega

/-- Changes every value and keeps those that `keep` then accepts. -/
def retain (f : V → V) (keep : V → Bool) (m : AList (fun _ : K => V)) : AList (fun _ : K => V) :=
  insertAll ∅ ((m.entries.filter fun e => keep (f e.2)).map fun e => (e.1, f e.2))

theorem lookup_retain (f : V → V) (keep : V → Bool) (m : AList (fun _ : K => V)) (k : K) :
    (retain f keep m).lookup k = ((m.lookup k).filter fun v => keep (f v)).map f :=
  lookup_insertAll_perm m (fun v => keep (f v)) f _ (.refl _) k

theorem mem_of_mem_retain {f : V → V} {keep : V → Bool} {m : AList (fun _ : K => V)} {k : K}
    (kept : k ∈ retain f keep m) : k ∈ m := by
  rw [← AList.lookup_isSome, lookup_retain, Option.isSome_map] at kept
  exact AList.lookup_isSome.mp (Option.isSome_of_isSome_filter _ _ kept)

theorem length_retain_le (f : V → V) (keep : V → Bool) (m : AList (fun _ : K => V)) :
    (retain f keep m).entries.length ≤ m.entries.length := by
  have written := length_insertAll_le (∅ : AList fun _ : K => V)
    ((m.entries.filter fun e => keep (f e.2)).map fun e => (e.1, f e.2))
  have kept := List.length_filter_le (fun e : Sigma fun _ : K => V => keep (f e.2)) m.entries
  rw [List.length_map] at written
  exact Nat.le_trans written (by simpa using kept)

def weigh (f : V → Nat) (m : AList (fun _ : K => V)) : Nat := (m.entries.map fun e => f e.2).sum

def total (m : AList (fun _ : K => Nat)) : Nat := weigh (fun v => v) m

theorem sum_kerase (f : V → Nat) (k : K) (l : List (Sigma fun _ : K => V)) :
    ((l.kerase k).map fun e => f e.2).sum + ((l.dlookup k).map f).getD 0 = (l.map fun e => f e.2).sum := by
  induction l with
  | nil => rfl
  | cons e l ih =>
    obtain ⟨i, v⟩ := e
    by_cases same : k = i
    · subst same
      have dropped : List.kerase k (⟨k, v⟩ :: l) = l := List.kerase_cons_eq rfl
      rw [dropped, List.dlookup_cons_eq]
      simp [Nat.add_comm]
    · rw [List.kerase_cons_ne same, List.dlookup_cons_ne l ⟨i, v⟩ same]
      simp only [List.map_cons, List.sum_cons]
      omega

theorem weigh_erase (f : V → Nat) (k : K) (m : AList (fun _ : K => V)) :
    weigh f (m.erase k) + ((m.lookup k).map f).getD 0 = weigh f m :=
  sum_kerase f k m.entries

theorem weigh_insert (f : V → Nat) (k : K) (v : V) (m : AList (fun _ : K => V)) :
    weigh f (m.insert k v) + ((m.lookup k).map f).getD 0 = weigh f m + f v := by
  have rest := weigh_erase f k m
  have whole : weigh f (m.insert k v) = f v + weigh f (m.erase k) := rfl
  omega

theorem le_weigh (f : V → Nat) {m : AList (fun _ : K => V)} {v : V} (found : m.lookup k = some v) :
    f v ≤ weigh f m := by
  have rest := weigh_erase f k m
  rw [found, Option.map_some, Option.getD_some] at rest
  omega

omit [DecidableEq K] in
theorem weigh_indicator (p : V → Bool) (m : AList (fun _ : K => V)) :
    weigh (fun v => if p v then 1 else 0) m = (m.entries.filter fun e => p e.2).length := by
  unfold weigh
  induction m.entries with
  | nil => rfl
  | cons e rest ih =>
    simp only [List.map_cons, List.sum_cons, ih, List.filter_cons]
    by_cases counted : p e.2 = true
    · rw [if_pos counted, if_pos counted, List.length_cons, Nat.add_comm]
    · rw [if_neg counted, if_neg counted, Nat.zero_add]

theorem total_insert (k : K) (v : Nat) (m : AList (fun _ : K => Nat)) :
    total (m.insert k v) + (m.lookup k).getD 0 = total m + v := by
  have moved := weigh_insert (fun v => v) k v m
  rwa [Option.map_id'] at moved

theorem getD_le_total (k : K) (m : AList (fun _ : K => Nat)) : (m.lookup k).getD 0 ≤ total m := by
  have := total_insert k 0 m
  omega

theorem sum_lookup_le {ks : List K} (nodup : ks.Nodup) (m : AList (fun _ : K => Nat)) :
    (ks.map fun k => (m.lookup k).getD 0).sum ≤ total m := by
  induction ks generalizing m with
  | nil => exact Nat.zero_le _
  | cons k ks ih =>
    obtain ⟨fresh, nodup⟩ := List.nodup_cons.mp nodup
    have rest := ih nodup (m.erase k)
    have same : (ks.map fun i => ((m.erase k).lookup i).getD 0) = ks.map fun i => (m.lookup i).getD 0 :=
      List.map_congr_left fun i member => by rw [AList.lookup_erase_ne (ne_of_mem_of_not_mem member fresh)]
    have whole : total (m.erase k) + (m.lookup k).getD 0 = total m := by
      have moved := weigh_erase (fun v => v) k m
      rwa [Option.map_id'] at moved
    rw [same] at rest
    rw [List.map_cons, List.sum_cons]
    omega

end Hoverfly.Lib
