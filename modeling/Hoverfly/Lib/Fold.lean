import Mathlib.Data.List.Basic
import Mathlib.Data.List.Count
import Mathlib.Algebra.Order.BigOperators.Group.List
import Mathlib.Algebra.Order.Group.Nat
import Mathlib.Algebra.GroupWithZero.Nat

/-! Loops as folds: what holds of an accumulator that only ever takes over a new
candidate, and what changing one element of a list does to a count. -/
namespace Hoverfly.Lib

variable {A B S : Type*}

theorem foldl_candidate (P : B → Prop) (f : Option B → A → Option B) (xs : List A) (best : Option B)
    (start : ∀ b, best = some b → P b)
    (keep : ∀ best x, x ∈ xs → (∀ b, best = some b → P b) → ∀ b, f best x = some b → P b) :
    ∀ b, xs.foldl f best = some b → P b := by
  induction xs generalizing best with
  | nil => exact start
  | cons x rest ih =>
    apply ih (f best x)
    · exact keep best x (List.mem_cons_self ..) start
    · exact fun best y hy => keep best y (List.mem_cons_of_mem _ hy)

variable {x : A} {xs : List A}

theorem foldl_isSome {f : Option B → A → Option B} (stays : ∀ b y, (f (some b) y).isSome = true)
    (taken : ∀ best, (f best x).isSome = true) (member : x ∈ xs) (best : Option B) :
    (xs.foldl f best).isSome = true := by
  have kept : ∀ (ys : List A) (best : Option B), best.isSome = true → (ys.foldl f best).isSome = true := by
    intro ys
    induction ys with
    | nil => exact fun best found => found
    | cons y rest ih =>
      intro best found
      obtain ⟨b, rfl⟩ := Option.isSome_iff_exists.mp found
      exact ih _ (stays b y)
  obtain ⟨pre, post, rfl⟩ := List.append_of_mem member
  rw [List.foldl_append, List.foldl_cons]
  exact kept post _ (taken _)

/-- A loop invariant that may use which elements have been visited. -/
theorem foldl_invariant (inv : List A → S → Prop) (f : S → A → S) (xs : List A) (s : S)
    (start : inv [] s)
    (keep : ∀ seen x t, (seen ++ [x]) <+: xs → inv seen t → inv (seen ++ [x]) (f t x)) :
    inv xs (xs.foldl f s) := by
  have loop : ∀ seen rest t, seen ++ rest = xs → inv seen t → inv xs (rest.foldl f t) := by
    intro seen rest
    induction rest generalizing seen with
    | nil =>
      intro t all h
      rw [List.append_nil] at all
      exact all ▸ h
    | cons x rest ih =>
      intro t all h
      have split : (seen ++ [x]) ++ rest = xs := by rw [← all, List.append_assoc, List.singleton_append]
      exact ih (seen ++ [x]) (f t x) split (keep seen x t ⟨rest, split⟩ h)
  exact loop [] xs s rfl start

/-- What each turn of a loop keeps between the states before and after it, the loop keeps. -/
theorem foldl_related {rel : S → S → Prop} (refl : ∀ s, rel s s) (trans : ∀ {s t u}, rel s t → rel t u → rel s u)
    {f : S → A → S} (one : ∀ s a, rel s (f s a)) (xs : List A) (s : S) : rel s (xs.foldl f s) := by
  induction xs generalizing s with
  | nil => exact refl s
  | cons a rest ih => exact trans (one s a) (ih _)

theorem exists_map_some {xs : List (Option A)} (all : ∀ x ∈ xs, x.isSome = true) :
    ∃ ys : List A, xs = ys.map some := by
  induction xs with
  | nil => exact ⟨[], rfl⟩
  | cons x rest ih =>
    obtain ⟨y, rfl⟩ := Option.isSome_iff_exists.mp (all x (List.mem_cons_self ..))
    obtain ⟨ys, rfl⟩ := ih fun z member => all z (List.mem_cons_of_mem _ member)
    exact ⟨y :: ys, rfl⟩

theorem mapM_ok {A B E : Type} (f : A → Except E B) {xs : List A} (each : ∀ x ∈ xs, ∃ y, f x = .ok y) :
    ∃ ys, xs.mapM f = .ok ys ∧ ys.length = xs.length ∧
      ∀ (i : Nat) x y, xs[i]? = some x → ys[i]? = some y → f x = .ok y := by
  induction xs with
  | nil => exact ⟨[], rfl, rfl, by simp⟩
  | cons x rest ih =>
    obtain ⟨y, here⟩ := each x (List.mem_cons_self ..)
    obtain ⟨ys, mapped, length, found⟩ := ih fun z member => each z (List.mem_cons_of_mem _ member)
    refine ⟨y :: ys, ?_, by simp [length], fun i a b => ?_⟩
    · rw [List.mapM_cons, here]
      simp only [bind, Except.bind, mapped, pure, Except.pure]
    · cases i with
      | zero =>
        intro first second
        cases first
        cases second
        exact here
      | succ i => exact found i a b

theorem of_guard_eq_some {p : Prop} [Decidable p] {u : Unit}
    (h : (guard p : Option Unit) = some u) : p := by
  by_contra no
  rw [guard, if_neg no] at h
  cases h

theorem countP_modify (p : A → Bool) (xs : List A) (i : Nat) (f : A → A) (a : A)
    (found : xs[i]? = some a) :
    (xs.modify i f).countP p + (if p a then 1 else 0) = xs.countP p + (if p (f a) then 1 else 0) := by
  induction xs generalizing i with
  | nil => cases found
  | cons x rest ih =>
    cases i with
    | zero =>
      simp only [List.getElem?_cons_zero, Option.some.injEq] at found
      subst found
      simp only [List.modify_zero_cons, List.countP_cons]
      omega
    | succ i =>
      have h := ih i (by simpa using found)
      simp only [List.modify_succ_cons, List.countP_cons]
      omega

theorem countP_or (p q : A → Bool) (xs : List A) (apart : ∀ a ∈ xs, p a = true → q a = false) :
    xs.countP (fun a => p a || q a) = xs.countP p + xs.countP q := by
  induction xs with
  | nil => rfl
  | cons x rest ih =>
    have h := ih fun a ha => apart a (List.mem_cons_of_mem _ ha)
    have hx := apart x (List.mem_cons_self ..)
    simp only [List.countP_cons, h]
    cases hp : p x <;> cases hq : q x <;> simp_all <;> omega

theorem countP_range (p : A → Bool) {n : Nat} (enough : xs.length ≤ n) :
    xs.countP p = (List.range n).countP fun i => (xs[i]?).any p := by
  induction xs generalizing n with
  | nil => simp
  | cons x rest ih =>
    cases n with
    | zero => cases enough
    | succ n =>
      rw [List.range_succ_eq_map, List.countP_cons, List.countP_cons, List.countP_map, ih (Nat.le_of_succ_le_succ enough)]
      rfl

theorem countP_missed (p : A → Bool) (xs : List A) {seen : List Nat} (nodup : seen.Nodup)
    (range : ∀ i ∈ seen, i < xs.length) :
    seen.countP (fun i => !(xs[i]?).any p) + xs.countP p ≤ xs.length := by
  have inside : seen.Subperm (List.range xs.length) :=
    List.subperm_of_subset nodup fun i member => List.mem_range.mpr (range i member)
  have fewer := inside.countP_le fun i => !(xs[i]?).any p
  have split := List.length_eq_countP_add_countP (fun i => (xs[i]?).any p) (l := List.range xs.length)
  rw [List.length_range, ← countP_range p (Nat.le_refl _)] at split
  simp only [Bool.not_eq_true, Bool.decide_eq_false] at split
  omega

theorem sum_map_set (f : A → Nat) (xs : List A) (i : Nat) (y a : A) (found : xs[i]? = some a) :
    ((xs.set i y).map f).sum + f a = (xs.map f).sum + f y := by
  induction xs generalizing i with
  | nil => cases found
  | cons x rest ih =>
    cases i with
    | zero =>
      simp only [List.getElem?_cons_zero, Option.some.injEq] at found
      subst found
      simp only [List.set_cons_zero, List.map_cons, List.sum_cons]
      omega
    | succ i =>
      have h := ih i (by simpa using found)
      simp only [List.set_cons_succ, List.map_cons, List.sum_cons]
      omega

theorem getD_set (xs : List A) (i j : Nat) (a d : A) (lt : i < xs.length) :
    (xs.set i a).getD j d = if i = j then a else xs.getD j d := by
  rw [List.getD_eq_getElem?_getD, List.getElem?_set, List.getD_eq_getElem?_getD]
  by_cases same : i = j
  · subst same
    simp [lt]
  · simp [same]

theorem foldl_max_eq {xs : List Nat} {a m : Nat} (above : ∀ x ∈ xs, x ≤ m) (start : a ≤ m) (reached : m = a ∨ m ∈ xs) :
    xs.foldl max a = m := by
  induction xs generalizing a with
  | nil => exact (reached.resolve_right (by simp)).symm
  | cons x rest ih =>
    have first := above x (List.mem_cons_self ..)
    refine ih (fun y member => above y (List.mem_cons_of_mem _ member)) (Nat.max_le.mpr ⟨start, first⟩) ?_
    rcases reached with same | member
    · exact .inl (by omega)
    · rcases List.mem_cons.mp member with same | later
      · exact .inl (by omega)
      · exact .inr later

theorem countP_le_sum_map (p : A → Bool) (f : A → Nat) (each : ∀ x ∈ xs, p x = true → 1 ≤ f x) :
    xs.countP p ≤ (xs.map f).sum := by
  induction xs with
  | nil => simp
  | cons x rest ih =>
    have tail := ih fun y member => each y (List.mem_cons_of_mem _ member)
    rw [List.countP_cons, List.map_cons, List.sum_cons]
    split
    · have head := each x (List.mem_cons_self ..) ‹_›
      omega
    · omega

theorem sum_map_drop {f g : A → Nat} (less : ∀ x, g x ≤ f x) (member : x ∈ xs) {k : Nat}
    (drop : g x + k ≤ f x) : (xs.map g).sum + k ≤ (xs.map f).sum := by
  induction xs with
  | nil => cases member
  | cons y rest ih =>
    rw [List.map_cons, List.map_cons, List.sum_cons, List.sum_cons]
    have rest_le : (rest.map g).sum ≤ (rest.map f).sum := List.sum_le_sum fun z _ => less z
    rcases List.mem_cons.mp member with rfl | member
    · omega
    · have tail := ih member
      have head := less y
      omega

theorem filterMap_map_some {C : Type*} {f : A → B} {g : B → Option C} {h : A → C} (each : ∀ x, g (f x) = some (h x))
    (xs : List A) : (xs.map f).filterMap g = xs.map h := by
  induction xs with
  | nil => rfl
  | cons x rest ih => simp [each, ih]

theorem count_filterMap {C : Type*} [BEq C] [LawfulBEq C] [DecidableEq C] (g : A → Option C) (c : C) (xs : List A) :
    (xs.filterMap g).count c = (xs.filter (g · = some c)).length := by
  induction xs with
  | nil => rfl
  | cons x rest ih =>
    rw [List.filterMap_cons, List.filter_cons]
    cases found : g x with
    | none => simp [ih]
    | some d =>
      by_cases same : d = c
      · simp [same, ih]
      · simp [same, ih]

theorem mem_set_of_ne {i : Nat} {y z : A} (found : xs[i]? = some x) (other : y ≠ x) (member : y ∈ xs) :
    y ∈ xs.set i z := by
  obtain ⟨j, here⟩ := List.mem_iff_getElem?.mp member
  have apart : i ≠ j := by
    rintro rfl
    exact other (Option.some.inj (here.symm.trans found))
  exact List.mem_of_getElem? ((List.getElem?_set_ne apart).trans here)

theorem countP_add_one {p q : A → Bool} (nodup : xs.Nodup) (member : x ∈ xs) (off : p x = false)
    (on : q x = true) (others : ∀ y, y ≠ x → q y = p y) : xs.countP q = xs.countP p + 1 := by
  induction xs with
  | nil => cases member
  | cons y rest ih =>
    obtain ⟨fresh, nodup⟩ := List.nodup_cons.mp nodup
    rw [List.countP_cons, List.countP_cons]
    rcases List.mem_cons.mp member with rfl | member
    · have same : rest.countP q = rest.countP p := by
        refine List.countP_congr fun z inside => ?_
        rw [others z (fun alike => fresh (alike ▸ inside))]
      simp [same, off, on]
    · have other : y ≠ x := fun alike => fresh (alike ▸ member)
      rw [ih nodup member, others y other]
      omega

theorem lookup_eq_some_of_nodup {K V : Type*} [BEq K] [LawfulBEq K] {xs : List (K × V)} (nodup : (xs.map Prod.fst).Nodup)
    {k : K} {v : V} : xs.lookup k = some v ↔ (k, v) ∈ xs := by
  rw [List.lookup_eq_some_iff]
  constructor
  · rintro ⟨before, after, rfl, -⟩
    simp
  · intro member
    obtain ⟨before, after, rfl⟩ := List.append_of_mem member
    refine ⟨before, after, rfl, fun e earlier => bne_iff_ne.mpr fun same => ?_⟩
    rw [List.map_append, List.map_cons] at nodup
    have apart := (List.nodup_append.mp nodup).2.2
    exact apart e.1 (List.mem_map_of_mem earlier) k (List.mem_cons_self ..) same.symm

theorem exists_common_bound {P : A → Nat → Prop} (xs : List A) (each : ∀ x ∈ xs, ∃ n, ∀ m, n ≤ m → P x m) :
    ∃ n, ∀ x ∈ xs, ∀ m, n ≤ m → P x m := by
  induction xs with
  | nil => exact ⟨0, fun x member => nomatch member⟩
  | cons x xs ih =>
    obtain ⟨here, rest⟩ := List.forall_mem_cons.mp each
    obtain ⟨n, first⟩ := here
    obtain ⟨k, later⟩ := ih rest
    refine ⟨max n k, List.forall_mem_cons.mpr ⟨fun m le => first m ?_, fun y member m le => later y member m ?_⟩⟩
    · exact Nat.le_trans (Nat.le_max_left n k) le
    · exact Nat.le_trans (Nat.le_max_right n k) le

end Hoverfly.Lib
