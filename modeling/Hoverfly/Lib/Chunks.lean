import Mathlib.Data.List.Basic
import Mathlib.Tactic.Ring

/-! A list cut into pieces of one size, the last of which may be shorter. -/
namespace Hoverfly.Lib

variable {A B : Type*}

def chunksFrom (n : Nat) : Nat → List A → List (List A)
  | 0, _ => []
  | _ + 1, [] => []
  | fuel + 1, x :: xs => (x :: xs).take n :: chunksFrom n fuel ((x :: xs).drop n)

def chunks (n : Nat) (xs : List A) : List (List A) := chunksFrom n xs.length xs

@[simp] theorem chunks_nil (n : Nat) : chunks n ([] : List A) = [] := rfl

variable {n c : Nat} {xs : List A}

theorem chunksFrom_fuel (pos : 0 < n) {fuel other : Nat} (enough : xs.length ≤ fuel)
    (enough' : xs.length ≤ other) : chunksFrom n fuel xs = chunksFrom n other xs := by
  induction fuel generalizing other xs with
  | zero =>
    rw [List.length_eq_zero_iff.mp (Nat.le_zero.mp enough)]
    cases other <;> rfl
  | succ fuel ih =>
    cases xs with
    | nil => cases other <;> rfl
    | cons x xs =>
      obtain ⟨other, rfl⟩ : ∃ m, other = m + 1 := ⟨other - 1, by simp at enough'; omega⟩
      have shorter : ((x :: xs).drop n).length ≤ xs.length := by
        simp only [List.length_drop, List.length_cons]
        omega
      simp only [List.length_cons] at enough enough'
      have same : chunksFrom n fuel ((x :: xs).drop n) = chunksFrom n other ((x :: xs).drop n) :=
        ih (by omega) (by omega)
      rw [chunksFrom, chunksFrom, same]

theorem chunks_eq (pos : 0 < n) (some_ : xs ≠ []) :
    chunks n xs = xs.take n :: chunks n (xs.drop n) := by
  cases xs with
  | nil => exact absurd rfl some_
  | cons x xs =>
    have shorter : ((x :: xs).drop n).length ≤ xs.length := by
      simp only [List.length_drop, List.length_cons]
      omega
    exact congrArg _ (chunksFrom_fuel pos shorter (Nat.le_refl _))

theorem chunks_append (pos : 0 < n) {g : List A} (full : g.length = n) (rest : List A) :
    chunks n (g ++ rest) = g :: chunks n rest := by
  have some_ : g ++ rest ≠ [] := by
    intro none_
    have length := congrArg List.length none_
    rw [List.length_append, List.length_nil] at length
    omega
  rw [chunks_eq pos some_, List.take_left' full, List.drop_left' full]

theorem chunks_short (some_ : xs ≠ []) (short : xs.length ≤ n) : chunks n xs = [xs] := by
  have length := List.length_pos_iff.mpr some_
  rw [chunks_eq (by omega) some_, List.take_of_length_le short, List.drop_of_length_le short, chunks_nil]

theorem chunks_induction (pos : 0 < n) (P : List A → Prop) (nil : P [])
    (more : ∀ xs, xs ≠ [] → P (xs.drop n) → P xs) (xs : List A) : P xs := by
  generalize len : xs.length = m
  induction m using Nat.strong_induction_on generalizing xs with
  | _ m ih =>
    by_cases none_ : xs = []
    · rw [none_]
      exact nil
    · have length := List.length_pos_iff.mpr none_
      exact more xs none_ (ih (xs.drop n).length (by rw [List.length_drop]; omega) _ rfl)

theorem flatten_chunks (pos : 0 < n) (xs : List A) : (chunks n xs).flatten = xs := by
  induction xs using chunks_induction pos with
  | nil => rfl
  | more xs some_ ih => rw [chunks_eq pos some_, List.flatten_cons, ih, List.take_append_drop]

theorem mem_chunks (pos : 0 < n) {g : List A} (member : g ∈ chunks n xs) :
    g ≠ [] ∧ g.length ≤ n := by
  induction xs using chunks_induction pos with
  | nil => cases member
  | more xs some_ ih =>
    rw [chunks_eq pos some_] at member
    rcases List.mem_cons.mp member with rfl | later
    · have length := List.length_pos_iff.mpr some_
      refine ⟨List.length_pos_iff.mp ?_, ?_⟩ <;> rw [List.length_take] <;> omega
    · exact ih later

theorem length_chunks (pos : 0 < n) (xs : List A) :
    xs.length ≤ n * (chunks n xs).length ∧ (xs ≠ [] → n * (chunks n xs).length < xs.length + n) := by
  induction xs using chunks_induction pos with
  | nil => simp
  | more xs some_ ih =>
    have length := List.length_pos_iff.mpr some_
    rw [chunks_eq pos some_, List.length_cons, Nat.mul_succ]
    rw [List.length_drop] at ih
    refine ⟨by omega, fun _ => ?_⟩
    by_cases last : xs.drop n = []
    · rw [last, chunks_nil, List.length_nil]
      omega
    · have room := ih.2 last
      have left := List.length_pos_iff.mpr last
      rw [List.length_drop] at left
      omega

theorem length_chunks_le {k : Nat} (pos : 0 < n) (short : xs.length ≤ n * k) :
    (chunks n xs).length ≤ k := by
  by_cases none_ : xs = []
  · rw [none_]
    exact Nat.zero_le _
  · have bound := (length_chunks pos xs).2 none_
    by_contra more
    have : n * (k + 1) ≤ n * (chunks n xs).length := Nat.mul_le_mul_left _ (by omega)
    rw [Nat.mul_succ] at this
    omega

theorem chunks_ne_nil (pos : 0 < n) (some_ : xs ≠ []) : chunks n xs ≠ [] := by
  rw [chunks_eq pos some_]
  exact List.cons_ne_nil _ _

theorem take_chunks (pos : 0 < c) (k : Nat) (xs : List A) :
    (chunks c xs).take k = chunks c (xs.take (c * k)) := by
  induction k generalizing xs with
  | zero => simp
  | succ k ih =>
    by_cases none_ : xs = []
    · simp [none_]
    · have some_ : xs.take (c * (k + 1)) ≠ [] := by
        simp only [ne_eq, List.take_eq_nil_iff, not_or]
        exact ⟨Nat.mul_ne_zero (by omega) (by omega), none_⟩
      rw [chunks_eq pos none_, chunks_eq pos some_, List.take_succ_cons, ih, List.take_take, List.drop_take]
      have le : c ≤ c * (k + 1) := Nat.le_mul_of_pos_right _ (by omega)
      rw [Nat.min_eq_left le, Nat.mul_succ, Nat.add_sub_cancel]

theorem drop_chunks (pos : 0 < c) (k : Nat) (xs : List A) :
    (chunks c xs).drop k = chunks c (xs.drop (c * k)) := by
  induction k generalizing xs with
  | zero => simp
  | succ k ih =>
    by_cases none_ : xs = []
    · simp [none_]
    · rw [chunks_eq pos none_, List.drop_succ_cons, ih, List.drop_drop, Nat.mul_succ, Nat.add_comm]

theorem chunks_chunks {b : Nat} (hb : 0 < b) (hc : 0 < c) (xs : List A) :
    chunks b (chunks c xs) = (chunks (c * b) xs).map (chunks c) := by
  have pos : 0 < c * b := Nat.mul_pos hc hb
  induction xs using chunks_induction pos with
  | nil => rfl
  | more xs some_ ih =>
    rw [chunks_eq hb (chunks_ne_nil hc some_), take_chunks hc, drop_chunks hc, ih, chunks_eq pos some_,
      List.map_cons]

theorem chunks_replicate (pos : 0 < n) (k : Nat) (a : A) :
    chunks n (List.replicate (n * k) a) = List.replicate k (List.replicate n a) := by
  induction k with
  | zero => rfl
  | succ k ih =>
    rw [Nat.mul_succ, Nat.add_comm, List.replicate_add, chunks_append pos List.length_replicate, ih,
      List.replicate_succ]

theorem map_chunks (pos : 0 < n) (f : A → B) (xs : List A) :
    (chunks n xs).map (List.map f) = chunks n (xs.map f) := by
  induction xs using chunks_induction pos with
  | nil => rfl
  | more xs some_ ih =>
    have there : xs.map f ≠ [] := by simpa using some_
    rw [chunks_eq pos some_, chunks_eq pos there, List.map_cons, ih, List.map_take, List.map_drop]

end Hoverfly.Lib
