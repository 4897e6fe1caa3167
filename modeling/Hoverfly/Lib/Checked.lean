import Hoverfly.Lib.Word

/-! Computations that can panic: machine additions and shifts that may overflow, and
accesses that may leave a slice. `Safe` is the rule of pre- and postconditions for them. -/
namespace Hoverfly.Lib

theorem bind_ok {E A B : Type} {r : Except E A} {f : A → Except E B} {b : B} (out : r >>= f = .ok b) :
    ∃ a, r = .ok a ∧ f a = .ok b := by
  cases r with
  | error e => exact nomatch out
  | ok a => exact ⟨a, rfl, out⟩

theorem mapError_ok {E F A : Type} {r : Except E A} {f : E → F} {a : A} (out : r.mapError f = .ok a) : r = .ok a := by
  cases r with
  | error e => exact nomatch out
  | ok b =>
    cases out
    rfl

theorem mapM_after_cons {A B E : Type} {f : A → Except E B} {a : A} {b : B} (ok : f a = .ok b)
    (out : Except E (List A)) :
    (out.map (a :: ·) >>= (·.mapM f)) = (out >>= (·.mapM f)).map (b :: ·) := by
  cases out with
  | error e => rfl
  | ok rest =>
    change (a :: rest).mapM f = (rest.mapM f).map (b :: ·)
    rw [List.mapM_cons, ok]
    cases rest.mapM f <;> rfl

inductive Panic where
  | overflow
  | outOfBounds
deriving DecidableEq

inductive Stop (E : Type) where
  | panic (p : Panic)
  | error (e : E)
deriving DecidableEq

abbrev Checked (E A : Type) := Except (Stop E) A

namespace Checked

variable {E A B : Type} {P : A → Prop} {Q : B → Prop}

def fail (e : E) : Checked E A := .error (.error e)

def add (w a b : Nat) : Checked E Nat := if a + b < 2 ^ w then .ok (a + b) else .error (.panic .overflow)

def mul (w a b : Nat) : Checked E Nat := if a * b < 2 ^ w then .ok (a * b) else .error (.panic .overflow)

/-- A word shifted left: the bits that leave it are lost, and a shift by its size or more panics. -/
def shl (w a n : Nat) : Checked E Nat := if n < w then .ok (a * 2 ^ n % 2 ^ w) else .error (.panic .overflow)

def index (xs : List A) (i : Nat) : Checked E A :=
  match xs[i]? with
  | some x => .ok x
  | none => .error (.panic .outOfBounds)

def slice (xs : List A) (start stop : Nat) : Checked E (List A) :=
  if start ≤ stop ∧ stop ≤ xs.length then .ok ((xs.take stop).drop start) else .error (.panic .outOfBounds)

/-- `copy_from_slice` into an array, which panics when the lengths differ. -/
def array (n : Nat) (xs : List UInt8) : Checked E (Bytes n) :=
  if h : xs.length = n then .ok ⟨xs, h⟩ else .error (.panic .outOfBounds)

variable {w a b : Nat} {xs : List A} {r : Checked E A}

theorem add_ok (fits : a + b < 2 ^ w) : (add w a b : Checked E Nat) = .ok (a + b) := if_pos fits

theorem mul_ok (fits : a * b < 2 ^ w) : (mul w a b : Checked E Nat) = .ok (a * b) := if_pos fits

theorem eq_of_add_ok {c : Nat} (out : (add w a b : Checked E Nat) = .ok c) : a + b < 2 ^ w ∧ c = a + b := by
  unfold add at out
  split at out
  · cases out
    exact ⟨‹_›, rfl⟩
  · cases out

theorem eq_of_mul_ok {c : Nat} (out : (mul w a b : Checked E Nat) = .ok c) : a * b < 2 ^ w ∧ c = a * b := by
  unfold mul at out
  split at out
  · cases out
    exact ⟨‹_›, rfl⟩
  · cases out

theorem slice_ok {start stop : Nat} (ordered : start ≤ stop) (inside : stop ≤ xs.length) :
    (slice xs start stop : Checked E (List A)) = .ok ((xs.take stop).drop start) :=
  if_pos ⟨ordered, inside⟩

/-- No panic, and every value satisfies `P`. -/
def Safe (r : Checked E A) (P : A → Prop) : Prop :=
  match r with
  | .ok a => P a
  | .error (.error _) => True
  | .error (.panic _) => False

theorem Safe.fail (e : E) : Safe (Checked.fail e : Checked E A) P := trivial

theorem Safe.ok {a : A} (holds : P a) : Safe (.ok a : Checked E A) P := holds

theorem Safe.bind {f : A → Checked E B} (first : Safe r P) (next : ∀ a, P a → Safe (f a) Q) :
    Safe (r >>= f) Q := by
  match r, first with
  | .ok a, holds => exact next a holds
  | .error (.error _), _ => trivial

theorem Safe.ite {c : Prop} [Decidable c] {s : Checked E A} (yes : c → Safe r P) (no : ¬c → Safe s P) :
    Safe (if c then r else s) P := by
  split
  · exact yes ‹c›
  · exact no ‹¬c›

theorem Safe.add (fits : a + b < 2 ^ w) : Safe (Checked.add w a b : Checked E Nat) (· = a + b) := by
  rw [add_ok fits]
  exact .ok rfl

theorem Safe.index {i : Nat} (inside : i < xs.length) :
    Safe (Checked.index xs i : Checked E A) fun x => xs[i]? = some x := by
  unfold Checked.index
  rw [List.getElem?_eq_getElem inside]
  exact .ok rfl

theorem Safe.slice {start stop : Nat} (ordered : start ≤ stop) (inside : stop ≤ xs.length) :
    Safe (Checked.slice xs start stop : Checked E (List A)) fun ys => ys.length = stop - start := by
  rw [slice_ok ordered inside]
  refine .ok ?_
  rw [List.length_drop, List.length_take, Nat.min_eq_left inside]

theorem Safe.array {n : Nat} {xs : List UInt8} (sized : xs.length = n) :
    Safe (Checked.array n xs : Checked E (Bytes n)) fun _ => True := by
  unfold Checked.array
  rw [dif_pos sized]
  exact .ok trivial

theorem Safe.not_panic (safe : Safe r P) (p : Panic) : r ≠ .error (.panic p) := by
  rintro rfl
  exact safe

theorem Safe.of_ok (safe : Safe r P) {a : A} (out : r = .ok a) : P a := by
  subst out
  exact safe

end Checked

end Hoverfly.Lib
