import Mathlib.Data.List.Basic

/-! Runs of a deterministic step function over a list of inputs, and what a condition on single steps gives of a
whole run. -/
namespace Hoverfly.Lib

variable {S A : Type*}

def run (step : S → A → S) : S → List A → S
  | s, [] => s
  | s, a :: rest => run step (step s a) rest

/-- Every input of the list meets `ok` in the state it is applied to. -/
def Along (ok : S → A → Prop) (step : S → A → S) : S → List A → Prop
  | _, [] => True
  | s, a :: rest => ok s a ∧ Along ok step (step s a) rest

instance instDecidableAlong (ok : S → A → Prop) (step : S → A → S) [∀ s a, Decidable (ok s a)] :
    (s : S) → (xs : List A) → Decidable (Along ok step s xs)
  | _, [] => isTrue trivial
  | s, a :: rest =>
    haveI : Decidable (Along ok step (step s a) rest) := instDecidableAlong ok step (step s a) rest
    inferInstanceAs (Decidable (ok s a ∧ Along ok step (step s a) rest))

@[simp] theorem run_nil (step : S → A → S) (s : S) : run step s [] = s := rfl

@[simp] theorem run_cons (step : S → A → S) (s : S) (a : A) (rest : List A) :
    run step s (a :: rest) = run step (step s a) rest := rfl

theorem run_append (step : S → A → S) (s : S) (xs ys : List A) :
    run step s (xs ++ ys) = run step (run step s xs) ys := by
  induction xs generalizing s with
  | nil => rfl
  | cons a rest ih => exact ih (step s a)

theorem along_append (ok : S → A → Prop) (step : S → A → S) (s : S) (xs ys : List A) :
    Along ok step s (xs ++ ys) ↔ Along ok step s xs ∧ Along ok step (run step s xs) ys := by
  induction xs generalizing s with
  | nil => simp [Along]
  | cons a rest ih => simp [Along, ih, and_assoc]

theorem along_and (p q : S → A → Prop) (step : S → A → S) (s : S) (xs : List A) :
    Along (fun t a => p t a ∧ q t a) step s xs ↔ Along p step s xs ∧ Along q step s xs := by
  induction xs generalizing s with
  | nil => simp [Along]
  | cons a rest ih =>
    simp only [Along, ih]
    constructor
    · rintro ⟨⟨hp, hq⟩, hps, hqs⟩
      exact ⟨⟨hp, hps⟩, hq, hqs⟩
    · rintro ⟨⟨hp, hps⟩, hq, hqs⟩
      exact ⟨⟨hp, hq⟩, hps, hqs⟩

theorem invariant_along (inv : S → Prop) (ok : S → A → Prop) (step : S → A → S)
    (keep : ∀ s a, inv s → ok s a → inv (step s a)) (s : S) (xs : List A)
    (start : inv s) (met : Along ok step s xs) : inv (run step s xs) := by
  induction xs generalizing s with
  | nil => exact start
  | cons a rest ih => exact ih (step s a) (keep s a start met.1) met.2

variable {step : S → A → S}

/-- What an invariant gives of a step that meets `ok`, it gives all along a run whose steps do. -/
theorem along_of_invariant {inv : S → Prop} {ok goal : S → A → Prop}
    (keep : ∀ s a, inv s → ok s a → inv (step s a)) (gives : ∀ s a, inv s → ok s a → goal s a) {s : S} (xs : List A)
    (start : inv s) (met : Along ok step s xs) : Along goal step s xs := by
  induction xs generalizing s with
  | nil => trivial
  | cons a rest ih => exact ⟨gives s a start met.1, ih (keep s a start met.1) met.2⟩

theorem run_invariant (inv : S → Prop) (step : S → A → S)
    (keep : ∀ s a, inv s → inv (step s a)) (s : S) (xs : List A) (start : inv s) :
    inv (run step s xs) := by
  induction xs generalizing s with
  | nil => exact start
  | cons a rest ih => exact ih (step s a) (keep s a start)

theorem reached_iff_along {inv : S → Prop} {ok : S → A → Prop}
    (exact_ : ∀ s a, inv s → (inv (step s a) ↔ ok s a)) {s : S} (start : inv s) (xs : List A) :
    (∀ pre, pre <+: xs → inv (run step s pre)) ↔ Along ok step s xs := by
  induction xs generalizing s with
  | nil => simpa [Along] using start
  | cons a rest ih =>
    constructor
    · intro all
      have next : inv (step s a) := all [a] (by simp)
      refine ⟨(exact_ s a start).mp next, (ih next).mp fun pre within => ?_⟩
      exact all (a :: pre) (by simpa using within)
    · rintro ⟨met, rest_met⟩ pre within
      cases pre with
      | nil => exact start
      | cons b pre =>
        obtain ⟨rfl, inside⟩ := List.cons_prefix_cons.mp within
        exact (ih ((exact_ s b start).mpr met)).mpr rest_met pre inside

def tally (p : S → A → Bool) (step : S → A → S) : S → List A → Nat
  | _, [] => 0
  | s, a :: rest => (p s a).toNat + tally p step (step s a) rest

theorem tally_eq_zero {p : S → A → Bool} {xs : List A} (none_ : ∀ s, ∀ a ∈ xs, p s a = false) (s : S) :
    tally p step s xs = 0 := by
  induction xs generalizing s with
  | nil => rfl
  | cons a rest ih =>
    rw [tally, none_ s a (List.mem_cons_self ..), ih fun s b member => none_ s b (List.mem_cons_of_mem _ member)]
    rfl

theorem run_related (rel : S → S → Prop) (inv : S → Prop) (step : S → A → S)
    (refl : ∀ s, rel s s) (trans : ∀ s t u, rel s t → rel t u → rel s u)
    (keep : ∀ s a, inv s → inv (step s a)) (one : ∀ s a, inv s → rel s (step s a))
    (s : S) (xs : List A) (start : inv s) : rel s (run step s xs) := by
  induction xs generalizing s with
  | nil => exact refl s
  | cons a rest ih => exact trans _ _ _ (one s a start) (ih (step s a) (keep s a start))

end Hoverfly.Lib
