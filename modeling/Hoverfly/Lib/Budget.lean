import Mathlib.Algebra.Order.Field.Basic
import Mathlib.Tactic.Linarith
import Mathlib.Tactic.Ring
import Hoverfly.Lib.Run

/-! Budgets that refill with time: what a process takes over any window is bounded by the bucket's size and what the
window adds. -/
namespace Hoverfly.Lib

variable {K : Type*} [Field K] [LinearOrder K] [IsStrictOrderedRing K]

def fill (burst tokens gain : K) : K := min (tokens + gain) burst

omit [IsStrictOrderedRing K] in
theorem fill_le_burst (burst tokens gain : K) : fill burst tokens gain ≤ burst := min_le_right _ _

omit [IsStrictOrderedRing K] in
theorem fill_le_add (burst tokens gain : K) : fill burst tokens gain ≤ tokens + gain := min_le_left _ _

variable {burst : K}

theorem fill_fill {gain' : K} (tokens gain : K) (more : 0 ≤ gain') :
    fill burst (fill burst tokens gain) gain' = fill burst tokens (gain + gain') := by
  unfold fill
  rcases le_total (tokens + gain) burst with fits | full
  · rw [min_eq_left fits, add_assoc]
  · rw [min_eq_right full, min_eq_right (by linarith), min_eq_right (by linarith)]

theorem fill_mono {a b : K} (gain : K) (le : a ≤ b) : fill burst a gain ≤ fill burst b gain :=
  min_le_min_right _ (by linarith)

theorem fill_full {tokens gain : K} (full : burst ≤ tokens) (more : 0 ≤ gain) : fill burst tokens gain = burst :=
  min_eq_right (by linarith)

theorem fill_nonneg {tokens gain : K} (size : 0 ≤ burst) (some_ : 0 ≤ tokens) (more : 0 ≤ gain) :
    0 ≤ fill burst tokens gain := le_min (by linarith) size

variable {S A : Type*}

/-- What a step may do to a budget. `upTo s c` says that `s` was reached at time `c`, and `level s t` is what
there is to spend at `t` if nothing happens before. -/
structure Budget (step : S → A → S) (time : A → Nat) (spends : S → A → Bool) (upTo : S → Nat → Prop)
    (level : S → Nat → K) (perTick : K) : Prop where
  keep : ∀ {s c a}, upTo s c → c ≤ time a → upTo (step s a) (time a)
  nonneg : ∀ {s c t}, upTo s c → c ≤ t → 0 ≤ level s t
  grows : ∀ {s c t u}, upTo s c → c ≤ t → t ≤ u → level s u ≤ level s t + ((u - t : Nat) : K) * perTick
  lower : ∀ {s c a u}, upTo s c → c ≤ time a → time a ≤ u → level (step s a) u ≤ level s u
  spend : ∀ {s c a}, upTo s c → c ≤ time a → spends s a = true → level (step s a) (time a) + 1 ≤ level s (time a)

namespace Budget

variable {step : S → A → S} {time : A → Nat} {spends : S → A → Bool} {upTo : S → Nat → Prop} {level : S → Nat → K}
  {perTick : K}

theorem spent_le (budget : Budget step time spends upTo level perTick) {s : S} {c : Nat} {a : A} (now : upTo s c)
    (after : c ≤ time a) : ((spends s a).toNat : K) + level (step s a) (time a) ≤ level s (time a) := by
  cases spent : spends s a with
  | false => simpa using budget.lower now after (Nat.le_refl _)
  | true =>
    have taken := budget.spend now after spent
    simp only [Bool.toNat_true, Nat.cast_one]
    linarith

/-- What the inputs of a window take is bounded by the level when it opens and the gain until it closes. -/
theorem window (budget : Budget step time spends upTo level perTick) (gains : 0 ≤ perTick) (lo hi : Nat) {xs : List A}
    (ordered : (xs.map time).Pairwise (· ≤ ·)) {s : S} {c : Nat} (now : upTo s c) (after : ∀ a ∈ xs, c ≤ time a) :
    (tally (fun s a => decide (lo ≤ time a ∧ time a ≤ hi) && spends s a) step s xs : K) ≤
      level s (max lo c) + ((hi - max lo c : Nat) : K) * perTick := by
  -- the induction is on the inputs still to come; the window opens at `lo` or has been open for a while
  induction xs generalizing s c with
  | nil =>
    have some_ := budget.nonneg now (Nat.le_max_right lo c)
    have gain : 0 ≤ ((hi - max lo c : Nat) : K) * perTick := mul_nonneg (Nat.cast_nonneg _) gains
    simp only [tally, Nat.cast_zero]
    linarith
  | cons a rest ih =>
    obtain ⟨first, ordered⟩ := List.pairwise_cons.mp ordered
    have here := after a (List.mem_cons_self ..)
    have later := ih ordered (budget.keep now here) fun b member => first _ (List.mem_map_of_mem member)
    by_cases closed : hi < time a
    · -- nothing from here on is in the window
      have none_ : ∀ (s : S), ∀ b ∈ a :: rest,
          (decide (lo ≤ time b ∧ time b ≤ hi) && spends s b) = false := by
        intro s b member
        have late : hi < time b := by
          rcases List.mem_cons.mp member with rfl | member
          · exact closed
          · exact Nat.lt_of_lt_of_le closed (first _ (List.mem_map_of_mem member))
        simp [Nat.not_le.mpr late]
      have some_ := budget.nonneg now (Nat.le_max_right lo c)
      have gain : 0 ≤ ((hi - max lo c : Nat) : K) * perTick := mul_nonneg (Nat.cast_nonneg _) gains
      rw [tally_eq_zero none_, Nat.cast_zero]
      linarith
    · rw [tally, Nat.cast_add]
      by_cases early : time a < lo
      · have outside : (decide (lo ≤ time a ∧ time a ≤ hi) && spends s a) = false := by
          simp [Nat.not_le.mpr early]
        have fell := budget.lower (u := lo) now here (Nat.le_of_lt early)
        rw [Nat.max_eq_left (Nat.le_of_lt early)] at later
        rw [outside, Nat.max_eq_left (Nat.le_trans here (Nat.le_of_lt early)), Bool.toNat_false, Nat.cast_zero]
        linarith
      · have inside : (decide (lo ≤ time a ∧ time a ≤ hi) && spends s a) = spends s a := by
          simp [Nat.not_lt.mp early, Nat.not_lt.mp closed]
        have opened : max lo c ≤ time a := Nat.max_le.mpr ⟨Nat.not_lt.mp early, here⟩
        have taken := budget.spent_le now here
        have grown := budget.grows now (Nat.le_max_right lo c) opened
        have split : ((hi - max lo c : Nat) : K) = ((time a - max lo c : Nat) : K) + ((hi - time a : Nat) : K) := by
          rw [← Nat.cast_add]
          congr 1
          omega
        rw [Nat.max_eq_right (Nat.not_lt.mp early)] at later
        rw [inside, split, add_mul]
        linarith

end Budget

end Hoverfly.Lib
