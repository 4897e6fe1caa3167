import Mathlib.Data.List.Induction
import Mathlib.Data.Nat.ModEq
import Mathlib.Tactic.Ring

/-! Digits of one width read as digits of another, most significant first, through an accumulator
that holds the bits not yet given out. -/
namespace Hoverfly.Lib

theorem shiftIn_mod {w k bits x d : Nat} (small : d < 2 ^ k) (fits : bits + k ≤ w) :
    ((x * 2 ^ k % 2 ^ w) ||| d) % 2 ^ (bits + k) = x % 2 ^ bits * 2 ^ k + d := by
  have shifted : x * 2 ^ k % 2 ^ w = 2 ^ k * (x % 2 ^ (w - k)) := by
    have split_ : 2 ^ w = 2 ^ (w - k) * 2 ^ k := by rw [← Nat.pow_add, Nat.sub_add_cancel (by omega)]
    rw [split_, Nat.mul_mod_mul_right, Nat.mul_comm]
  rw [shifted, ← Nat.two_pow_add_eq_or_of_lt small, Nat.add_comm bits k, Nat.pow_add, Nat.mod_mul, Nat.mul_add_mod,
    Nat.mod_eq_of_lt small, Nat.mul_add_div (Nat.two_pow_pos k), Nat.div_eq_of_lt small, Nat.add_zero,
    Nat.mod_mod_of_dvd _ (Nat.pow_dvd_pow 2 (by omega)), Nat.mul_comm, Nat.add_comm]

def digitsValue (w : Nat) (ds : List Nat) : Nat := ds.foldl (fun n d => n * 2 ^ w + d) 0

theorem digitsValue_concat (w : Nat) (ds : List Nat) (d : Nat) :
    digitsValue w (ds ++ [d]) = digitsValue w ds * 2 ^ w + d := by
  rw [digitsValue, List.foldl_append]
  rfl

theorem digitsValue_injective {w : Nat} {xs ys : List Nat} (length : xs.length = ys.length) (small : ∀ d ∈ xs, d < 2 ^ w)
    (small' : ∀ d ∈ ys, d < 2 ^ w) (same : digitsValue w xs = digitsValue w ys) : xs = ys := by
  induction xs using List.reverseRecOn generalizing ys with
  | nil => exact (List.length_eq_zero_iff.mp length.symm).symm
  | append_singleton xs x ih =>
    obtain ⟨ys, y, rfl⟩ : ∃ zs z, ys = zs ++ [z] := by
      rcases List.eq_nil_or_concat ys with rfl | ⟨zs, z, rfl⟩
      · simp at length
      · exact ⟨zs, z, by simp⟩
    have hx := small x (by simp)
    have hy := small' y (by simp)
    rw [digitsValue_concat, digitsValue_concat] at same
    have last : x = y := by
      have := congrArg (· % 2 ^ w) same
      simpa [Nat.add_mod, Nat.mod_eq_of_lt hx, Nat.mod_eq_of_lt hy] using this
    subst last
    have front : digitsValue w xs = digitsValue w ys :=
      Nat.eq_of_mul_eq_mul_right (Nat.two_pow_pos w) (Nat.add_right_cancel same)
    rw [ih (by simpa using length) (fun d member => small d (by simp [member]))
      (fun d member => small' d (by simp [member])) front]

/-- The digits of `b` bits given out for digits of `a` bits, and the `bits` bits left over. -/
structure Regrouped (a b : Nat) (input out : List Nat) (pending bits : Nat) : Prop where
  value : digitsValue a input = digitsValue b out * 2 ^ bits + pending
  room : pending < 2 ^ bits
  count : a * input.length = b * out.length + bits
  digits : ∀ d ∈ out, d < 2 ^ b

namespace Regrouped

variable {a b : Nat} {input out : List Nat} {pending bits : Nat}

theorem start (a b : Nat) : Regrouped a b [] [] 0 0 := ⟨rfl, by simp, rfl, by simp⟩

theorem push (h : Regrouped a b input out pending bits) {d : Nat} (small : d < 2 ^ a) :
    Regrouped a b (input ++ [d]) out (pending * 2 ^ a + d) (bits + a) where
  value := by
    rw [digitsValue_concat, h.value, Nat.pow_add]
    ring
  room := by
    have : pending * 2 ^ a + 2 ^ a ≤ 2 ^ bits * 2 ^ a := by
      rw [← Nat.succ_mul]
      exact Nat.mul_le_mul_right _ h.room
    rw [Nat.pow_add]
    omega
  count := by
    rw [List.length_append, List.length_singleton, Nat.mul_succ, h.count, Nat.add_assoc]
  digits := h.digits

theorem emit (h : Regrouped a b input out pending (bits + b)) :
    Regrouped a b input (out ++ [pending / 2 ^ bits]) (pending % 2 ^ bits) bits where
  value := by
    rw [digitsValue_concat, h.value, Nat.pow_add, Nat.add_mul, Nat.add_assoc, Nat.mul_comm (pending / 2 ^ bits),
      Nat.div_add_mod]
    ring
  room := Nat.mod_lt _ (Nat.two_pow_pos bits)
  count := by
    rw [List.length_append, List.length_singleton, Nat.mul_succ, h.count]
    omega
  digits := by
    intro d member
    rcases List.mem_append.mp member with old | new
    · exact h.digits d old
    · rw [List.mem_singleton.mp new, Nat.div_lt_iff_lt_mul (Nat.two_pow_pos bits), ← Nat.pow_add, Nat.add_comm b]
      exact h.room

end Regrouped

/-- All digits given out, the last filled up with `pad` zero bits. -/
structure Packed (a b pad : Nat) (input out : List Nat) : Prop where
  value : digitsValue b out = digitsValue a input * 2 ^ pad
  count : b * out.length = a * input.length + pad
  digits : ∀ d ∈ out, d < 2 ^ b

section
variable {a b bits pad : Nat} {input out back : List Nat} {pending : Nat}

theorem Regrouped.packed (h : Regrouped a b input out pending 0) : Packed a b 0 input out where
  value := by
    have none_ : pending = 0 := by simpa using h.room
    rw [h.value, none_, Nat.pow_zero, Nat.mul_one, Nat.mul_one, Nat.add_zero]
  count := h.count.symm
  digits := h.digits

theorem Regrouped.flush (h : Regrouped a b input out pending bits) (le : bits ≤ b) :
    Packed a b (b - bits) input (out ++ [pending * 2 ^ (b - bits)]) where
  value := by
    have split_ : 2 ^ b = 2 ^ bits * 2 ^ (b - bits) := by rw [← Nat.pow_add, Nat.add_sub_cancel' le]
    rw [digitsValue_concat, h.value, split_]
    ring
  count := by
    rw [List.length_append, List.length_singleton, Nat.mul_succ, h.count]
    omega
  digits := by
    intro d member
    rcases List.mem_append.mp member with old | new
    · exact h.digits d old
    · have split_ : 2 ^ b = 2 ^ bits * 2 ^ (b - bits) := by rw [← Nat.pow_add, Nat.add_sub_cancel' le]
      rw [List.mem_singleton.mp new, split_]
      exact Nat.mul_lt_mul_of_pos_right h.room (Nat.two_pow_pos _)

theorem Packed.unique {out' : List Nat} (h : Packed a b pad input out) (h' : Packed a b pad input out') (pos : 0 < b) :
    out = out' := by
  refine digitsValue_injective ?_ h.digits h'.digits (h.value.trans h'.value.symm)
  exact Nat.eq_of_mul_eq_mul_left pos (h.count.trans h'.count.symm)

theorem Packed.inverse (packed : Packed a b pad input out) (small : ∀ d ∈ input, d < 2 ^ a)
    (h : Regrouped b a out back pending bits) (padded : pad < a) (drained : bits < a) : back = input := by
  have lengths := packed.count.symm.trans h.count
  have counts : back.length = input.length ∧ bits = pad := by
    have quotient := congrArg (· / a) lengths
    have remainder := congrArg (· % a) lengths
    simp only [Nat.mul_add_div (show 0 < a by omega), Nat.mul_add_mod, Nat.mod_eq_of_lt padded,
      Nat.mod_eq_of_lt drained, Nat.div_eq_of_lt padded, Nat.div_eq_of_lt drained] at quotient remainder
    omega
  obtain ⟨length, rfl⟩ := counts
  refine digitsValue_injective length h.digits small ?_
  have same := packed.value.symm.trans h.value
  have quotient := congrArg (· / 2 ^ bits) same
  have pos := Nat.two_pow_pos bits
  rw [Nat.mul_div_cancel _ pos, Nat.mul_comm, Nat.mul_add_div pos, Nat.div_eq_of_lt h.room] at quotient
  exact quotient.symm

end

end Hoverfly.Lib
