import Mathlib.Data.Rat.Floor

/-! The operations of an IEEE double that a program may use, as a class. Nothing
is assumed about them, so what is proved over an arbitrary instance holds for
the machine's own rounding, infinities and NaN. -/
namespace Hoverfly.Lib

class F64 (F : Type) extends Add F, Mul F, Div F, Neg F, OfScientific F where
  ofNat : Nat → F
  /-- A saturating cast to an unsigned integer; NaN gives zero. -/
  toNat : F → Nat
  ceil : F → F
  ln : F → F
  max : F → F → F
  min : F → F → F
  partialCmp : F → F → Option Ordering
  maxValue : F
  minPositive : F

namespace F64

variable {F : Type} [F64 F]

def lt (a b : F) : Bool := partialCmp a b == some .lt
def eq (a b : F) : Bool := partialCmp a b == some .eq
def le (a b : F) : Bool := lt a b || eq a b
def clamp (x lo hi : F) : F := if lt x lo then lo else if lt hi x then hi else x

/-- A share of a larger count is no smaller: what a monotone product, `ceil` and cast give, also for a negative
or undefined factor, whose share is zero. -/
class Scaling (F : Type) [F64 F] : Prop where
  share_le : ∀ (x : F) {m n : Nat}, m ≤ n → toNat (ceil (ofNat m * x)) ≤ toNat (ceil (ofNat n * x))

end F64

instance : F64 Float where
  __ := (inferInstance : Add Float)
  __ := (inferInstance : Mul Float)
  __ := (inferInstance : Div Float)
  __ := (inferInstance : Neg Float)
  __ := (inferInstance : OfScientific Float)
  ofNat := Float.ofNat
  toNat x := x.toUInt64.toNat
  ceil := Float.ceil
  ln := Float.log
  max a b := if a.isNaN then b else if b.isNaN then a else if a < b then b else a
  min a b := if a.isNaN then b else if b.isNaN then a else if b < a then b else a
  partialCmp a b :=
    if a < b then some .lt else if a == b then some .eq else if b < a then some .gt else none
  maxValue := 1.7976931348623157e308
  minPositive := 2.2250738585072014e-308

/-- Exact rationals, for runs whose outcome no rounding can change. The
logarithm is its tangent at one: it has the sign and the order of the real one. -/
instance : F64 ℚ where
  __ := (inferInstance : Add ℚ)
  __ := (inferInstance : Mul ℚ)
  __ := (inferInstance : Div ℚ)
  __ := (inferInstance : Neg ℚ)
  __ := (inferInstance : OfScientific ℚ)
  ofNat n := n
  toNat x := ⌊x⌋.toNat
  ceil x := ⌈x⌉
  ln x := x - 1
  max a b := if a < b then b else a
  min a b := if b < a then b else a
  partialCmp a b := some (if a < b then .lt else if a = b then .eq else .gt)
  maxValue := 2 ^ 1024
  minPositive := 0

instance : F64.Scaling ℚ where
  share_le x m n le := by
    change ⌊((⌈(m : ℚ) * x⌉ : ℤ) : ℚ)⌋.toNat ≤ ⌊((⌈(n : ℚ) * x⌉ : ℤ) : ℚ)⌋.toNat
    rw [Int.floor_intCast, Int.floor_intCast]
    rcases le_or_gt 0 x with up | down
    · exact Int.toNat_le_toNat (Int.ceil_mono (mul_le_mul_of_nonneg_right (Nat.cast_le.mpr le) up))
    · have below : ⌈(m : ℚ) * x⌉ ≤ 0 := Int.ceil_le.mpr
        (by simpa using mul_nonpos_of_nonneg_of_nonpos (Nat.cast_nonneg m) down.le)
      rw [Int.toNat_of_nonpos below]
      exact Nat.zero_le _

end Hoverfly.Lib
