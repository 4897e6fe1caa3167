import Mathlib.Algebra.Order.Floor.Div
import Mathlib.Tactic.Ring

/-! Unsigned machine words as natural numbers, with the operations that leave
the type made explicit, and fixed-size byte arrays with their little-endian
reading. -/
namespace Hoverfly.Lib

def Fits (w a : Nat) : Prop := a < 2 ^ w

instance (w a : Nat) : Decidable (Fits w a) := inferInstanceAs (Decidable (a < 2 ^ w))

def satAdd (w a b : Nat) : Nat := min (a + b) (2 ^ w - 1)
def wrapAdd (w a b : Nat) : Nat := (a + b) % 2 ^ w
def wrapSub (w a b : Nat) : Nat := (a + (2 ^ w - b % 2 ^ w)) % 2 ^ w
def wrapMul (w a b : Nat) : Nat := (a * b) % 2 ^ w

variable {w a b : Nat}

theorem satAdd_of_fits (fits : Fits w (a + b)) : satAdd w a b = a + b := by
  unfold Fits at fits
  unfold satAdd
  omega

theorem satAdd_le (w a b : Nat) : satAdd w a b ≤ a + b := Nat.min_le_left _ _

theorem foldl_satAdd {acc : Nat} (fits : acc ≤ 2 ^ w - 1) (xs : List Nat) :
    xs.foldl (satAdd w) acc = min (acc + xs.sum) (2 ^ w - 1) := by
  induction xs generalizing acc with
  | nil => simp [fits]
  | cons x xs ih =>
    have small : satAdd w acc x ≤ 2 ^ w - 1 := Nat.min_le_right _ _
    rw [List.foldl_cons, ih small, List.sum_cons, satAdd]
    omega

theorem wrapAdd_of_fits (fits : Fits w (a + b)) : wrapAdd w a b = a + b :=
  Nat.mod_eq_of_lt fits

def wrapSum (w : Nat) (xs : List Nat) : Nat := xs.foldl (wrapAdd w) 0

theorem wrapSum_of_fits {xs : List Nat} (fits : Fits w xs.sum) : wrapSum w xs = xs.sum := by
  have loop : ∀ (xs : List Nat) (acc : Nat), Fits w (acc + xs.sum) → xs.foldl (wrapAdd w) acc = acc + xs.sum := by
    intro xs
    induction xs with
    | nil => exact fun acc _ => rfl
    | cons x xs ih =>
      intro acc fits
      rw [List.sum_cons, ← Nat.add_assoc] at fits
      have first : wrapAdd w acc x = acc + x := wrapAdd_of_fits (Nat.lt_of_le_of_lt (Nat.le_add_right _ _) fits)
      rw [List.foldl_cons, first, ih _ fits, List.sum_cons, Nat.add_assoc]
  have from_ := loop xs 0 (by rwa [Nat.zero_add])
  rwa [Nat.zero_add] at from_

theorem wrapMul_of_fits (fits : Fits w (a * b)) : wrapMul w a b = a * b :=
  Nat.mod_eq_of_lt fits

theorem Fits.mono (fits : Fits w b) (le : a ≤ b) : Fits w a :=
  Nat.lt_of_le_of_lt le fits

def divCeil (a b : Nat) : Nat := (a + b - 1) / b

theorem divCeil_mono (k : Nat) (le : a ≤ b) : divCeil a k ≤ divCeil b k :=
  Nat.div_le_div_right (by omega)

theorem divCeil_le_iff {k : Nat} (pos : 0 < k) (a b : Nat) : divCeil a k ≤ b ↔ a ≤ b * k := by
  unfold divCeil
  rw [← Nat.lt_succ_iff, Nat.div_lt_iff_lt_mul pos, Nat.succ_mul]
  omega

theorem divCeil_add_le {k : Nat} (pos : 0 < k) (a b : Nat) :
    divCeil (a + b) k ≤ divCeil a k + divCeil b k := by
  unfold divCeil
  have ha := Nat.div_add_mod (a + k - 1) k
  have hb := Nat.div_add_mod (b + k - 1) k
  have la := Nat.mod_lt (a + k - 1) pos
  have lb := Nat.mod_lt (b + k - 1) pos
  rw [← Nat.lt_succ_iff, Nat.div_lt_iff_lt_mul pos, Nat.succ_mul, Nat.add_mul]
  have ca := Nat.mul_comm k ((a + k - 1) / k)
  have cb := Nat.mul_comm k ((b + k - 1) / k)
  omega

abbrev Bytes (n : Nat) := { b : List UInt8 // b.length = n }

def Bytes.replicate (n : Nat) (b : UInt8) : Bytes n := ⟨List.replicate n b, List.length_replicate⟩

def fromLe : List UInt8 → Nat
  | [] => 0
  | b :: rest => b.toNat + 256 * fromLe rest

def toLe : Nat → Nat → List UInt8
  | 0, _ => []
  | k + 1, n => UInt8.ofNat n :: toLe k (n / 256)

@[simp] theorem length_toLe (k n : Nat) : (toLe k n).length = k := by
  induction k generalizing n with
  | zero => rfl
  | succ k ih => simp [toLe, ih]

theorem fromLe_toLe (k n : Nat) : fromLe (toLe k n) = n % 256 ^ k := by
  induction k generalizing n with
  | zero => simp [toLe, fromLe, Nat.mod_one]
  | succ k ih =>
    have low : (UInt8.ofNat n).toNat = n % 256 := UInt8.toNat_ofNat'
    rw [toLe, fromLe, ih, low, Nat.pow_succ, Nat.mul_comm (256 ^ k) 256, Nat.mod_mul]

theorem toLe_fromLe (bs : List UInt8) : toLe bs.length (fromLe bs) = bs := by
  induction bs with
  | nil => rfl
  | cons b rest ih =>
    have hb : b.toNat < 256 := b.toNat_lt
    have div : (b.toNat + 256 * fromLe rest) / 256 = fromLe rest := by omega
    have low : UInt8.ofNat (b.toNat + 256 * fromLe rest) = b := by
      apply UInt8.toNat_inj.mp
      rw [UInt8.toNat_ofNat']
      omega
    simp only [List.length_cons, fromLe, toLe, div, low, ih]

theorem fromLe_lt (bs : List UInt8) : fromLe bs < 256 ^ bs.length := by
  have back := fromLe_toLe bs.length (fromLe bs)
  rw [toLe_fromLe] at back
  rw [back]
  exact Nat.mod_lt _ (Nat.pow_pos (by decide))

theorem fromLe_append (xs ys : List UInt8) :
    fromLe (xs ++ ys) = fromLe xs + 256 ^ xs.length * fromLe ys := by
  induction xs with
  | nil => simp [fromLe]
  | cons x rest ih =>
    simp only [List.cons_append, fromLe, ih, List.length_cons, Nat.pow_succ]
    ring

theorem toLe_last (k n : Nat) : toLe (k + 1) n = toLe k n ++ [UInt8.ofNat (n / 256 ^ k)] := by
  induction k generalizing n with
  | zero => simp [toLe]
  | succ k ih => rw [toLe, ih, toLe, List.cons_append, Nat.div_div_eq_div_mul, Nat.pow_succ, Nat.mul_comm 256]

def hexDigit (n : Nat) : Char := if n < 10 then Char.ofNat (48 + n) else Char.ofNat (87 + n)

def hexEncode (bs : List UInt8) : String :=
  String.ofList (bs.flatMap fun b => [hexDigit (b.toNat / 16), hexDigit (b.toNat % 16)])

end Hoverfly.Lib
