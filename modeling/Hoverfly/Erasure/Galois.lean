import Mathlib.Algebra.Field.MinimalAxioms
import Mathlib.Data.Finset.Card
import Mathlib.Order.Interval.Finset.Nat
import Mathlib.Algebra.GroupWithZero.Basic
import Hoverfly.Lib.Fold

/-! The field of 256 elements as the codec computes in it: exponentials and logarithms
of the generator 2 under the reducing polynomial `0x11D`, tabulated once. -/
namespace Hoverfly.Erasure
open Lib

structure GfTables where
  exp : List UInt8
  log : List UInt8

def double (x : UInt16) : UInt16 :=
  let x := x <<< 1
  if x &&& 0x100 ≠ 0 then x ^^^ 0x11d else x

def fillStep (s : List UInt8 × List UInt8 × UInt16) (i : Nat) : List UInt8 × List UInt8 × UInt16 :=
  (s.1.set i s.2.2.toUInt8, s.2.1.set s.2.2.toNat (UInt8.ofNat i), double s.2.2)

def repeatStep (exp : List UInt8) (i : Nat) : List UInt8 := exp.set i (exp.getD (i - 255) 0)

def buildTables : GfTables :=
  let s := (List.range 255).foldl fillStep (List.replicate 510 0, List.replicate 256 0, 1)
  { exp := (List.range' 255 255).foldl repeatStep s.1, log := s.2.1 }

def galLog (a : UInt8) : Nat := (buildTables.log.getD a.toNat 0).toNat

def galExpAt (i : Nat) : UInt8 := buildTables.exp.getD i 0

def galMul (a b : UInt8) : UInt8 :=
  if a = 0 ∨ b = 0 then 0 else galExpAt (galLog a + galLog b)

def galExp (a : UInt8) (n : Nat) : UInt8 :=
  if n = 0 then 1 else if a = 0 then 0 else galExpAt (galLog a * n % 255)

def galDivide (a b : UInt8) : UInt8 :=
  if a = 0 then 0
  else
    let logResult : Int := galLog a - galLog b
    galExpAt (if logResult < 0 then logResult + 255 else logResult).toNat

theorem and_0x100 (x : UInt16) : x &&& 0x100 ≠ 0 ↔ x.toBitVec[8] = true := by
  rw [ne_eq, ← UInt16.toBitVec_inj, UInt16.toBitVec_and]
  constructor
  · intro h
    by_contra clear
    apply h
    apply BitVec.eq_of_getLsbD_eq
    intro i hi
    by_cases at8 : i = 8
    · subst at8
      simpa using clear
    · have off : (256#16).getLsbD i = false := by
        revert i
        decide
      simp [off]
  · intro set zero
    have bit := congrArg (fun v => BitVec.getLsbD v 8) zero
    simp [set] at bit

theorem double_xor (x y : UInt16) : double (x ^^^ y) = double x ^^^ double y := by
  have bits : ((x ^^^ y) <<< 1).toBitVec[8] = ((x <<< 1).toBitVec[8] ^^ (y <<< 1).toBitVec[8]) := by
    simp only [UInt16.shiftLeft_xor, UInt16.toBitVec_xor, BitVec.getElem_xor]
  unfold double
  simp only [and_0x100, bits]
  rw [UInt16.shiftLeft_xor]
  generalize x <<< 1 = a
  generalize y <<< 1 = b
  have pair : a ^^^ 0x11d ^^^ (b ^^^ 0x11d) = a ^^^ b := by
    rw [UInt16.xor_comm b, UInt16.xor_assoc, ← UInt16.xor_assoc 0x11d, UInt16.xor_self, UInt16.zero_xor]
  have swap : a ^^^ 0x11d ^^^ b = a ^^^ b ^^^ 0x11d := by
    rw [UInt16.xor_assoc, UInt16.xor_comm 0x11d, ← UInt16.xor_assoc]
  cases a.toBitVec[8] <;> cases b.toBitVec[8]
  · simp
  · simp [UInt16.xor_assoc]
  · simp [swap]
  · simp [pair]

def xtime (a : UInt8) : UInt8 := (double a.toUInt16).toUInt8

theorem xtime_xor (a b : UInt8) : xtime (a ^^^ b) = xtime a ^^^ xtime b := by
  simp only [xtime, UInt8.toUInt16_xor, double_xor, UInt16.toUInt8_xor]

theorem toUInt16_xtime (a : UInt8) : (xtime a).toUInt16 = double a.toUInt16 := by
  have all : ∀ n : Fin 256, (xtime (UInt8.ofNat n)).toUInt16 = double (UInt8.ofNat n).toUInt16 := by
    decide +kernel
  simpa using all ⟨a.toNat, a.toNat_lt⟩

theorem xtime_injective : Function.Injective xtime := by
  have kernel : ∀ n : Fin 256, xtime (UInt8.ofNat n) = 0 → UInt8.ofNat n = 0 := by decide +kernel
  intro a b same
  apply UInt8.xor_eq_zero_iff.mp
  have zero : xtime (a ^^^ b) = 0 := by rw [xtime_xor, same, UInt8.xor_self]
  simpa using kernel ⟨(a ^^^ b).toNat, (a ^^^ b).toNat_lt⟩ (by simpa using zero)

def power (i : Nat) : UInt8 := xtime^[i] 1

theorem power_succ (i : Nat) : power (i + 1) = xtime (power i) := Function.iterate_succ_apply' ..

def revisits : Nat → UInt8 → Bool
  | 0, _ => false
  | n + 1, a => xtime a = 1 || revisits n (xtime a)

variable {a : UInt8} {i : Nat}

theorem ne_one_of_revisits {n : Nat} (never : revisits n a = false) :
    ∀ i < n, xtime^[i + 1] a ≠ 1 := by
  induction n generalizing a with
  | zero => exact fun i lt => absurd lt (Nat.not_lt_zero i)
  | succ n ih =>
    simp only [revisits, Bool.or_eq_false_iff, decide_eq_false_iff_not] at never
    intro i lt
    cases i with
    | zero => exact never.1
    | succ i => exact ih never.2 i (by omega)

theorem power_255 : power 255 = 1 := by decide +kernel

theorem power_add_255 (i : Nat) : power (i + 255) = power i :=
  (Function.iterate_add_apply ..).trans (congrArg xtime^[i] power_255)

theorem power_injOn {j : Nat} (hi : i < 255) (hj : j < 255) (same : power i = power j) : i = j := by
  have never : revisits 254 1 = false := by decide +kernel
  have apart : ∀ i j, i < j → j < 255 → power i ≠ power j := by
    intro i j less hj same
    obtain ⟨k, rfl⟩ : ∃ k, j = i + (k + 1) := ⟨j - i - 1, by omega⟩
    have back := (xtime_injective.iterate i) (same.trans (Function.iterate_add_apply ..))
    exact ne_one_of_revisits never k (by omega) back.symm
  rcases Nat.lt_trichotomy i j with less | equal | more
  · exact absurd same (apart i j less hj)
  · exact equal
  · exact absurd same.symm (apart j i more hi)

theorem power_ne_zero (i : Nat) : power i ≠ 0 := by
  have zero : xtime^[i] 0 = 0 := Function.iterate_fixed (by decide) i
  intro h
  exact absurd (xtime_injective.iterate i (h.trans zero.symm)) (by decide)

theorem exists_power (nonzero : a ≠ 0) : ∃ i < 255, power i = a := by
  have all : (Finset.range 255).image (fun i => (power i).toNat) = Finset.Ico 1 256 := by
    apply Finset.eq_of_subset_of_card_le
    · intro n member
      obtain ⟨i, _, rfl⟩ := Finset.mem_image.mp member
      have positive : (power i).toNat ≠ 0 := fun h => power_ne_zero i (UInt8.toNat_inj.mp h)
      exact Finset.mem_Ico.mpr ⟨by omega, (power i).toNat_lt⟩
    · rw [Finset.card_image_of_injOn, Finset.card_range, Nat.card_Ico]
      · intro i hi j hj same
        exact power_injOn (by simpa using hi) (by simpa using hj) (UInt8.toNat_inj.mp same)
  have positive : a.toNat ≠ 0 := fun h => nonzero (UInt8.toNat_inj.mp h)
  have member : a.toNat ∈ Finset.Ico 1 256 := Finset.mem_Ico.mpr ⟨by omega, a.toNat_lt⟩
  rw [← all] at member
  obtain ⟨i, hi, same⟩ := Finset.mem_image.mp member
  exact ⟨i, Finset.mem_range.mp hi, UInt8.toNat_inj.mp same⟩

structure Filled (n : Nat) (s : List UInt8 × List UInt8 × UInt16) : Prop where
  next : s.2.2 = (power n).toUInt16
  expLength : s.1.length = 510
  logLength : s.2.1.length = 256
  exp : ∀ i < n, s.1.getD i 0 = power i
  log : ∀ i < n, s.2.1.getD (power i).toNat 0 = UInt8.ofNat i

theorem Filled.step {n : Nat} {s : List UInt8 × List UInt8 × UInt16} (h : Filled n s) (lt : n < 255) :
    Filled (n + 1) (fillStep s n) := by
  have byte : s.2.2.toUInt8 = power n := by rw [h.next]; simp
  have position : s.2.2.toNat = (power n).toNat := by rw [h.next]; simp
  have short := (power n).toNat_lt
  refine ⟨?_, ?_, ?_, fun i less => ?_, fun i less => ?_⟩
  · rw [power_succ, toUInt16_xtime, ← h.next]
    rfl
  · simpa [fillStep] using h.expLength
  · simpa [fillStep] using h.logLength
  · dsimp only [fillStep]
    rw [getD_set _ _ _ _ _ (by rw [h.expLength]; omega), byte]
    split
    · rename_i same
      rw [same]
    · exact h.exp i (by omega)
  · dsimp only [fillStep]
    rw [getD_set _ _ _ _ _ (by rw [h.logLength, position]; omega), position]
    split
    · rename_i same
      rw [power_injOn lt (by omega) (UInt8.toNat_inj.mp same)]
    · rename_i other
      have old : i ≠ n := fun h => other (by rw [h])
      exact h.log i (by omega)

theorem filled (n : Nat) (le : n ≤ 255) :
    Filled n ((List.range n).foldl fillStep (List.replicate 510 0, List.replicate 256 0, 1)) := by
  induction n with
  | zero =>
    refine ⟨rfl, List.length_replicate, List.length_replicate, ?_, ?_⟩
    all_goals exact fun i lt => absurd lt (Nat.not_lt_zero i)
  | succ n ih =>
    rw [List.range_succ, List.foldl_append]
    exact (ih (by omega)).step (by omega)

theorem repeated {exp : List UInt8} (length : exp.length = 510)
    (first : ∀ i < 255, exp.getD i 0 = power i) (n : Nat) (le : n ≤ 255) :
    ((List.range' 255 n).foldl repeatStep exp).length = 510 ∧
      ∀ i < 255 + n, ((List.range' 255 n).foldl repeatStep exp).getD i 0 = power i := by
  induction n with
  | zero => exact ⟨length, first⟩
  | succ n ih =>
    obtain ⟨same, known⟩ := ih (by omega)
    rw [List.range'_1_concat, List.foldl_append, List.foldl_cons, List.foldl_nil, repeatStep]
    refine ⟨by rw [List.length_set, same], fun i less => ?_⟩
    rw [getD_set _ _ _ _ _ (by rw [same]; omega)]
    split
    · rename_i here
      rw [Nat.add_sub_cancel_left, known n (by omega), ← here, Nat.add_comm, power_add_255]
    · exact known i (by omega)

theorem galExpAt_eq (lt : i < 510) : galExpAt i = power i := by
  have first := filled 255 (Nat.le_refl 255)
  have last := (repeated first.expLength first.exp 255 (Nat.le_refl 255)).2 i (by omega)
  unfold galExpAt buildTables
  dsimp only
  rw [last]

theorem galLog_power (lt : i < 255) : galLog (power i) = i := by
  have first := filled 255 (Nat.le_refl 255)
  unfold galLog buildTables
  dsimp only
  rw [first.log i lt, UInt8.toNat_ofNat']
  omega

theorem galExpAt_mod (lt : i < 510) : galExpAt i = power (i % 255) := by
  rw [galExpAt_eq lt]
  by_cases small : i < 255
  · rw [Nat.mod_eq_of_lt small]
  · obtain ⟨j, rfl⟩ : ∃ j, i = j + 255 := ⟨i - 255, by omega⟩
    rw [power_add_255, Nat.add_mod_right, Nat.mod_eq_of_lt (by omega)]

theorem galMul_zero (a : UInt8) : galMul a 0 = 0 := by simp [galMul]

theorem galMul_comm (a b : UInt8) : galMul a b = galMul b a := by
  simp only [galMul, or_comm, Nat.add_comm]

theorem galMul_power {j : Nat} (hi : i < 255) (hj : j < 255) :
    galMul (power i) (power j) = power ((i + j) % 255) := by
  rw [galMul, if_neg (by simp [power_ne_zero]), galLog_power hi, galLog_power hj, galExpAt_mod (by omega)]

theorem galMul_power_left (hi : i < 255) (a : UInt8) : galMul (power i) a = xtime^[i] a := by
  by_cases zero : a = 0
  · subst zero
    rw [galMul_zero, Function.iterate_fixed (by decide)]
  · obtain ⟨j, hj, rfl⟩ := exists_power zero
    rw [galMul, if_neg (by simp [power_ne_zero]), galLog_power hi, galLog_power hj, galExpAt_eq (by omega)]
    exact Function.iterate_add_apply ..

theorem galMul_xor (a b c : UInt8) : galMul a (b ^^^ c) = galMul a b ^^^ galMul a c := by
  by_cases zero : a = 0
  · subst zero
    simp [galMul]
  · obtain ⟨i, hi, rfl⟩ := exists_power zero
    simp only [galMul_power_left hi]
    clear hi zero
    induction i generalizing b c with
    | zero => rfl
    | succ i ih => rw [Function.iterate_succ_apply, xtime_xor, ih, ← Function.iterate_succ_apply,
        ← Function.iterate_succ_apply]

theorem galMul_assoc (a b c : UInt8) : galMul (galMul a b) c = galMul a (galMul b c) := by
  by_cases za : a = 0
  · subst za
    simp [galMul]
  by_cases zb : b = 0
  · subst zb
    simp [galMul]
  by_cases zc : c = 0
  · subst zc
    simp [galMul_zero]
  obtain ⟨i, hi, rfl⟩ := exists_power za
  obtain ⟨j, hj, rfl⟩ := exists_power zb
  obtain ⟨k, hk, rfl⟩ := exists_power zc
  have bound := fun n : Nat => Nat.mod_lt n (by decide : 0 < 255)
  rw [galMul_power hi hj, galMul_power hj hk, galMul_power (bound _) hk, galMul_power hi (bound _)]
  congr 1
  omega

theorem one_galMul (a : UInt8) : galMul 1 a = a := galMul_power_left (i := 0) (by decide) a

theorem galMul_galDivide_one (nonzero : a ≠ 0) : galMul a (galDivide 1 a) = 1 := by
  obtain ⟨i, hi, rfl⟩ := exists_power nonzero
  have log : galLog 1 = 0 := galLog_power (i := 0) (by decide)
  have inverse : galDivide 1 (power i) = power ((255 - i) % 255) := by
    unfold galDivide
    rw [if_neg (by decide), log, galLog_power hi]
    dsimp only
    have place : (if ((0 : Nat) : Int) - i < 0 then ((0 : Nat) : Int) - i + 255
        else ((0 : Nat) : Int) - i).toNat = (255 - i) % 255 := by
      split <;> omega
    rw [place, galExpAt_eq (by omega)]
  rw [inverse, galMul_power hi (Nat.mod_lt _ (by decide))]
  have whole : (i + (255 - i) % 255) % 255 = 0 := by omega
  rw [whole]
  rfl

-- From here on only the laws are used; unification must not run the tables.
attribute [irreducible] galMul galDivide power

structure Gf where
  byte : UInt8
deriving DecidableEq

namespace Gf

variable {a : Gf}

theorem ext {b : Gf} (same : a.byte = b.byte) : a = b := congrArg mk same

instance : Zero Gf := ⟨⟨0⟩⟩
instance : One Gf := ⟨⟨1⟩⟩
instance : Add Gf := ⟨fun a b => ⟨a.byte ^^^ b.byte⟩⟩
instance : Mul Gf := ⟨fun a b => ⟨galMul a.byte b.byte⟩⟩
instance : Neg Gf := ⟨id⟩
/-- The codec divides by nothing but a pivot, which is not zero. -/
instance : Inv Gf := ⟨fun a => if a.byte = 0 then 0 else ⟨galDivide 1 a.byte⟩⟩

theorem byte_ne_zero (nonzero : a ≠ 0) : a.byte ≠ 0 := fun h => nonzero (Gf.ext h)

theorem inv_eq (nonzero : a ≠ 0) : a⁻¹ = ⟨galDivide 1 a.byte⟩ := if_neg (byte_ne_zero nonzero)

theorem mul_inv_of_ne (nonzero : a ≠ 0) : a * a⁻¹ = 1 := by
  rw [inv_eq nonzero]
  exact Gf.ext (galMul_galDivide_one (byte_ne_zero nonzero))

instance : Field Gf := Field.ofMinimalAxioms Gf
  (fun _ _ _ => Gf.ext (UInt8.xor_assoc ..))
  (fun _ => Gf.ext UInt8.zero_xor)
  (fun _ => Gf.ext UInt8.xor_self)
  (fun _ _ _ => Gf.ext (galMul_assoc ..))
  (fun _ _ => Gf.ext (galMul_comm ..))
  (fun _ => Gf.ext (one_galMul _))
  (fun _ nonzero => mul_inv_of_ne nonzero)
  (if_pos rfl)
  (fun _ _ _ => Gf.ext (galMul_xor ..))
  ⟨0, 1, fun h => absurd (congrArg byte h) (by decide)⟩

theorem pow_power {i : Nat} (hi : i < 255) (n : Nat) : (⟨power i⟩ : Gf) ^ n = ⟨power (i * n % 255)⟩ := by
  induction n with
  | zero =>
    unfold power
    rfl
  | succ n ih =>
    rw [pow_succ, ih]
    refine Gf.ext ((galMul_power (Nat.mod_lt _ (by decide)) hi).trans ?_)
    rw [Nat.mod_add_mod, Nat.mul_succ]

theorem galExp_eq_pow (a : UInt8) (n : Nat) : galExp a n = ((⟨a⟩ : Gf) ^ n).byte := by
  unfold galExp
  split
  · rename_i zero
    rw [zero, pow_zero]
    rfl
  · rename_i positive
    split
    · rename_i zero
      rw [zero, show (⟨0⟩ : Gf) = 0 from rfl, zero_pow positive]
      rfl
    · rename_i nonzero
      obtain ⟨i, hi, rfl⟩ := exists_power nonzero
      rw [galLog_power hi, pow_power hi, galExpAt_eq (by omega)]

end Gf

end Hoverfly.Erasure
