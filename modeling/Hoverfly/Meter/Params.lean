import Hoverfly.Lib.Word

/-! Metered-mode parameters, quoted by a relay and enforced at admission. All
amounts are PLUR in a `u128`. -/
namespace Hoverfly.Meter
open Lib

structure Params where
  pricePlurPerKib : Nat
  minChequePlur : Nat
  settleEveryPlur : Nat
  maxOutstandingPlur : Nat
  creditRatio : Nat
deriving DecidableEq, Repr

def Params.default : Params where
  pricePlurPerKib := 480000000
  minChequePlur := 3900000000000
  settleEveryPlur := 15600000000000
  maxOutstandingPlur := 62200000000000
  creditRatio := 1000

structure EffectiveParams where
  minChequePlur : Nat
  settleEveryPlur : Nat
deriving DecidableEq, Repr

namespace Params

def validate (p : Params) : Except String Unit :=
  if p.pricePlurPerKib = 0 then .error "price_plur_per_kib must be non-zero"
  else if p.creditRatio = 0 then .error "credit_ratio must be non-zero"
  else if p.minChequePlur > p.settleEveryPlur then
    .error s!"min_cheque_plur ({p.minChequePlur}) exceeds settle_every_plur ({p.settleEveryPlur}): every account would accrue past settlement and have its cheque refused as dust, with no cheque able to clear the resulting 402 (§10.1)"
  else if p.settleEveryPlur ≥ p.maxOutstandingPlur then
    .error s!"settle_every_plur ({p.settleEveryPlur}) must be below max_outstanding_plur ({p.maxOutstandingPlur}): otherwise an account hits its cap before it is ever asked to pay (§10.1)"
  else .ok ()

def creditLine (p : Params) (remainingValuePlur : Nat) : Nat :=
  min (remainingValuePlur / p.creditRatio) p.maxOutstandingPlur

/-- Rounds up to KiB once. The product is a `u128` and wraps in a release build. -/
def priceBytes (p : Params) (bytes : Nat) : Nat :=
  wrapMul 128 (divCeil bytes 1024) p.pricePlurPerKib

def effective (p : Params) (cap : Nat) : EffectiveParams :=
  let settleEvery := max (min p.settleEveryPlur (cap / 2)) 1
  { minChequePlur := max (min p.minChequePlur settleEvery) 1, settleEveryPlur := settleEvery }

def exactPrice (p : Params) (bytes : Nat) : Nat := divCeil bytes 1024 * p.pricePlurPerKib

theorem priceBytes_of_fits {p : Params} {bytes : Nat} (fits : Fits 128 (p.exactPrice bytes)) :
    p.priceBytes bytes = p.exactPrice bytes := wrapMul_of_fits fits

variable (p : Params)

theorem priceBytes_zero : p.priceBytes 0 = 0 := by
  simp [priceBytes, wrapMul, divCeil]

variable {a b : Nat}

theorem exactPrice_mono (le : a ≤ b) : p.exactPrice a ≤ p.exactPrice b :=
  Nat.mul_le_mul_right _ (divCeil_mono 1024 le)

theorem priceBytes_mono {p : Params} {limit : Nat} (fits : Fits 128 (p.exactPrice limit)) (le : a ≤ b)
    (small : b ≤ limit) : p.priceBytes a ≤ p.priceBytes b := by
  have fitsB := fits.mono (p.exactPrice_mono small)
  rw [priceBytes_of_fits fitsB, priceBytes_of_fits (fitsB.mono (p.exactPrice_mono le))]
  exact p.exactPrice_mono le

theorem exactPrice_add_le (a b : Nat) :
    p.exactPrice (a + b) ≤ p.exactPrice a + p.exactPrice b := by
  unfold exactPrice
  rw [← Nat.add_mul]
  exact Nat.mul_le_mul_right _ (divCeil_add_le (by decide) a b)

theorem priceBytes_split {total : Nat} (fits : Fits 128 (p.exactPrice total)) (parts : a + b = total) :
    p.priceBytes a ≤ p.priceBytes total ∧ p.priceBytes total ≤ p.priceBytes a + p.priceBytes b := by
  have left : a ≤ total := by omega
  have right : b ≤ total := by omega
  rw [priceBytes_of_fits fits, priceBytes_of_fits (fits.mono (p.exactPrice_mono left)),
    priceBytes_of_fits (fits.mono (p.exactPrice_mono right)), ← parts]
  exact ⟨p.exactPrice_mono (Nat.le_add_right ..), p.exactPrice_add_le a b⟩

theorem creditLine_le (value : Nat) : p.creditLine value ≤ p.maxOutstandingPlur :=
  Nat.min_le_right _ _

end Params

end Hoverfly.Meter
