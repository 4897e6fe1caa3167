import Hoverfly.Meter.Params

/-! The client's per-lane running total, tracked from bytes it sent. -/
namespace Hoverfly.Payer
open Lib Meter

/-- A lane's verified `payment` block. The identity fields are consumed by the
verification and are not read afterwards. -/
structure PaymentQuote where
  beneficiary : Bytes 20
  chainId : Nat
  params : Params
  hardEnforcement : Bool
deriving DecidableEq

def PaymentQuote.checkReportedDebt (quote : PaymentQuote) (owed balancePlur : Nat) : Except String Unit :=
  let ceiling := quote.params.maxOutstandingPlur
  if owed > ceiling then
    .error s!"relay claims {owed} owed, above the {ceiling} ceiling it signed — it cannot have admitted that much"
  else if owed > balancePlur then
    .error s!"relay claims {owed} owed, more than the chequebook's {balancePlur} balance"
  else .ok ()

structure LaneAccount where
  params : Params
  beneficiary : Bytes 20
  owedPlur : Nat := 0
  /-- Dispatched but not yet answered: the mirror of the relay's `reserved`. -/
  pendingPlur : Nat := 0
  cumulativePlur : Nat := 0
  /-- The credit line, once a challenge has reported one. -/
  capPlur : Nat := 0
deriving DecidableEq

namespace LaneAccount

def new (params : Params) (beneficiary : Bytes 20) : LaneAccount := { params, beneficiary }

def withCumulative (a : LaneAccount) (cumulativePlur : Nat) : LaneAccount :=
  { a with cumulativePlur }

def setCumulativeTo (a : LaneAccount) (cumulativePlur : Nat) : LaneAccount :=
  if cumulativePlur > a.cumulativePlur then { a with cumulativePlur } else a

def owed (a : LaneAccount) : Nat := a.owedPlur
def pending (a : LaneAccount) : Nat := a.pendingPlur
def outstanding (a : LaneAccount) : Nat := satAdd 128 a.owedPlur a.pendingPlur
def cumulative (a : LaneAccount) : Nat := a.cumulativePlur

def recordSent (a : LaneAccount) (bodyBytes : Nat) : LaneAccount :=
  { a with pendingPlur := satAdd 128 a.pendingPlur (a.params.priceBytes bodyBytes) }

/-- `reachedRelay` is false only when the relay refused the POST at admission. -/
def recordAnswered (a : LaneAccount) (bodyBytes : Nat) (reachedRelay : Bool) : LaneAccount :=
  let price := a.params.priceBytes bodyBytes
  let a := { a with pendingPlur := a.pendingPlur - price }
  if reachedRelay then { a with owedPlur := satAdd 128 a.owedPlur price } else a

def refundDedup (a : LaneAccount) (bodyBytes : Nat) : LaneAccount :=
  { a with owedPlur := a.owedPlur - a.params.priceBytes bodyBytes }

def setCap (a : LaneAccount) (cap : Nat) : LaneAccount := { a with capPlur := cap }

def thresholds (a : LaneAccount) : EffectiveParams :=
  if a.capPlur = 0 then
    { minChequePlur := a.params.minChequePlur, settleEveryPlur := a.params.settleEveryPlur }
  else a.params.effective a.capPlur

def shouldSettle (a : LaneAccount) : Bool := a.owedPlur ≥ a.thresholds.settleEveryPlur

def nextCumulative (a : LaneAccount) : Option Nat :=
  if a.owedPlur < a.thresholds.minChequePlur then none
  else some (satAdd 128 a.cumulativePlur a.owedPlur)

def forgivePhantomDebt (a : LaneAccount) : LaneAccount := { a with owedPlur := 0 }

def syncRelayDebt (a : LaneAccount) (relayOwed : Nat) : LaneAccount := { a with owedPlur := relayOwed }

def adoptRelayDebt (a : LaneAccount) (relayOwed : Nat) : LaneAccount × Bool :=
  let adopt := relayOwed - a.pendingPlur
  if adopt ≤ a.owedPlur then (a, false) else ({ a with owedPlur := adopt }, true)

def settled (a : LaneAccount) (cumulative : Nat) : LaneAccount :=
  let credited := cumulative - a.cumulativePlur
  { a with cumulativePlur := cumulative, owedPlur := a.owedPlur - credited }

def maxBodyBytes (a : LaneAccount) (capPlur : Nat) : Nat :=
  let headroom := capPlur - a.outstanding
  let kib := headroom / max a.params.pricePlurPerKib 1
  min (min (kib * 1024) (2 ^ 128 - 1)) (2 ^ 64 - 1)

theorem nextCumulative_le {a : LaneAccount} {cumulative : Nat} (next : a.nextCumulative = some cumulative) :
    cumulative ≤ a.cumulativePlur + a.owedPlur := by
  unfold nextCumulative at next
  split at next
  · cases next
  · cases next
    exact satAdd_le ..

end LaneAccount

end Hoverfly.Payer
