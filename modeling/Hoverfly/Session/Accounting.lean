import Mathlib.Data.List.Basic
import Hoverfly.Lib.Run
import Hoverfly.Lib.Word

/-! A session with one peer: concurrent pushes that reserve credit, and settlements that pay the peer down. Every
task runs up to the next point at which another one may come in between. -/
namespace Hoverfly.Session
open Lib

def refreshRatePlur : Nat := 4500000

def safePeerThresholdPlur : Nat := refreshRatePlur * 2

structure AccountingState where
  reservePlur : Nat
  balancePlur : Nat
  thresholdPlur : Nat
  lastSettle : Option Nat
deriving DecidableEq

namespace AccountingState

def tryReserve (acc : AccountingState) (price : Nat) : Option AccountingState :=
  if ¬Fits 64 (acc.reservePlur + price) then none
  else if ¬Fits 64 (acc.balancePlur + (acc.reservePlur + price)) then none
  else if acc.balancePlur + (acc.reservePlur + price) > acc.thresholdPlur then none
  else some { acc with reservePlur := acc.reservePlur + price }

def receipt (acc : AccountingState) (price : Nat) : AccountingState :=
  { acc with reservePlur := acc.reservePlur - price, balancePlur := satAdd 64 acc.balancePlur price }

def cancel (acc : AccountingState) (price : Nat) : AccountingState :=
  { acc with reservePlur := acc.reservePlur - price }

def needsWait (acc : AccountingState) (nowMs : Nat) : Option Nat :=
  ((acc.lastSettle.map (nowMs - ·)).filter (· < 1100)).map (1100 - ·)

def owed (acc : AccountingState) : Nat := satAdd 64 acc.balancePlur acc.reservePlur

def refreshed (acc : AccountingState) (amountPlur nowMs : Nat) : AccountingState :=
  { acc with lastSettle := some nowMs, balancePlur := acc.balancePlur - min amountPlur (2 ^ 64 - 1) }

def cleared (acc : AccountingState) (plur : Nat) : AccountingState :=
  { acc with balancePlur := acc.balancePlur - plur }

end AccountingState

structure SettlementRates where
  exchangeRate : Nat
  deduction : Nat
deriving DecidableEq

structure SessionSwap where
  maxCumulativePerPeerBzz : Nat
  cumulative : Nat
deriving DecidableEq

def SessionSwap.bump (swap : SessionSwap) (plur : Nat) (rates : SettlementRates) : Except String SessionSwap :=
  let amountBzz := plur * rates.exchangeRate + rates.deduction
  if ¬Fits 256 amountBzz then .error "BZZ amount overflows u256"
  else if amountBzz < satAdd 256 rates.exchangeRate rates.deduction then .error "amount below minimum payable"
  else if satAdd 256 swap.cumulative amountBzz > swap.maxCumulativePerPeerBzz then
    .error "per-peer cumulative cap reached"
  else if ¬Fits 128 amountBzz then .error "cheque amount exceeds u128"
  else if ¬Fits 128 (swap.cumulative + amountBzz) then .error "amount overflows u128"
  else .ok { swap with cumulative := swap.cumulative + amountBzz }

/-- Who waits for a settlement: a push that found no credit, one that has its receipt, or nobody. -/
inductive Caller where
  | short (price : Nat)
  | receipted (price : Nat)
  | alone
deriving DecidableEq

inductive Point where
  | queued
  | resting (waitMs : Option Nat)
  | asked (owed : Nat)
  /-- The peer has accepted an amount, and the ack is on its way. -/
  | accepted (plur : Nat)
  | paying (plur : Nat)
  /-- The cheque is in the store, and neither signed nor sent. -/
  | entered (plur : Nat)
  | emitted (plur : Nat)
deriving DecidableEq

inductive Outcome where
  | receipt (price : Nat)
  | overdraft
  | failed
  | settled
deriving DecidableEq

inductive Task where
  | fresh (price : Nat)
  | retry (price : Nat)
  /-- Reserved, with the chunk on its way. -/
  | sending (price : Nat)
  | settling (caller : Caller) (point : Point)
  | returned (outcome : Outcome)
deriving DecidableEq

namespace Task

def resumed : Caller → Task
  | .short price => .retry price
  | .receipted price => .returned (.receipt price)
  | .alone => .returned .settled

def inside : Task → Bool
  | .settling _ .queued => false
  | .settling _ _ => true
  | _ => false

end Task

inductive Answer where
  | go (nowMs : Nat)
  | receipt
  | accepts (plur : Nat)
  | rates (rates : SettlementRates)
  | error
deriving DecidableEq

inductive Event where
  | push (price : Nat)
  | settle
  | run (task : Nat) (answer : Answer)
deriving DecidableEq

structure SessionState where
  accounting : AccountingState
  ghostBalancePlur : Nat
  swap : Option SessionSwap
  tasks : List Task
  /-- The peer has accepted this much by pseudosettle, for the statements about it. -/
  acceptedPlur : Nat
  /-- Cheques were emitted for this much. -/
  chequedPlur : Nat
  /-- Of both, what never came off the balance. -/
  wastedPlur : Nat
deriving DecidableEq

namespace SessionState

def opened (thresholdPlur : Nat) (swap : Option SessionSwap) : SessionState where
  accounting := { reservePlur := 0, balancePlur := 0, thresholdPlur, lastSettle := none }
  ghostBalancePlur := 0
  swap := swap
  tasks := []
  acceptedPlur := 0
  chequedPlur := 0
  wastedPlur := 0

def put (s : SessionState) (i : Nat) (t : Task) : SessionState := { s with tasks := s.tasks.set i t }

def locked (s : SessionState) : Bool := s.tasks.any Task.inside

def reserve (s : SessionState) (i price : Nat) (short : Task) : SessionState :=
  match s.accounting.tryReserve price with
  | some accounting => { s with accounting }.put i (.sending price)
  | none => s.put i short

def onReceipt (s : SessionState) (i price : Nat) : SessionState :=
  let accounting := s.accounting.receipt price
  { s with accounting }.put i <|
    if accounting.balancePlur ≥ refreshRatePlur then .settling (.receipted price) .queued
    else .returned (.receipt price)

def onPushError (s : SessionState) (i price : Nat) : SessionState :=
  { s with
    accounting := s.accounting.cancel price
    ghostBalancePlur := wrapAdd 64 s.ghostBalancePlur price }.put i (.returned .failed)

def onAck (s : SessionState) (i : Nat) (caller : Caller) (plur nowMs : Nat) : SessionState :=
  let accounting := s.accounting.refreshed plur nowMs
  { s with accounting, wastedPlur := s.wastedPlur + (plur - s.accounting.balancePlur) }.put i <|
    if accounting.balancePlur > 0 ∧ s.swap.isSome then .settling caller (.paying accounting.balancePlur)
    else .resumed caller

def enterCheque (s : SessionState) (i : Nat) (caller : Caller) (plur : Nat) (rates : SettlementRates) :
    SessionState :=
  match s.swap with
  | none => s.put i (.resumed caller)
  | some swap =>
    match swap.bump plur rates with
    | .error _ => s.put i (.resumed caller)
    | .ok swap => { s with swap := some swap }.put i (.settling caller (.entered plur))

def onEmitted (s : SessionState) (i : Nat) (caller : Caller) (plur : Nat) : SessionState :=
  { s with
    accounting := s.accounting.cleared plur
    wastedPlur := s.wastedPlur + (plur - s.accounting.balancePlur) }.put i (.resumed caller)

/-- One step of a settlement. An error ends it, and is not reported further. -/
def settleStep (s : SessionState) (i : Nat) (caller : Caller) : Point → Answer → SessionState
  | .queued, .go nowMs =>
    if s.locked then s else s.put i (.settling caller (.resting (s.accounting.needsWait nowMs)))
  | .resting _, .go _ =>
    s.put i (if s.accounting.owed = 0 then .resumed caller else .settling caller (.asked s.accounting.owed))
  | .asked _, .accepts plur =>
    { s with acceptedPlur := s.acceptedPlur + plur }.put i (.settling caller (.accepted plur))
  | .asked _, .error => s.put i (.resumed caller)
  | .accepted plur, .go nowMs => s.onAck i caller plur nowMs
  -- the peer has booked it, but its ack does not arrive
  | .accepted plur, .error => { s with wastedPlur := s.wastedPlur + plur }.put i (.resumed caller)
  | .paying plur, .rates rates => s.enterCheque i caller plur rates
  | .paying _, .error => s.put i (.resumed caller)
  | .entered plur, .go _ => { s with chequedPlur := s.chequedPlur + plur }.put i (.settling caller (.emitted plur))
  | .entered _, .error => s.put i (.resumed caller)
  | .emitted plur, .go _ => s.onEmitted i caller plur
  -- the write timed out after the cheque was on the stream
  | .emitted plur, .error => { s with wastedPlur := s.wastedPlur + plur }.put i (.resumed caller)
  | _, _ => s

def advance (s : SessionState) (i : Nat) : Task → Answer → SessionState
  | .fresh price, .go _ => s.reserve i price (.settling (.short price) .queued)
  | .retry price, .go _ => s.reserve i price (.returned .overdraft)
  | .sending price, .receipt => s.onReceipt i price
  | .sending price, .error => s.onPushError i price
  | .settling caller point, answer => s.settleStep i caller point answer
  | _, _ => s

def step (s : SessionState) : Event → SessionState
  | .push price => { s with tasks := s.tasks ++ [.fresh price] }
  | .settle => { s with tasks := s.tasks ++ [.settling .alone .queued] }
  | .run i answer =>
    match s.tasks[i]? with
    | none => s
    | some t => s.advance i t answer

end SessionState

end Hoverfly.Session
