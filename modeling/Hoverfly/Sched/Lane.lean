import Hoverfly.Lib.Float
import Hoverfly.Payer.Account

/-! Lanes of the push scheduler: health, advertisement and the per-lane limits
that decide what a lane may be handed. Times are milliseconds in a `u64`. -/
namespace Hoverfly.Sched
open Lib

abbrev Addr := Bytes 32

def failStreak : Nat := 3
def backoffBaseMs : Nat := 2000
def backoffMaxMs : Nat := 120000
def maxBackoffExp : Nat := 5
def rateMinSample : Nat := 16

inductive LaneHealth where
  | warming
  /-- Over its credit line; cleared by `fundLane`. -/
  | unfunded
  | live
  /-- Not eligible until `untilMs`. -/
  | backoff (untilMs : Nat)
  | retired
deriving DecidableEq, Repr

structure LaneInfo (F : Type) where
  overlay : Option Addr := none
  batchMax : Option Nat := none
  inflightMax : Option Nat := none
  budgetRemainingGb : Option F := none
  poolLive : Option Nat := none
  hardEnforcement : Bool := false
  quote : Option Payer.PaymentQuote := none

structure Config (F : Type) where
  batch : Nat
  probeBatch : Nat
  inflightPerLane : Nat
  maxAttempts : UInt16
  proximityAlpha : F
  hedgeFraction : F
  hedgeLatencyMult : F
  hedgeMinMs : Nat
  hedgeMaxMs : Nat

variable {F : Type} [F64 F]

def Config.default : Config F where
  batch := 256
  probeBatch := 16
  inflightPerLane := 4
  maxAttempts := 6
  proximityAlpha := 0.0
  hedgeFraction := 0.10
  hedgeLatencyMult := 1.5
  hedgeMinMs := 3000
  hedgeMaxMs := 60000

structure Lane (F : Type) where
  id : Nat
  info : LaneInfo F
  health : LaneHealth
  failStreak : Nat
  backoffExp : Nat
  inflight : Nat
  /-- EWMA of observed acked chunks per second. -/
  rate : F
  /-- EWMA of batch wall time. -/
  batchMs : F
  ackedTotal : Nat
  failedTotal : Nat
  bytesTotal : Nat

namespace Lane

def eligible (l : Lane F) (nowMs : Nat) : Bool :=
  match l.health with
  | .live | .warming => true
  | .backoff untilMs => nowMs ≥ untilMs
  | .unfunded => false
  | .retired => false

def capacity (l : Lane F) (cfg : Config F) : Nat :=
  if l.health = .warming then 1 else max (l.info.inflightMax.getD cfg.inflightPerLane) 1

def batchSize (l : Lane F) (cfg : Config F) : Nat :=
  let laneMax := l.info.batchMax.getD cfg.batch
  if l.health = .warming then min cfg.probeBatch laneMax else min cfg.batch laneMax

def weight (l : Lane F) (cfg : Config F) : F :=
  let rate :=
    if F64.eq l.rate 0.0 then F64.max (F64.ofNat (l.info.poolLive.getD 16) / 8.0) 0.5 else l.rate
  let budget := match l.info.budgetRemainingGb with
    | some gb => F64.clamp (gb / 1.0) 0.05 1.0
    | none => 1.0
  F64.max (rate * budget * F64.ofNat (l.capacity cfg)) 0.02

def hedgeDeadlineMs (l : Lane F) (cfg : Config F) : Nat :=
  let base :=
    if F64.lt 0.0 l.batchMs then l.batchMs * cfg.hedgeLatencyMult else F64.ofNat cfg.hedgeMinMs
  let ms := F64.toNat base
  if ms < cfg.hedgeMinMs then cfg.hedgeMinMs else if cfg.hedgeMaxMs < ms then cfg.hedgeMaxMs else ms

end Lane

def proximity (a b : Addr) : Nat :=
  match (List.zipWith (· ^^^ ·) a.val b.val).findIdx? (· ≠ 0) with
  | none => 255
  | some i =>
    let x := (List.zipWith (· ^^^ ·) a.val b.val).getD i 0
    i * 8 + (7 - Nat.log2 x.toNat)

/-- splitmix64 over the address folded with the lane id. -/
def hash64 (addr : Addr) (lane : UInt64) : UInt64 :=
  let words : List UInt64 :=
    (List.range 4).map fun i => UInt64.ofNat (fromLe ((addr.val.drop (8 * i)).take 8))
  let mix (acc v : UInt64) : UInt64 :=
    let acc := (acc ^^^ v) * 0xBF58476D1CE4E5B9
    acc ^^^ (acc >>> 31)
  let z := words.foldl mix (lane * 0x9E3779B97F4A7C15) + 0x9E3779B97F4A7C15
  let z := (z ^^^ (z >>> 30)) * 0xBF58476D1CE4E5B9
  let z := (z ^^^ (z >>> 27)) * 0x94D049BB133111EB
  z ^^^ (z >>> 31)

end Hoverfly.Sched
