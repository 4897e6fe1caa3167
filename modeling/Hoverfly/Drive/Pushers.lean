import Hoverfly.Payer.Lane
import Hoverfly.Sched.Scheduler

/-! `drive_pushers`: the loop that feeds the scheduler from a producer, hands its assignments to the lanes and pays
them. What comes from outside is asked of a `World`; a loop of the source has fuel. -/
namespace Hoverfly.Drive
open Lib Meter Payer Push Sched

def pushWindow : Nat := 1024

def usizeMax : Nat := 2 ^ 64 - 1

inductive LaneEv where
  | ack (lane : Nat) (addr : Addr) (ok : Bool)
  | done (batch lane acked elapsedMs : Nat) (outcome : BatchOutcome) (dedupBytes : Nat)

structure World (F : Type) where
  produce : Nat → Except String (List StampedChunk)
  nowMs : Nat → Nat
  iter : Nat → List Nat
  /-- The next event, unless the sleep beside it ends first. -/
  recv : Nat → Option LaneEv
  replies : Nat → Replies
  /-- `HOVERFLY_PUSH_PROXIMITY`, if it is set. -/
  proximity : Option F

/-- What the loop has been told, for the statements about it. -/
inductive Seen where
  | produced (batch : List StampedChunk)
  | event (ev : LaneEv)

structure Driver (F : Type) where
  sched : Scheduler F
  payers : List (Option LanePayer)
  store : ChequeStore
  laneFrameCeiling : List Nat
  /-- Batch id to the lane and the body bytes. -/
  inFlightBytes : AList (fun _ : Nat => Nat × Nat) := ∅
  frames : AList (fun _ : Addr => StampedChunk) := ∅
  total : Nat := 0
  exhausted : Bool := false
  ticks : Nat
  log : List Seen := []

variable {F : Type} [F64 F]

namespace Driver

def tick (d : Driver F) : Driver F := { d with ticks := d.ticks + 1 }

def payer (d : Driver F) (lane : Nat) : Option LanePayer := (d.payers[lane]?).join

def setPayer (d : Driver F) (lane : Nat) (p : LanePayer) : Driver F :=
  { d with payers := d.payers.set lane (some p) }

def refill (w : World F) (d : Driver F) : Except String (Driver F) :=
  if d.exhausted then .ok d
  else
    match w.produce d.ticks with
    | .error e => .error e
    | .ok batch =>
      let d := { d.tick with log := d.log ++ [Seen.produced batch] }
      if batch.isEmpty then .ok { d with exhausted := true }
      else
        let sched := (d.sched.admitChunks (batch.map fun c => (c.addr, c.wire.length % 2 ^ 32))).1
        let keep (frames : AList (fun _ : Addr => StampedChunk)) (c : StampedChunk) :=
          if (frames.lookup c.addr).isSome then frames else frames.insert c.addr c
        .ok { d with sched, frames := batch.foldl keep d.frames, total := sched.total }

/-- Chunks neither acked nor failed, in the wrapping arithmetic of a release build. -/
def backlog (d : Driver F) : Nat := wrapSub 64 (wrapSub 64 d.sched.total d.sched.acked) d.sched.failed

def refillLoop (w : World F) : Nat → Driver F → Option (Except String (Driver F))
  | 0, _ => none
  | fuel + 1, d =>
    if !d.exhausted ∧ d.backlog < pushWindow then
      match refill w d with
      | .error e => some (.error e)
      | .ok d => refillLoop w fuel d
    else some (.ok d)

def settle (w : World F) (pc : PaymentConfig) (d : Driver F) (lane : Nat) (p : LanePayer) :
    Driver F × Except String (Option Nat) :=
  let (p, store, paid) := p.settle d.store pc (w.replies d.ticks)
  ({ d.tick.setPayer lane p with store }, paid)

/- Settling is the way out for a lane with no headroom. A failure is only logged. -/
def settleLane (w : World F) (pc : PaymentConfig) (d : Driver F) (lane : Nat) : Driver F :=
  match d.payer lane with
  | none => d
  | some p => if !p.hasHeadroom ∧ p.account.owed > 0 then (settle w pc d lane p).1 else d

def settleLanes (w : World F) (payment : Option PaymentConfig) (d : Driver F) : Driver F :=
  match payment with
  | none => d
  | some pc => (List.range d.payers.length).foldl (settleLane w pc) d

/-- Resizes a metered lane to its live headroom. An unknown line is not a size. -/
def sizeLane (d : Driver F) (lane : Nat) : Driver F :=
  match d.payer lane with
  | none => d
  | some p =>
    if p.capKnown ∧ p.affordableFrames > 0 ∧ p.affordableFrames ≠ usizeMax then
      { d with
        sched := d.sched.setLaneBatchMax lane
          (min p.affordableFrames (d.laneFrameCeiling.getD lane usizeMax)) }
    else d

def takeWork (w : World F) (payment : Option PaymentConfig) (d : Driver F) : Driver F × Option Assignment :=
  let d := if payment.isSome then (List.range d.payers.length).foldl sizeLane d else d
  if payment.isNone ∨ d.payers.any (fun p => p.all LanePayer.hasHeadroom) then
    let (sched, a) := d.sched.next (w.nowMs d.ticks) (w.iter d.ticks)
    ({ d.tick with sched }, a)
  else (d, none)

/-- Gives an assignment back, as a 402 would. -/
def handBack (w : World F) (d : Driver F) (batch : Nat) : Driver F :=
  { d.tick with sched := d.sched.onBatchResult batch .paymentRequired (w.nowMs d.ticks) }

def framesOf (d : Driver F) (a : Assignment) : List StampedChunk :=
  a.chunks.filterMap fun ci => (d.sched.chunkAddr ci).bind fun addr => d.frames.lookup addr

/-- The capability, and the bill for the body; without a capability the batch goes back. -/
def bill (w : World F) (pc : PaymentConfig) (d : Driver F) (a : Assignment) (p : LanePayer)
    (bodyBytes : Nat) : Driver F :=
  match p.useHeader pc (w.replies d.ticks) 0 with
  | (p, .error _) => handBack w (d.tick.setPayer a.lane p) a.batch
  | (p, .ok ()) =>
    { d.tick.setPayer a.lane { p with account := p.account.recordSent bodyBytes } with
      inFlightBytes := d.inFlightBytes.insert a.batch (a.lane, bodyBytes) }

/- Pays first if the body would not fit, and hands the batch back if that did not help. -/
def sendMetered (w : World F) (pc : PaymentConfig) (d : Driver F) (a : Assignment) (p : LanePayer) :
    Driver F :=
  let bodyBytes := ((d.framesOf a).map StampedChunk.frameBytes).sum
  if p.wouldExceed bodyBytes then
    let (d, _) := settle w pc d a.lane p
    match d.payer a.lane with
    | none => d
    | some p => if p.wouldExceed bodyBytes then handBack w d a.batch else bill w pc d a p bodyBytes
  else bill w pc d a p bodyBytes

/-- One assignment; whether the loop goes on dispatching. The POST is spawned, and its
events come back through the channel. -/
def dispatchOne (w : World F) (payment : Option PaymentConfig) (d : Driver F) (a : Assignment) :
    Driver F × Bool :=
  match payment, d.payer a.lane with
  | some pc, some p =>
    if p.capKnown ∧ (!p.hasHeadroom ∨ p.affordableFrames = 0) then (handBack w d a.batch, false)
    else (sendMetered w pc d a p, true)
  | _, _ => (d, true)

def dispatchLoop (w : World F) (payment : Option PaymentConfig) : Nat → Driver F → Option (Driver F)
  | 0, _ => none
  | fuel + 1, d =>
    match takeWork w payment d with
    | (d, none) => some d
    | (d, some a) =>
      match dispatchOne w payment d a with
      | (d, true) => dispatchLoop w payment fuel d
      | (d, false) => some d

def fundLane (d : Driver F) (lane : Nat) : Driver F := { d with sched := d.sched.fundLane lane }

/-- A 402 that no cheque can clear: a lane over its line on bytes in flight is merely busy. -/
def unpayable402 (d : Driver F) (lane : Nat) (p : LanePayer) : Driver F :=
  if p.account.pending > 0 then d.fundLane lane else d

/-- Debt carried from an earlier run: asks what the relay thinks is owed and pays that. -/
def reconcileAndPay (w : World F) (pc : PaymentConfig) (d : Driver F) (lane : Nat) (p : LanePayer) :
    Driver F :=
  let (p, moved) := p.reconcile pc (w.replies d.ticks)
  let d := d.tick.setPayer lane p
  match moved with
  | .error _ => d
  | .ok false => d.unpayable402 lane p
  | .ok true =>
    let (d, paid) := settle w pc d lane p
    match paid with
    | .ok (some _) => d.fundLane lane
    | .ok none => ((d.payer lane).map (d.unpayable402 lane)).getD d
    | .error _ => d

def payAfter (w : World F) (pc : PaymentConfig) (d : Driver F) (lane : Nat) (p : LanePayer)
    (needsPayment : Bool) : Driver F :=
  let (d, paid) := settle w pc d lane (if needsPayment then p.clearHeader else p)
  match paid with
  | .ok (some _) => d.fundLane lane
  | .ok none => if needsPayment then ((d.payer lane).map (reconcileAndPay w pc d lane)).getD d else d
  | .error _ => d

def answer (d : Driver F) (batch lane : Nat) (outcome : BatchOutcome) (dedupBytes : Nat) : Driver F :=
  let sent := d.inFlightBytes.lookup batch
  let d := { d with inFlightBytes := d.inFlightBytes.erase batch }
  match sent, d.payer lane with
  | some (_, sent), some p =>
    let reachedRelay : Bool := outcome ≠ .paymentRequired
    let account := p.account.recordAnswered sent reachedRelay
    let account := if reachedRelay ∧ dedupBytes > 0 then account.refundDedup dedupBytes else account
    d.setPayer lane { p with account }
  | _, _ => d

def onDone (w : World F) (payment : Option PaymentConfig) (d : Driver F) (batch lane acked elapsedMs : Nat)
    (outcome : BatchOutcome) (dedupBytes : Nat) : Driver F :=
  let d := { d with sched := d.sched.onBatchTiming lane acked elapsedMs }
  let d := d.answer batch lane outcome dedupBytes
  let d := { d.tick with sched := d.sched.onBatchResult batch outcome (w.nowMs d.ticks) }
  let needsPayment : Bool := outcome = .paymentRequired
  match payment, d.payer lane with
  | some pc, some p =>
    if needsPayment ∨ p.account.shouldSettle then payAfter w pc d lane p needsPayment else d
  | _, _ => d

def onAck (d : Driver F) (lane : Nat) (addr : Addr) (ok : Bool) : Driver F :=
  let sched := d.sched.onAck lane addr ok
  { d with sched, frames := if sched.acked > d.sched.acked then d.frames.erase addr else d.frames }

def onEvent (w : World F) (payment : Option PaymentConfig) (d : Driver F) (ev : LaneEv) : Driver F :=
  let d := { d with log := d.log ++ [Seen.event ev] }
  match ev with
  | .ack lane addr ok => d.onAck lane addr ok
  | .done batch lane acked elapsedMs outcome dedupBytes =>
    d.onDone w payment batch lane acked elapsedMs outcome dedupBytes

inductive Flow (F : Type) where
  | again (d : Driver F)
  | leave (d : Driver F)
  | fail (error : String)

def healthName : LaneHealth → String
  | .warming => "Warming"
  | .unfunded => "Unfunded"
  | .live => "Live"
  | .backoff _ => "Backoff"
  | .retired => "Retired"

def reasonName : StallReason → String
  | .allLanesDown => "AllLanesDown"
  | .chunksExhausted => "ChunksExhausted"

def stallMessage (d : Driver F) (reason : StallReason) : String :=
  let lane (i : Nat) (l : Lane F) := s!"{i}={healthName l.health} ok={l.ackedTotal} err={l.failedTotal}"
  s!"push stalled ({reasonName reason}) with {d.sched.acked}/{d.total} acked; lanes: " ++
    " ".intercalate (d.sched.lanes.mapIdx lane)

/-- Nothing in flight: more to stamp, a stall, or a sleep until the earliest lane is due. -/
def idle (w : World F) (d : Driver F) : Flow F :=
  if d.sched.done then .again d
  else
    match d.sched.stalled (w.nowMs d.ticks) with
    | some reason => .fail (d.stallMessage reason)
    | none =>
      match d.sched.nextWakeMs (w.nowMs d.tick.ticks) with
      | some t => if t > w.nowMs d.tick.tick.ticks then .again d.tick.tick.tick else .leave d
      | none => .leave d

def await (w : World F) (payment : Option PaymentConfig) (d : Driver F) : Driver F :=
  match w.recv d.ticks with
  | none => d.tick
  | some ev => onEvent w payment d.tick ev

def settleDown (w : World F) (payment : Option PaymentConfig) (d : Driver F) : Flow F :=
  if d.sched.done ∧ d.exhausted then .leave d
  else if d.sched.inFlight = 0 then idle w d
  else .again (await w payment d)

def pass (w : World F) (payment : Option PaymentConfig) (fuel : Nat) (d : Driver F) : Option (Flow F) :=
  match refillLoop w fuel d with
  | none => none
  | some (.error e) => some (.fail e)
  | some (.ok d) => (dispatchLoop w payment fuel (settleLanes w payment d)).map (settleDown w payment)

def loop (w : World F) (payment : Option PaymentConfig) : Nat → Driver F → Option (Except String (Driver F))
  | 0, _ => none
  | fuel + 1, d =>
    match pass w payment fuel d with
    | none => none
    | some (.fail e) => some (.error e)
    | some (.leave d) => some (.ok d)
    | some (.again d) => loop w payment fuel d

/-- A POST still draining was read and billed: its body is a debt of the lane that sent it. -/
def strand (d : Driver F) (sent : Nat × Nat) : Driver F :=
  match d.payer sent.1 with
  | none => d
  | some p => d.setPayer sent.1 { p with account := p.account.recordAnswered sent.2 true }

def settleRest (w : World F) (payment : Option PaymentConfig) (d : Driver F) : Driver F :=
  match payment with
  | none => d
  | some pc =>
    let d := { (d.inFlightBytes.entries.map (·.2)).foldl strand d with inFlightBytes := ∅ }
    let last (d : Driver F) (lane : Nat) :=
      match d.payer lane with
      | none => d
      | some p => (settle w pc d lane p).1
    (List.range d.payers.length).foldl last d

def verdict (d : Driver F) (lanes : Nat) : Except String (Driver F) :=
  if d.sched.acked < d.sched.total then
    .error s!"{d.sched.total - d.sched.acked} of {d.sched.total} chunks unacked across {lanes} lane(s)"
  else .ok d

end Driver

def lanePayer (payment : Option PaymentConfig) (store : ChequeStore) (url : String) (info : LaneInfo F) :
    Option LanePayer :=
  match payment, info.quote with
  | some _, some quote => some (.new url quote (store.cumulative (relayKey quote.beneficiary)))
  | _, _ => none

structure Opened (F : Type) where
  payer : Option LanePayer
  info : LaneInfo F
  ceiling : Nat := usizeMax

def openLane (w : World F) (payment : Option PaymentConfig) (store : ChequeStore) (lane : Nat)
    (url : String) (info : LaneInfo F) : Opened F :=
  match payment, lanePayer payment store url info with
  | some pc, some p =>
    match p.useHeader pc (w.replies (2 * lane)) 0 with
    | (p, .error _) => { payer := some p, info }
    | (p, .ok ()) =>
      let fits := p.maxFrames
      let before := info.batchMax.getD usizeMax
      { payer := some (p.reconcile pc (w.replies (2 * lane + 1))).1
        info := if fits < before then { info with batchMax := some fits } else info
        ceiling := min fits before }
  | _, p => { payer := p, info }

def unusable (o : Opened F) : Bool := o.info.hardEnforcement ∧ o.payer.isNone

def start (w : World F) (store : ChequeStore) (opened : List (Opened F)) : Driver F :=
  let cfg : Config F := { Config.default with
    proximityAlpha := w.proximity.getD (Config.default (F := F)).proximityAlpha }
  let retire (sched : Scheduler F) (lane : Nat) :=
    if (opened[lane]?).any unusable then sched.retireLane lane else sched
  { sched := (List.range opened.length).foldl retire (Scheduler.new (opened.map (·.info)) cfg)
    payers := opened.map (·.payer)
    store := store
    laneFrameCeiling := opened.map (·.ceiling)
    ticks := 2 * opened.length }

/-- The driver as it ends, or none where there was nothing to push. The lanes are their
URLs and what each advertised. -/
def drivePushers (w : World F) (fuel : Nat) (lanes : List (String × LaneInfo F)) (totalHint : Nat)
    (payment : Option PaymentConfig) (store : ChequeStore) : Option (Except String (Option (Driver F))) :=
  if lanes.isEmpty then some (.error "no pusher URLs given")
  else if totalHint = 0 then some (.ok none)
  else
    let opened := lanes.mapIdx fun lane l => openLane w payment store lane l.1 l.2
    if opened.all unusable then
      some (.error ("every lane requires payment and no chequebook is configured — " ++
        "pass --chequebook, or use a fleet with free lanes"))
    else
      match (start w store opened).refill w with
      | .error e => some (.error e)
      | .ok d =>
        match d.loop w payment fuel with
        | none => none
        | some (.error e) => some (.error e)
        | some (.ok d) => some (((d.settleRest w payment).verdict lanes.length).map some)

end Hoverfly.Drive
