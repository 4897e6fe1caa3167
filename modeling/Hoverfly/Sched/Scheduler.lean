import Mathlib.Data.List.AList
import Mathlib.Data.List.Sort
import Hoverfly.Sched.Lane

/-! The sans-I/O push scheduler: no clock and no network, the driver supplies
the time and feeds results back. Indexing that the source does with a panic on a
missing entry is a lookup here; the invariant shows that it never misses. -/
namespace Hoverfly.Sched
open Lib

inductive ChunkPhase where
  | pending
  | inFlight
  | done
  | failed
  /-- Its group already reached the acks it required. -/
  | skipped
deriving DecidableEq, Repr

structure ChunkState where
  addr : Addr
  size : Nat
  phase : ChunkPhase
  attempts : UInt16
  on : List Nat
  sinceMs : Nat
  hedged : Bool
  group : Option Nat

inductive CompletionPolicy where
  | allAcked
  | group
deriving DecidableEq, Repr

structure GroupState where
  need : UInt16
  acked : UInt16

structure Assignment where
  batch : Nat
  lane : Nat
  chunks : List Nat
  hedge : Bool
deriving DecidableEq, Repr

inductive BatchOutcome where
  | answered
  | failed (error : String)
  | paymentRequired
deriving DecidableEq, Repr

inductive StallReason where
  | allLanesDown
  | chunksExhausted
deriving DecidableEq, Repr

structure Scheduler (F : Type) where
  cfg : Config F
  policy : CompletionPolicy
  lanes : List (Lane F)
  chunks : List ChunkState
  groups : List GroupState
  pending : List Nat
  index : AList (fun _ : Addr => Nat)
  nextBatchId : Nat
  /-- Batch id to lane and chunk indices. -/
  outstanding : AList (fun _ : Nat => Nat × List Nat)
  hedgesUsed : Nat
  acked : Nat
  failed : Nat
  skipped : Nat

variable {F : Type} [F64 F]

/-- The last of the elements with the largest key, as `Iterator::max_by_key` has it. -/
def lastMaxBy {A : Type} (key : A → Nat) (xs : List A) : Option A :=
  xs.foldl (fun best x => match best with
    | none => some x
    | some y => if key y ≤ key x then some x else some y) none

namespace Scheduler

def withPolicy (lanes : List (LaneInfo F)) (cfg : Config F) (policy : CompletionPolicy) :
    Scheduler F where
  cfg := cfg
  policy := policy
  lanes := lanes.mapIdx fun id info =>
    { id, info, health := .warming, failStreak := 0, backoffExp := 0, inflight := 0,
      rate := 0.0, batchMs := 0.0, ackedTotal := 0, failedTotal := 0, bytesTotal := 0 }
  chunks := []
  groups := []
  pending := []
  index := ∅
  nextBatchId := 1
  outstanding := ∅
  hedgesUsed := 0
  acked := 0
  failed := 0
  skipped := 0

def new (lanes : List (LaneInfo F)) (cfg : Config F) : Scheduler F := withPolicy lanes cfg .allAcked

def phase? (s : Scheduler F) (ci : Nat) : Option ChunkPhase := (s.chunks[ci]?).map (·.phase)

def updChunk (s : Scheduler F) (ci : Nat) (f : ChunkState → ChunkState) : Scheduler F :=
  { s with chunks := s.chunks.modify ci f }

def updLane (s : Scheduler F) (lane : Nat) (f : Lane F → Lane F) : Scheduler F :=
  { s with lanes := s.lanes.modify lane f }

def setLaneInfo (s : Scheduler F) (lane : Nat) (info : LaneInfo F) : Scheduler F :=
  s.updLane lane fun l => { l with info }

/- A repeat address is not new work. -/
def admitOne (s : Scheduler F) (chunk : Addr × Nat) : Scheduler F :=
  match s.index.lookup chunk.1 with
  | some _ => s
  | none =>
    let idx := s.chunks.length
    { s with
      chunks := s.chunks ++ [{ addr := chunk.1, size := chunk.2, phase := .pending, attempts := 0,
                               on := [], sinceMs := 0, hedged := false, group := none }]
      index := s.index.insert chunk.1 idx
      pending := s.pending ++ [idx] }

def admitChunks (s : Scheduler F) (chunks : List (Addr × Nat)) : Scheduler F × (Nat × Nat) :=
  let t := chunks.foldl admitOne s
  (t, (s.chunks.length, t.chunks.length))

def admitGroup (s : Scheduler F) (chunks : List (Addr × Nat)) (need : UInt16) :
    Scheduler F × (Nat × Nat) :=
  let gid := s.groups.length % 2 ^ 32
  let (t, (start, stop)) := admitChunks { s with groups := s.groups ++ [{ need, acked := 0 }] } chunks
  let mark (i : Nat) (c : ChunkState) := if start ≤ i ∧ i < stop then { c with group := some gid } else c
  ({ t with chunks := t.chunks.mapIdx mark }, (start, stop))

def chunkAddr (s : Scheduler F) (ci : Nat) : Option Addr := (s.chunks[ci]?).map (·.addr)

/- A half-open lane: one probe batch decides whether it is back. -/
def expireBackoffs (s : Scheduler F) (nowMs : Nat) : Scheduler F :=
  { s with lanes := s.lanes.map fun l => match l.health with
      | .backoff untilMs => if nowMs ≥ untilMs then { l with health := .warming } else l
      | _ => l }

def score (s : Scheduler F) (ci lane : Nat) : F :=
  match s.lanes[lane]?, s.chunks[ci]? with
  | some l, some c =>
    let w := l.weight s.cfg
    let w := match l.info.overlay with
      | some ov =>
        if F64.lt 0.0 s.cfg.proximityAlpha then
          let po : F := F64.ofNat (proximity c.addr ov)
          w * (1.0 + s.cfg.proximityAlpha * (F64.min po 8.0 / 8.0))
        else w
      | none => w
    let h := hash64 c.addr (UInt64.ofNat l.id)
    let u := (F64.ofNat h.toNat + 1.0) / (F64.ofNat (2 ^ 64 - 1) + 1.0)
    let denom := -F64.ln u
    if F64.le denom F64.minPositive then F64.maxValue else w / denom
  | _, _ => 0.0

def rankBefore (a b : F × Nat) : Bool :=
  (((F64.partialCmp b.1 a.1).getD .eq).then (compare a.2 b.2)) != .gt

def rankNth (s : Scheduler F) (ci : Nat) (eligible : List Nat) (n : Nat) : Option Nat :=
  let scored := eligible.map fun l => (s.score ci l, l)
  ((scored.insertionSort (fun a b => rankBefore a b = true))[n]?).map (·.2)

def rankLane (s : Scheduler F) (ci : Nat) (eligible : List Nat) : Option Nat := s.rankNth ci eligible 0

def eligibleLanes (s : Scheduler F) (nowMs : Nat) : List Nat :=
  (List.range s.lanes.length).filter fun l => (s.lanes[l]?).any (·.eligible nowMs)

def hasRoom (s : Scheduler F) (lane : Nat) : Bool :=
  (s.lanes[lane]?).any fun l => l.inflight < l.capacity s.cfg

def freeLanes (s : Scheduler F) (nowMs : Nat) : List Nat :=
  (s.eligibleLanes nowMs).filter s.hasRoom

def isPending (s : Scheduler F) (ci : Nat) : Bool := s.phase? ci = some .pending

/- The length is compared after a push, so a limit of zero never stops the loop. -/
def pickLoop (want : Nat → Bool) (take : Nat) : List Nat → List Nat → List Nat
  | [], picked => picked
  | ci :: rest, picked =>
    if want ci then
      if (picked ++ [ci]).length = take then picked ++ [ci] else pickLoop want take rest (picked ++ [ci])
    else pickLoop want take rest picked

def batchSizeOf (s : Scheduler F) (lane : Nat) : Nat :=
  ((s.lanes[lane]?).map (·.batchSize s.cfg)).getD 0

def weightOf (s : Scheduler F) (lane : Nat) : F :=
  ((s.lanes[lane]?).map (·.weight s.cfg)).getD 0.0

def firstChoice (s : Scheduler F) (eligible : List Nat) (lane : Nat) : List Nat :=
  pickLoop (fun ci => s.isPending ci && s.rankLane ci eligible == some lane) (s.batchSizeOf lane)
    s.pending []

def bestFree (s : Scheduler F) (eligible free : List Nat) : Option (Nat × List Nat) :=
  free.foldl (fun best l =>
    let picked := s.firstChoice eligible l
    if picked.isEmpty then best
    else match best with
      | none => some (l, picked)
      | some (bl, bp) =>
        if bp.length < picked.length ∨
            (bp.length = picked.length ∧ F64.lt (s.weightOf bl) (s.weightOf l) = true) then
          some (l, picked)
        else some (bl, bp)) none

/-- The last of the heaviest free lanes, as `Iterator::max_by` has it. -/
def heaviestFree (s : Scheduler F) (free : List Nat) : Option Nat :=
  free.foldl (fun best l => match best with
    | none => some l
    | some b =>
      if (F64.partialCmp (s.weightOf b) (s.weightOf l)).getD .eq = .gt then some b else some l) none

def dispatchChunk (lane : Nat) (hedge : Bool) (nowMs : Nat) (c : ChunkState) : ChunkState :=
  if hedge then { c with on := c.on ++ [lane] }
  else { c with phase := .inFlight, sinceMs := nowMs, attempts := c.attempts + 1, on := c.on ++ [lane] }

def dispatch (s : Scheduler F) (lane : Nat) (picked : List Nat) (hedge : Bool) (nowMs : Nat) :
    Scheduler F × Assignment :=
  let batch := s.nextBatchId
  let t := picked.foldl (fun t ci => t.updChunk ci (dispatchChunk lane hedge nowMs)) s
  -- The phases were just flipped, so the sweep drops exactly what was picked.
  let t := if hedge then t else { t with pending := t.pending.filter t.isPending }
  let t := t.updLane lane fun l => { l with inflight := l.inflight + 1 }
  ({ t with nextBatchId := batch + 1, outstanding := t.outstanding.insert batch (lane, picked) },
    { batch, lane, chunks := picked, hedge })

def hedgeBudget (s : Scheduler F) : Nat :=
  max (F64.toNat (F64.ceil (F64.ofNat s.chunks.length * s.cfg.hedgeFraction))) 8

def hedgeTarget (s : Scheduler F) (eligible : List Nat) (nowMs ci : Nat) : Option Nat := do
  let c ← s.chunks[ci]?
  guard (c.phase = .inFlight ∧ c.hedged = false)
  let cur ← c.on.head?
  let carrier ← s.lanes[cur]?
  guard (¬ nowMs - c.sinceMs < carrier.hedgeDeadlineMs s.cfg)
  let alt ← s.rankNth ci eligible 1
  guard (alt ≠ cur ∧ s.hasRoom alt = true)
  return alt

def pushTo (entries : List (Nat × List Nat)) (lane ci : Nat) : List (Nat × List Nat) :=
  if entries.any (·.1 = lane) then
    entries.map fun e => if e.1 = lane then (e.1, e.2 ++ [ci]) else e
  else entries ++ [(lane, [ci])]

def hedgesByLane (s : Scheduler F) (eligible : List Nat) (nowMs : Nat) : List (Nat × List Nat) :=
  (List.range s.chunks.length).foldl (fun entries ci =>
    match s.hedgeTarget eligible nowMs ci with
    | some alt => pushTo entries alt ci
    | none => entries) []

/-- A hash map yields its entries in some order; `iter` lists the keys it yields last. -/
def inOrder (iter : List Nat) (entries : List (Nat × List Nat)) : List (Nat × List Nat) :=
  entries.filter (fun e => !iter.contains e.1) ++ iter.filterMap fun l => entries.find? (·.1 = l)

def nextHedge (s : Scheduler F) (nowMs : Nat) (iter : List Nat) : Option (Scheduler F × Assignment) :=
  if s.hedgesUsed ≥ s.hedgeBudget then none
  else
    let eligible := s.eligibleLanes nowMs
    if eligible.length < 2 then none
    else do
      let (lane, picked) ← lastMaxBy (·.2.length) (inOrder iter (s.hedgesByLane eligible nowMs))
      let picked := picked.take (min (s.batchSizeOf lane) (s.hedgeBudget - s.hedgesUsed))
      guard (picked ≠ [])
      let t := { s with hedgesUsed := s.hedgesUsed + picked.length }
      let t := picked.foldl (fun t ci => t.updChunk ci fun c => { c with hedged := true }) t
      return t.dispatch lane picked true nowMs

/-- First-choice work if any free lane has it; otherwise an idle free lane takes the
oldest pending chunks. -/
def choose (s : Scheduler F) (nowMs : Nat) : Option (Nat × List Nat) :=
  let free := s.freeLanes nowMs
  match s.bestFree (s.eligibleLanes nowMs) free with
  | some best => some best
  | none => do
    let l ← s.heaviestFree free
    let picked := (s.pending.filter s.isPending).take (s.batchSizeOf l)
    guard (picked ≠ [])
    return (l, picked)

def next (s : Scheduler F) (nowMs : Nat) (iter : List Nat) : Scheduler F × Option Assignment :=
  let s := s.expireBackoffs nowMs
  match s.nextHedge nowMs iter with
  | some (t, a) => (t, some a)
  | none =>
    match s.choose nowMs with
    | none => (s, none)
    | some (lane, picked) =>
      let (t, a) := s.dispatch lane picked false nowMs
      (t, some a)

def onGroupAck (s : Scheduler F) (ci : Nat) : Scheduler F :=
  if s.policy ≠ .group then s
  else match (s.chunks[ci]?).bind (·.group) with
    | none => s
    | some gid =>
      let s := { s with groups := s.groups.modify gid fun g => { g with acked := g.acked + 1 } }
      if (s.groups[gid]?).all (fun g => g.acked < g.need) then s
      else
        let drop (c : ChunkState) : Bool := c.group = some gid ∧ c.phase = .pending
        let t := { s with
          chunks := s.chunks.map fun c => if drop c then { c with phase := .skipped } else c
          skipped := s.skipped + s.chunks.countP drop }
        { t with pending := t.pending.filter t.isPending }

/- The chunk leaves the lane; with no other carrier it is requeued or given up. -/
def nack (s : Scheduler F) (lane ci : Nat) : Scheduler F :=
  let s := s.updChunk ci fun c => { c with on := c.on.filter (· ≠ lane) }
  match s.chunks[ci]? with
  | none => s
  | some c =>
    if c.on ≠ [] then s
    else if c.attempts ≥ s.cfg.maxAttempts then
      { s.updChunk ci (fun c => { c with phase := .failed }) with failed := s.failed + 1 }
    else
      { s.updChunk ci (fun c => { c with phase := .pending, hedged := false }) with
        pending := s.pending ++ [ci] }

def onAck (s : Scheduler F) (lane : Nat) (addr : Addr) (ok : Bool) : Scheduler F :=
  match s.index.lookup addr with
  | none => s
  | some ci =>
    match s.chunks[ci]? with
    | none => s
    | some c =>
      if c.phase = .done ∨ c.phase = .skipped then s
      else if ok then
        let s := { s.updChunk ci (fun c => { c with phase := .done, on := [] }) with
          acked := s.acked + 1 }
        let s := s.updLane lane fun l =>
          { l with ackedTotal := l.ackedTotal + 1, bytesTotal := l.bytesTotal + c.size }
        s.onGroupAck ci
      else
        (s.updLane lane fun l => { l with failedTotal := l.failedTotal + 1 }).nack lane ci

def fundLane (s : Scheduler F) (lane : Nat) : Scheduler F :=
  s.updLane lane fun l =>
    if l.health = .unfunded then { l with health := if l.bytesTotal > 0 then .live else .warming } else l

def retireLane (s : Scheduler F) (lane : Nat) : Scheduler F :=
  s.updLane lane fun l => { l with health := .retired }

def setLaneBatchMax (s : Scheduler F) (lane max : Nat) : Scheduler F :=
  s.updLane lane fun l => { l with info := { l.info with batchMax := some (Nat.max max 1) } }

def unfundedLanes (s : Scheduler F) : List Nat :=
  (List.range s.lanes.length).filter fun l => (s.lanes[l]?).any (·.health = .unfunded)

/- A batch with nothing acked counts against the lane's health. -/
def laneFault (nowMs : Nat) (l : Lane F) : Lane F :=
  let l := { l with failStreak := l.failStreak + 1 }
  if l.failStreak ≥ failStreak then
    let l := { l with backoffExp := l.backoffExp + 1 }
    let l := if l.backoffExp > maxBackoffExp then { l with health := .retired }
      else
        let wait := min (backoffBaseMs <<< (l.backoffExp - 1)) backoffMaxMs
        { l with health := .backoff (wrapAdd 64 nowMs wait) }
    { l with failStreak := 0 }
  else l

def unresolved (c : ChunkState) : Bool := ¬(c.phase = .done ∨ c.phase = .skipped)

/- A 402 must not consume a retry: the dispatch increment is undone. -/
def refundAttempt (s : Scheduler F) (ci : Nat) : Scheduler F :=
  s.updChunk ci fun c =>
    if unresolved c then { c with attempts := if c.attempts = 0 then 0 else c.attempts - 1 } else c

/-- Anything the batch leaves unresolved goes back to pending or dies, unless another
lane still carries it. -/
def requeue (lane : Nat) (s : Scheduler F) (ci : Nat) : Scheduler F :=
  match s.chunks[ci]? with
  | none => s
  | some c =>
    if !unresolved c then s
    else
      let on := c.on.filter (· ≠ lane)
      let s := s.updChunk ci fun c => { c with on }
      if on ≠ [] then s
      else if c.attempts ≥ s.cfg.maxAttempts then
        if c.phase ≠ .failed then
          { s.updChunk ci (fun c => { c with phase := .failed }) with failed := s.failed + 1 }
        else s
      else if c.phase ≠ .pending then
        { s.updChunk ci (fun c => { c with phase := .pending, hedged := false }) with
          pending := s.pending ++ [ci] }
      else s

def settleLane (s : Scheduler F) (lane : Nat) (chunks : List Nat) (outcome : BatchOutcome)
    (nowMs : Nat) : Scheduler F :=
  let ackedHere := chunks.countP fun ci => s.phase? ci = some .done
  match outcome with
  | .paymentRequired =>
    chunks.foldl refundAttempt (s.updLane lane fun l => { l with health := .unfunded })
  | .answered =>
    if ackedHere > 0 then
      s.updLane lane fun l => { l with failStreak := 0, backoffExp := 0, health := .live }
    else s.updLane lane (laneFault nowMs)
  | .failed _ => s.updLane lane (laneFault nowMs)

def onBatchResult (s : Scheduler F) (batch : Nat) (outcome : BatchOutcome) (nowMs : Nat) :
    Scheduler F :=
  match s.outstanding.lookup batch with
  | none => s
  | some (lane, chunks) =>
    let s := { s with outstanding := s.outstanding.erase batch }
    let s := s.updLane lane fun l => { l with inflight := l.inflight - 1 }
    chunks.foldl (requeue lane) (s.settleLane lane chunks outcome nowMs)

def onBatchTiming (s : Scheduler F) (lane acked elapsedMs : Nat) : Scheduler F :=
  s.updLane lane fun l =>
    let ms : F := F64.ofNat (max elapsedMs 1)
    let l := { l with batchMs := if F64.eq l.batchMs 0.0 then ms else 0.7 * l.batchMs + 0.3 * ms }
    if acked < rateMinSample then l
    else
      let sample := F64.ofNat acked * 1000.0 / ms
      { l with rate := if F64.eq l.rate 0.0 then sample else 0.7 * l.rate + 0.3 * sample }

def total (s : Scheduler F) : Nat := s.chunks.length
def inFlight (s : Scheduler F) : Nat := s.outstanding.keys.length

def done (s : Scheduler F) : Bool := s.acked + s.failed + s.skipped ≥ s.chunks.length

def failedAddrs (s : Scheduler F) : List Addr :=
  (s.chunks.filter (·.phase = .failed)).map (·.addr)

def stalled (s : Scheduler F) (nowMs : Nat) : Option StallReason :=
  if s.done || s.inFlight ≠ 0 then none
  else if !s.lanes.any (·.eligible nowMs) then
    if s.lanes.all (·.health = .retired) then some .allLanesDown
    else if s.lanes.all fun l => l.health = .retired || l.health = .unfunded then some .allLanesDown
    else none
  else if s.pending.isEmpty then some .chunksExhausted
  else none

def nextWakeMs (s : Scheduler F) (nowMs : Nat) : Option Nat :=
  let expiries := s.lanes.filterMap fun l => match l.health with
    | .backoff untilMs => if untilMs > nowMs then some untilMs else none
    | _ => none
  let deadlines := s.chunks.filterMap fun c =>
    if c.phase = .inFlight ∧ c.hedged = false then do
      let lane ← s.lanes[← c.on.head?]?
      return wrapAdd 64 c.sinceMs (lane.hedgeDeadlineMs s.cfg)
    else none
  (expiries ++ deadlines).min?

end Scheduler

end Hoverfly.Sched
