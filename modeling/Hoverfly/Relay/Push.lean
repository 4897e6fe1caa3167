import Mathlib.Algebra.Order.BigOperators.Group.List
import Hoverfly.Lib.Fold
import Hoverfly.Meter.Params
import Hoverfly.Push.Frame
import Hoverfly.Relay.Replay

/-! The life of a `/v1/push` request on a metered relay. Every step is one critical section of the ledger's lock, so
that a list of events is an interleaving of any number of requests. -/
namespace Hoverfly.Relay
open Lib Meter Push

def pushBatchMax : Nat := 512
def pushMaxBody : Nat := pushBatchMax * maxFrameLen + 4096
def maxLiveReservations : Nat := 4096

structure MeterConfig where
  params : Params
  /-- Off, an overshoot is recorded and served anyway. -/
  hardMode : Bool

structure VerifiedChallenge where
  account : EthAddr
  batch : Bytes 32
  capPlur : Nat
deriving DecidableEq

structure Request where
  challenge : Option (Except String VerifiedChallenge)
  allowed : Bool
  contentLength : Option Nat

inductive Refusal where
  | line (status : Nat) (message : String)
  | paymentRequired (outstandingPlur maxOutstandingPlur settleEveryPlur : Nat)
deriving DecidableEq

structure Admitted where
  account : EthAddr
  batch : Bytes 32
  reservedPlur : Nat
deriving DecidableEq

def admitCheck (cfg : MeterConfig) (l : Ledger) (req : Request) :
    Except Refusal (Option (VerifiedChallenge × Nat)) :=
  match req.challenge with
  | none =>
    if cfg.hardMode then
      .error (.line 401 "metered relay: a challenge is required (GET /v1/challenge)")
    else .ok none
  | some (.error e) => .error (.line 401 e)
  | some (.ok verified) =>
    if !req.allowed then .error (.line 429 "slow down")
    else if l.liveReservations ≥ maxLiveReservations then
      .error (.line 503 "too many accounts with live reservations")
    else
      match req.contentLength with
      | none => .error (.line 411 "metered mode requires Content-Length so the reservation can be bounded")
      | some declared =>
        if declared > pushMaxBody then .error (.line 413 "body exceeds limit")
        else .ok (some (verified, declared))

/-- `GET /v1/account`: the thresholds are those of the presented line. -/
structure AccountReply where
  account : EthAddr
  owedPlur : Nat
  reservedPlur : Nat
  outstandingPlur : Nat
  maxOutstandingPlur : Nat
  settleEveryPlur : Nat
  minChequePlur : Nat

def accountResponse (cfg : MeterConfig) (l : Ledger) (verified : VerifiedChallenge) : AccountReply where
  account := verified.account
  owedPlur := l.owed verified.account
  reservedPlur := l.reserved verified.account
  outstandingPlur := l.outstanding verified.account
  maxOutstandingPlur := verified.capPlur
  settleEveryPlur := (cfg.params.effective verified.capPlur).settleEveryPlur
  minChequePlur := (cfg.params.effective verified.capPlur).minChequePlur

inductive BodyRead where
  | bytes (body : List UInt8)
  | failed
  | timedOut

def readFrames : BodyRead → Except Refusal (List StampedChunk)
  | .timedOut => .error (.line 408 "body read timed out")
  | .failed => .error (.line 413 "body exceeds limit or read error")
  | .bytes body =>
    if body.length > pushMaxBody then .error (.line 413 "body exceeds limit or read error")
    else
      match decodeBatch body pushBatchMax with
      | .error e => .error (.line 400 s!"frame decode: {e.message}")
      | .ok [] => .error (.line 400 "empty batch")
      | .ok chunks => .ok chunks

structure ValidStamp where
  batchId : Bytes 32
  signer : EthAddr

structure FrameWorld where
  validate : StampedChunk → Except String ValidStamp
  resolveOwner : Nat → Bytes 32 → Except String (EthAddr × Nat)
  recent : Nat → Bytes 32 → Bytes 32 → Bool

inductive AckLine where
  | err (addr : Bytes 32) (message : String)
  | dedup (addr : Bytes 32)
deriving DecidableEq

structure FrameLoop where
  index : Nat := 0
  batchHex : Option (Bytes 32) := none
  batchOwner : Option (EthAddr × Nat) := none
  billableBytes : Nat := 0
  dedupHits : Nat := 0
  accepted : List StampedChunk := []
  acks : List AckLine := []

namespace FrameLoop

def ackErr (st : FrameLoop) (addr : Bytes 32) (message : String) : FrameLoop :=
  { st with acks := st.acks ++ [.err addr message] }

def admitFrame (w : FrameWorld) (st : FrameLoop) (chunk : StampedChunk) (batchId : Bytes 32) : FrameLoop :=
  let billableBytes := st.billableBytes + chunk.frameBytes
  if w.recent st.index chunk.addr batchId then
    { st with
      dedupHits := st.dedupHits + 1
      billableBytes := billableBytes - chunk.frameBytes
      acks := st.acks ++ [.dedup chunk.addr] }
  else { st with billableBytes, accepted := st.accepted ++ [chunk] }

def checkOwner (guard : Option Admitted) (w : FrameWorld) (st : FrameLoop) (chunk : StampedChunk)
    (vs : ValidStamp) : FrameLoop :=
  match st.batchOwner with
  | none => st.ackErr chunk.addr "batch owner unresolved"
  | some (owner, _) =>
    if owner = vs.signer then
      if guard.any (·.batch ≠ vs.batchId) then
        st.ackErr chunk.addr "frame batch does not match the challenge (one batch per request)"
      else st.admitFrame w chunk vs.batchId
    else
      st.ackErr chunk.addr
        s!"stamp signer 0x{hexEncode vs.signer.val} is not the on-chain batch owner 0x{hexEncode owner.val}"

def frame (guard : Option Admitted) (w : FrameWorld) (st : FrameLoop) (chunk : StampedChunk) : FrameLoop :=
  let next :=
    match w.validate chunk with
    | .error e => st.ackErr chunk.addr s!"bad stamp: {e}"
    | .ok vs =>
      if st.batchHex = some vs.batchId then st.checkOwner guard w chunk vs
      else
        match w.resolveOwner st.index vs.batchId with
        | .error e => st.ackErr chunk.addr e
        | .ok owner =>
          checkOwner guard w { st with batchHex := some vs.batchId, batchOwner := some owner } chunk vs
  { next with index := st.index + 1 }

end FrameLoop

def frameLoop (guard : Option Admitted) (w : FrameWorld) (chunks : List StampedChunk) : FrameLoop :=
  chunks.foldl (FrameLoop.frame guard w) {}

namespace FrameLoop

def Took (w : FrameWorld) (st next : FrameLoop) (chunk : StampedChunk) : Prop :=
  (next.billableBytes = st.billableBytes ∧ next.accepted = st.accepted ∧
    ∃ ack, next.acks = st.acks ++ [ack] ∧ ((ack = .dedup chunk.addr ∧ ∃ vs, w.validate chunk = .ok vs ∧
      w.recent st.index chunk.addr vs.batchId = true) ∨ ∃ message, ack = .err chunk.addr message)) ∨
  (next.billableBytes = st.billableBytes + chunk.frameBytes ∧ next.accepted = st.accepted ++ [chunk] ∧
    next.acks = st.acks)

theorem took_ackErr (w : FrameWorld) (st : FrameLoop) (chunk : StampedChunk) (message : String) :
    Took w st (st.ackErr chunk.addr message) chunk :=
  .inl ⟨rfl, rfl, _, rfl, .inr ⟨message, rfl⟩⟩

theorem took_admitFrame {w : FrameWorld} (st : FrameLoop) {chunk : StampedChunk} {vs : ValidStamp}
    (valid : w.validate chunk = .ok vs) : Took w st (st.admitFrame w chunk vs.batchId) chunk := by
  unfold admitFrame
  dsimp only
  split
  · rename_i hit
    exact .inl ⟨Nat.add_sub_cancel .., rfl, _, rfl, .inl ⟨rfl, vs, valid, hit⟩⟩
  · exact .inr ⟨rfl, rfl, rfl⟩

theorem took_checkOwner (guard : Option Admitted) {w : FrameWorld} (st : FrameLoop) {chunk : StampedChunk}
    {vs : ValidStamp} (valid : w.validate chunk = .ok vs) : Took w st (st.checkOwner guard w chunk vs) chunk := by
  unfold checkOwner
  split
  · exact took_ackErr w st chunk _
  · split
    · split
      · exact took_ackErr w st chunk _
      · exact took_admitFrame st valid
    · exact took_ackErr w st chunk _

theorem took_frame (guard : Option Admitted) (w : FrameWorld) (st : FrameLoop) (chunk : StampedChunk) :
    Took w st (st.frame guard w chunk) chunk := by
  unfold frame
  dsimp only
  split
  · exact took_ackErr w st chunk _
  · rename_i valid
    split
    · exact took_checkOwner guard st valid
    · split
      · exact took_ackErr w st chunk _
      · exact took_checkOwner guard { st with batchHex := _, batchOwner := _ } valid

end FrameLoop

theorem frameLoop_billable (guard : Option Admitted) (w : FrameWorld) (chunks : List StampedChunk) :
    (frameLoop guard w chunks).billableBytes =
        ((frameLoop guard w chunks).accepted.map StampedChunk.frameBytes).sum ∧
      (frameLoop guard w chunks).accepted.Sublist chunks := by
  refine foldl_invariant (fun seen st => st.billableBytes = (st.accepted.map StampedChunk.frameBytes).sum ∧
    st.accepted.Sublist seen) (FrameLoop.frame guard w) chunks {} ⟨rfl, .slnil⟩ ?_
  rintro seen chunk st - ⟨billed, accepted⟩
  rcases FrameLoop.took_frame guard w st chunk with ⟨same, kept, _⟩ | ⟨more, taken, _⟩
  · rw [same, kept]
    exact ⟨billed, accepted.trans (List.sublist_append_left ..)⟩
  · rw [more, taken, List.map_append, List.sum_append, billed]
    exact ⟨rfl, accepted.append (.refl _)⟩

theorem billable_le (guard : Option Admitted) (w : FrameWorld) (chunks : List StampedChunk) :
    (frameLoop guard w chunks).billableBytes ≤ (chunks.map StampedChunk.frameBytes).sum := by
  obtain ⟨billed, accepted⟩ := frameLoop_billable guard w chunks
  rw [billed]
  exact (accepted.map _).sum_le_sum (fun _ _ => Nat.zero_le _)

inductive Task where
  | checked (verified : VerifiedChallenge) (declared : Nat)
  /-- Over its line in hard mode: reserved, and not given back yet. -/
  | refused (account : EthAddr) (reservedPlur : Nat) (answer : Refusal)
  | reading (guard : Option Admitted) (contentLength : Option Nat)
  | pushing (guard : Option Admitted) (chunks : List StampedChunk)
  | ended (answer : Option Refusal)

structure State where
  store : Store
  tasks : List Task

inductive Event where
  | request (req : Request)
  | reserve (id : Nat)
  | release (id : Nat)
  | body (id : Nat) (read : BodyRead)
  | cancel (id : Nat)
  | commit (id : Nat) (world : FrameWorld) (fault : Option String)
  | pay (account chequebook : EthAddr) (cumulative : Nat) (signature : Bytes 65) (fault : Option String)
  | restart (entropy : Bytes 32) (fault : Option String)

def afterCheck (req : Request) : Except Refusal (Option (VerifiedChallenge × Nat)) → Task
  | .error answer => .ended (some answer)
  | .ok none => .reading none req.contentLength
  | .ok (some (verified, declared)) => .checked verified declared

def afterReserve (cfg : MeterConfig) (verified : VerifiedChallenge) (declared : Nat) (adm : Admission) : Task :=
  if adm.overCap ∧ cfg.hardMode then
    .refused verified.account adm.reservedPlur
      (.paymentRequired adm.outstandingPlur adm.capPlur cfg.params.settleEveryPlur)
  else
    .reading (some { account := verified.account, batch := verified.batch, reservedPlur := adm.reservedPlur })
      (some declared)

namespace State

def opened (path : String) (entropy : Bytes 32) : State := { store := Store.create path entropy, tasks := [] }

def spawn (r : State) (t : Task) : State := { r with tasks := r.tasks ++ [t] }

def setTask (r : State) (id : Nat) (t : Task) : State := { r with tasks := r.tasks.set id t }

def call (path : String) (r : State) (op : Op) : State := { r with store := r.store.apply path op }

def dropGuard (path : String) (r : State) : Option Admitted → State
  | none => r
  | some guard => r.call path (.release guard.account guard.reservedPlur)

def commitGuard (cfg : MeterConfig) (path : String) (r : State) (billableBytes : Nat) (fault : Option String) :
    Option Admitted → State
  | none => r
  | some guard =>
    (r.call path (.commit guard.account guard.reservedPlur (cfg.params.priceBytes billableBytes))).call path
      (.persist fault)

def step (cfg : MeterConfig) (path : String) (r : State) : Event → State
  | .request req => r.spawn (afterCheck req (admitCheck cfg r.store.mem req))
  | .reserve id =>
    match r.tasks[id]? with
    | some (.checked verified declared) =>
      let amount := cfg.params.priceBytes declared
      let adm := (r.store.mem.reserve verified.account amount verified.capPlur).2
      (r.call path (.reserve verified.account amount verified.capPlur)).setTask id
        (afterReserve cfg verified declared adm)
    | _ => r
  | .release id =>
    match r.tasks[id]? with
    | some (.refused account reservedPlur answer) =>
      (r.call path (.release account reservedPlur)).setTask id (.ended (some answer))
    | _ => r
  | .body id read =>
    match r.tasks[id]? with
    | some (.reading guard _) =>
      match readFrames read with
      | .error answer => (r.dropGuard path guard).setTask id (.ended (some answer))
      | .ok chunks => r.setTask id (.pushing guard chunks)
    | _ => r
  | .cancel id =>
    match r.tasks[id]? with
    | some (.reading guard _) => (r.dropGuard path guard).setTask id (.ended none)
    | some (.pushing guard _) => (r.dropGuard path guard).setTask id (.ended none)
    | _ => r
  | .commit id world fault =>
    match r.tasks[id]? with
    | some (.pushing guard chunks) =>
      (r.commitGuard cfg path (frameLoop guard world chunks).billableBytes fault guard).setTask id (.ended none)
    | _ => r
  | .pay account chequebook cumulative signature fault =>
    r.call path (.credit account chequebook cumulative signature fault)
  | .restart entropy fault => { r.call path (.reload entropy fault) with tasks := [] }

end State

end Hoverfly.Relay
