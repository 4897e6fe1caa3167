import Hoverfly.Payer.Account
import Hoverfly.Relay.Push

/-! One paying client with one lane to one relay. The client's driver handles one event at a time and waits for the
answer of a payment or an account read; the relay's steps fall anywhere in between. -/
namespace Hoverfly.Settle
open Lib Meter Payer Push Relay

structure Config where
  quote : PaymentQuote
  account : EthAddr
  chequebook : EthAddr
  batch : Bytes 32
  balancePlur : Nat
  hardMode : Bool

def Config.params (cfg : Config) : Params := cfg.quote.params

inductive Stage where
  | onTheWire
  | reserved (reservedPlur : Nat)
  /-- Over its line, and the reservation is not given back yet. -/
  | refusing (reservedPlur : Nat)
  | refused
  | committed (billedPlur : Nat) (acks : List AckLine)

def Stage.billedPlur : Stage → Nat
  | .committed billedPlur _ => billedPlur
  | _ => 0

structure Post where
  chunks : List StampedChunk
  stage : Stage
  /-- Still in the driver's `in_flight_bytes`. -/
  inFlight : Bool

namespace Post

def bodyBytes (p : Post) : Nat := (p.chunks.map StampedChunk.frameBytes).sum

def close (p : Post) : Post := { p with inFlight := false }

end Post

def dedupBytes (batch : List StampedChunk) (acks : List AckLine) : Nat :=
  (acks.map fun ack =>
    match ack with
    | .dedup addr => ((batch.find? (·.addr = addr)).map StampedChunk.frameBytes).getD 0
    | .err .. => 0).sum

structure Client where
  account : LaneAccount
  stored : Nat

inductive PayReply where
  | accepted
  | nothingOwed
  | overpaid
  | refused
deriving DecidableEq

inductive Awaiting where
  | nothing
  | pay (cumulative : Nat) (correctOnce : Bool)
  | payReply (cumulative : Nat) (correctOnce : Bool) (reply : PayReply)
  /-- `/v1/account`, for a reconcile or to correct a cheque refused as an overpayment. -/
  | owed (correcting : Bool)
  | owedReply (correcting : Bool) (owedPlur : Nat)
deriving DecidableEq

structure Parties where
  client : Client
  awaiting : Awaiting
  ledger : Ledger
  file : Option OnDisk
  posts : List Post

namespace Client

def nextCheque (c : Client) : Client × Option Nat :=
  let c := { c with account := c.account.setCumulativeTo c.stored }
  (c, c.account.nextCumulative)

def paid (c : Client) (cumulative : Nat) : Client :=
  if cumulative < c.stored then c
  else { account := c.account.settled cumulative, stored := cumulative }

def answered (c : Client) (p : Post) (reachedRelay : Bool) (dedup : Nat) : Client :=
  let account := c.account.recordAnswered p.bodyBytes reachedRelay
  { c with account := if reachedRelay ∧ dedup > 0 then account.refundDedup dedup else account }

def drain (c : Client) (posts : List Post) : Client :=
  posts.foldl (fun c p => if p.inFlight then c.answered p true 0 else c) c

end Client

/-- `pay_response`. `pass` stands for the checks that read neither debt nor cheques: the
rate limit, the cheque's fields, the dust floor and the chain. -/
def payResponse (cfg : Config) (l : Ledger) (cumulative : Nat) (pass : Bool) (signature : Bytes 65)
    (fault : Option String) (file : Option OnDisk) : Ledger × Option OnDisk × PayReply :=
  if l.owed cfg.account = 0 then (l, file, .nothingOwed)
  else if !pass then (l, file, .refused)
  else
    match Metered.credit l cfg.account cfg.chequebook cumulative signature fault file with
    | (l, file, .ok _) => (l, file, .accepted)
    | (l, file, .error (.overpayment ..)) => (l, file, .overpaid)
    | (l, file, .error _) => (l, file, .refused)

inductive Event where
  | send (chunks : List StampedChunk)
  | challenge (capPlur : Nat)
  | reserve (id capPlur : Nat)
  | release (id : Nat)
  | commit (id : Nat) (world : FrameWorld) (fault : Option String)
  | answer (id : Nat)
  | settle
  | reconcile
  | handlePay (pass : Bool) (signature : Bytes 65) (fault : Option String)
  | handleAccount
  | reply
  /-- The client gives up waiting; the relay may have acted or not. -/
  | lose
  | drain

namespace Parties

def relayStep (s : Parties) (id : Nat) (p : Post) (stage : Stage) (ledger : Ledger) (file : Option OnDisk) : Parties :=
  { s with posts := s.posts.set id { p with stage }, ledger, file }

def reservePost (cfg : Config) (s : Parties) (id : Nat) (p : Post) (capPlur : Nat) : Parties :=
  let out := s.ledger.reserve cfg.account (cfg.params.priceBytes p.bodyBytes) capPlur
  let stage :=
    if out.2.overCap ∧ cfg.hardMode then .refusing out.2.reservedPlur else .reserved out.2.reservedPlur
  s.relayStep id p stage out.1 s.file

def commitPost (cfg : Config) (s : Parties) (id : Nat) (p : Post) (reservedPlur : Nat) (world : FrameWorld)
    (fault : Option String) : Parties :=
  let loop := frameLoop (some { account := cfg.account, batch := cfg.batch, reservedPlur }) world p.chunks
  let billed := cfg.params.priceBytes loop.billableBytes
  let ledger := s.ledger.commit cfg.account reservedPlur billed
  s.relayStep id p (.committed billed loop.acks) ledger (ledger.persist fault s.file).1

def closePost (s : Parties) (id : Nat) (p : Post) (client : Client) : Parties :=
  { s with client, posts := s.posts.set id p.close }

def answerPost (s : Parties) (id : Nat) (p : Post) : Parties :=
  match p.stage with
  | .refused => s.closePost id p (s.client.answered p false 0)
  | .committed _ acks => s.closePost id p (s.client.answered p true (dedupBytes p.chunks acks))
  | _ => s

def takeReply (cfg : Config) (s : Parties) : Parties :=
  match s.awaiting with
  | .payReply cumulative _ .accepted => { s with client := s.client.paid cumulative, awaiting := .nothing }
  | .payReply _ _ .nothingOwed =>
    { s with
      client := { s.client with account := s.client.account.forgivePhantomDebt }
      awaiting := .nothing }
  | .payReply _ true .overpaid => { s with awaiting := .owed true }
  | .payReply .. => { s with awaiting := .nothing }
  | .owedReply false owedPlur =>
    match cfg.quote.checkReportedDebt owedPlur cfg.balancePlur with
    | .ok () =>
      { s with
        client := { s.client with account := (s.client.account.adoptRelayDebt owedPlur).1 }
        awaiting := .nothing }
    | .error _ => { s with awaiting := .nothing }
  | .owedReply true owedPlur =>
    let account := s.client.account.syncRelayDebt owedPlur
    { s with
      client := { s.client with account }
      awaiting := match account.nextCumulative with
        | none => .nothing
        | some corrected => .pay corrected false }
  | _ => s

def step (cfg : Config) (s : Parties) : Event → Parties
  | .send chunks =>
    if s.awaiting = .nothing then
      let p : Post := { chunks, stage := .onTheWire, inFlight := true }
      { s with
        client := { s.client with account := s.client.account.recordSent p.bodyBytes }
        posts := s.posts ++ [p] }
    else s
  | .challenge capPlur =>
    if s.awaiting = .nothing then
      { s with client := { s.client with account := s.client.account.setCap capPlur } }
    else s
  | .reserve id capPlur =>
    match s.posts[id]? with
    | some ⟨chunks, .onTheWire, inFlight⟩ => s.reservePost cfg id ⟨chunks, .onTheWire, inFlight⟩ capPlur
    | _ => s
  | .release id =>
    match s.posts[id]? with
    | some ⟨chunks, .refusing reservedPlur, inFlight⟩ =>
      s.relayStep id ⟨chunks, .refusing reservedPlur, inFlight⟩ .refused
        (s.ledger.release cfg.account reservedPlur) s.file
    | _ => s
  | .commit id world fault =>
    match s.posts[id]? with
    | some ⟨chunks, .reserved reservedPlur, inFlight⟩ =>
      s.commitPost cfg id ⟨chunks, .reserved reservedPlur, inFlight⟩ reservedPlur world fault
    | _ => s
  | .answer id =>
    match s.posts[id]? with
    | some p => if s.awaiting = .nothing ∧ p.inFlight then s.answerPost id p else s
    | none => s
  | .settle =>
    if s.awaiting = .nothing then
      match s.client.nextCheque with
      | (client, none) => { s with client }
      | (client, some cumulative) => { s with client, awaiting := .pay cumulative true }
    else s
  | .reconcile => if s.awaiting = .nothing then { s with awaiting := .owed false } else s
  | .handlePay pass signature fault =>
    match s.awaiting with
    | .pay cumulative correctOnce =>
      match payResponse cfg s.ledger cumulative pass signature fault s.file with
      | (ledger, file, reply) => { s with ledger, file, awaiting := .payReply cumulative correctOnce reply }
    | _ => s
  | .handleAccount =>
    match s.awaiting with
    | .owed correcting => { s with awaiting := .owedReply correcting (s.ledger.owed cfg.account) }
    | _ => s
  | .reply => s.takeReply cfg
  | .lose => { s with awaiting := .nothing }
  | .drain =>
    if s.awaiting = .nothing then
      { s with
        client := s.client.drain s.posts
        posts := s.posts.map Post.close }
    else s

end Parties

end Hoverfly.Settle
