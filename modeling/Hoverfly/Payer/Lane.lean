import Mathlib.Data.List.AList
import Hoverfly.Payer.Account
import Hoverfly.Push.Frame

/-! A metered lane as the client pays it: the capability it presents, the shared cheque
store, and settlement. What the relay and the clock answer is an argument. -/
namespace Hoverfly.Payer
open Lib Meter Push

structure ChequeStore where
  payouts : AList (fun _ : String => Nat)

def relayKey (beneficiary : Bytes 20) : String := "relay:" ++ hexEncode beneficiary.val

namespace ChequeStore

def cumulative (s : ChequeStore) (key : String) : Nat := (s.payouts.lookup key.toLower).getD 0

def totalIssued (s : ChequeStore) : Nat := (s.payouts.entries.map (·.2)).foldl (satAdd 128) 0

def wouldExceedBalance (s : ChequeStore) (key : String) (cumulative balance : Nat) : Bool :=
  satAdd 128 (s.totalIssued - s.cumulative key) cumulative > balance

def setCumulative (s : ChequeStore) (key : String) (cumulative : Nat) : Except String ChequeStore :=
  if cumulative < (s.payouts.lookup key.toLower).getD 0 then .error "amount overflows u128"
  else .ok { payouts := s.payouts.insert key.toLower cumulative }

end ChequeStore

structure PaymentConfig where
  chainId : Nat
  balancePlur : Nat

structure OfferedChallenge where
  capPlur : Nat
  expiryUnix : Nat
  sign : Except String Unit

def OfferedChallenge.staleAfter (c : OfferedChallenge) : Nat := c.expiryUnix - 30

inductive PayResponse where
  | success
  | failure (code text : String)

/-- What the outside answers during one call on a payer, in order. -/
structure Replies where
  nowUnix : Nat → Nat
  challenge : Nat → Except String OfferedChallenge
  sign : Nat → Except String Unit
  pay : Nat → Except String PayResponse
  account : Except String Nat

structure LanePayer where
  baseUrl : String
  quote : PaymentQuote
  account : LaneAccount
  header : Bool := false
  headerStaleAfter : Nat := 0
  capPlur : Nat := 0

namespace LanePayer

def new (baseUrl : String) (quote : PaymentQuote) (cumulative : Nat) : LanePayer :=
  { baseUrl, quote, account := (LaneAccount.new quote.params quote.beneficiary).withCumulative cumulative }

def clearHeader (p : LanePayer) : LanePayer := { p with header := false, headerStaleAfter := 0 }

def syncCumulative (p : LanePayer) (store : ChequeStore) : LanePayer :=
  { p with account := p.account.setCumulativeTo (store.cumulative (relayKey p.quote.beneficiary)) }

def capKnown (p : LanePayer) : Bool := p.capPlur ≠ 0

def wrongChain (p : LanePayer) (cfg : PaymentConfig) : String :=
  s!"lane {p.baseUrl} quotes chain {p.quote.chainId} but this client pays on chain {cfg.chainId}"

/-- The `n`-th use of the header within a call. The line is adopted before the signature. -/
def useHeader (p : LanePayer) (cfg : PaymentConfig) (r : Replies) (n : Nat) : LanePayer × Except String Unit :=
  if p.quote.chainId ≠ cfg.chainId then (p, .error (p.wrongChain cfg))
  else if !p.header ∨ r.nowUnix n ≥ p.headerStaleAfter then
    match r.challenge n with
    | .error e => (p, .error e)
    | .ok offered =>
      let p := { p with
        capPlur := offered.capPlur
        account := p.account.setCap offered.capPlur
        headerStaleAfter := offered.staleAfter }
      match offered.sign with
      | .error e => (p, .error e)
      | .ok () => ({ p with header := true }, .ok ())
  else (p, .ok ())

/- Walks the estimate down until the rounded body fits. -/
def walkDown (params : Params) (budget : Nat) : Nat → Nat
  | 0 => 0
  | n + 1 =>
    if n + 1 > 1 ∧ params.priceBytes (wrapMul 64 (n + 1) maxFrameLen) > budget then walkDown params budget n
    else n + 1

def framesWithin (p : LanePayer) (budget : Nat) : Nat :=
  if budget = 0 then 0
  else
    let kib := min (budget / p.quote.params.pricePlurPerKib * 1024) (2 ^ 128 - 1)
    max (walkDown p.quote.params budget (min (kib / maxFrameLen) (2 ^ 64 - 1))) 1

def maxFrames (p : LanePayer) : Nat := if p.capPlur = 0 then 2 ^ 64 - 1 else p.framesWithin p.capPlur

def affordableFrames (p : LanePayer) : Nat :=
  if p.capPlur = 0 then 2 ^ 64 - 1
  else
    let headroom := p.capPlur - p.account.outstanding
    if p.quote.params.priceBytes maxFrameLen > headroom then 0 else p.framesWithin headroom

def hasHeadroom (p : LanePayer) : Bool :=
  p.capPlur = 0 ∨ satAdd 128 p.account.outstanding (p.quote.params.priceBytes maxFrameLen) ≤ p.capPlur

def wouldExceed (p : LanePayer) (bodyBytes : Nat) : Bool :=
  p.capPlur > 0 ∧ satAdd 128 p.account.outstanding (p.quote.params.priceBytes bodyBytes) > p.capPlur

def relayOwed (p : LanePayer) (cfg : PaymentConfig) (r : Replies) (n : Nat) : LanePayer × Except String Nat :=
  match p.useHeader cfg r n with
  | (p, .error e) => (p, .error e)
  | (p, .ok ()) => (p, r.account)

def reconcile (p : LanePayer) (cfg : PaymentConfig) (r : Replies) : LanePayer × Except String Bool :=
  match p.relayOwed cfg r 0 with
  | (p, .error e) => (p, .error e)
  | (p, .ok owed) =>
    match p.quote.checkReportedDebt owed cfg.balancePlur with
    | .error e => (p, .error e)
    | .ok () =>
      let (account, moved) := p.account.adoptRelayDebt owed
      ({ p with account }, .ok moved)

def overIssued (cfg : PaymentConfig) (cumulative : Nat) : String :=
  s!"cheque for {cumulative} would push total issuance past the chequebook's {cfg.balancePlur} balance across all lanes"

def present (p : LanePayer) (store : ChequeStore) (cfg : PaymentConfig) (r : Replies) (n cumulative : Nat) :
    LanePayer × Except String PayResponse :=
  if p.quote.chainId ≠ cfg.chainId then (p, .error (p.wrongChain cfg))
  else if store.wouldExceedBalance (relayKey p.quote.beneficiary) cumulative cfg.balancePlur then
    (p, .error (overIssued cfg cumulative))
  else
    match r.sign n with
    | .error e => (p, .error s!"sign cheque: {e}")
    | .ok () =>
      match p.useHeader cfg r (2 * n) with
      | (p, .error e) => (p, .error e)
      | (p, .ok ()) => (p, r.pay n)

def accept (p : LanePayer) (store : ChequeStore) (cfg : PaymentConfig) (cumulative : Nat) :
    LanePayer × ChequeStore × Except String (Option Nat) :=
  let key := relayKey p.quote.beneficiary
  if store.wouldExceedBalance key cumulative cfg.balancePlur then (p, store, .error (overIssued cfg cumulative))
  else
    match store.setCumulative key cumulative with
    | .error e => (p, store, .error s!"cheque store: {e}")
    | .ok store => ({ p with account := p.account.settled cumulative }, store, .ok (some cumulative))

/-- The part of `pay` after a failure that is not an overpayment still to be corrected. -/
def refused (p : LanePayer) (store : ChequeStore) (code text : String) :
    LanePayer × ChequeStore × Except String (Option Nat) :=
  if text.contains "nothing owed" then ({ p with account := p.account.forgivePhantomDebt }, store, .ok none)
  else (p, store, .error s!"pay {code}: {text.trimAscii}")

def payCorrected (p : LanePayer) (store : ChequeStore) (cfg : PaymentConfig) (r : Replies) :
    LanePayer × ChequeStore × Except String (Option Nat) :=
  match p.relayOwed cfg r 1 with
  | (p, .error e) => (p, store, .error e)
  | (p, .ok owed) =>
    let p := { p with account := p.account.syncRelayDebt owed }
    match p.account.nextCumulative with
    | none => (p, store, .ok none)
    | some corrected =>
      match p.present store cfg r 1 corrected with
      | (p, .error e) => (p, store, .error e)
      | (p, .ok .success) => p.accept store cfg corrected
      | (p, .ok (.failure code text)) => p.refused store code text

def settle (p : LanePayer) (store : ChequeStore) (cfg : PaymentConfig) (r : Replies) :
    LanePayer × ChequeStore × Except String (Option Nat) :=
  let p := p.syncCumulative store
  match p.account.nextCumulative with
  | none => (p, store, .ok none)
  | some cumulative =>
    match p.present store cfg r 0 cumulative with
    | (p, .error e) => (p, store, .error e)
    | (p, .ok .success) => p.accept store cfg cumulative
    | (p, .ok (.failure code text)) =>
      -- the answer that nothing is owed is read first
      if !text.contains "nothing owed" ∧ text.contains "is owed" then p.payCorrected store cfg r
      else p.refused store code text

end LanePayer

end Hoverfly.Payer
