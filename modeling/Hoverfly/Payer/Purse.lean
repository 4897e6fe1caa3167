import Hoverfly.Lib.Map
import Hoverfly.Lib.Run
import Hoverfly.Payer.Settlement

/-! The lanes of one client as they are paid: everything the driver does to a payer, to the shared
store and to the bytes in flight, in any order and with any answers. -/
namespace Hoverfly.Payer
open Lib Meter

theorem LanePayer.account_syncCumulative (p : LanePayer) (store : ChequeStore) :
    (p.syncCumulative store).account =
      { p.account with cumulativePlur := (p.syncCumulative store).account.cumulativePlur } := by
  unfold syncCumulative LaneAccount.setCumulativeTo
  dsimp only
  split <;> rfl

structure Purse where
  payers : List (Option LanePayer)
  store : ChequeStore
  /-- Batch id to the lane and the body bytes. -/
  inFlight : AList (fun _ : Nat => Nat × Nat) := ∅

inductive Act where
  | header (lane : Nat) (r : Replies)
  | clearHeader (lane : Nat)
  /-- A body that would not exceed the line is sent, if there is a capability for it. -/
  | send (lane batch bodyBytes : Nat) (r : Replies)
  | answer (lane batch : Nat) (reachedRelay : Bool) (dedupBytes : Nat)
  | settle (lane : Nat) (r : Replies) (received : Nat → Bool)
  | reconcile (lane : Nat) (r : Replies)

namespace Purse

def payer (s : Purse) (lane : Nat) : Option LanePayer := (s.payers[lane]?).join

def setPayer (s : Purse) (lane : Nat) (p : LanePayer) : Purse := { s with payers := s.payers.set lane (some p) }

def send (cfg : PaymentConfig) (s : Purse) (lane batch bodyBytes : Nat) (r : Replies) (p : LanePayer) : Purse :=
  if p.wouldExceed bodyBytes then s
  else
    match p.useHeader cfg r 0 with
    | (p, .error _) => s.setPayer lane p
    | (p, .ok ()) =>
      { s.setPayer lane { p with account := p.account.recordSent bodyBytes } with
        inFlight := s.inFlight.insert batch (lane, bodyBytes) }

def answered (a : LaneAccount) (sent : Nat) (reachedRelay : Bool) (dedupBytes : Nat) : LaneAccount :=
  let a := a.recordAnswered sent reachedRelay
  if reachedRelay ∧ dedupBytes > 0 then a.refundDedup dedupBytes else a

def answer (s : Purse) (lane batch : Nat) (reachedRelay : Bool) (dedupBytes : Nat) : Purse :=
  let sent := s.inFlight.lookup batch
  let s := { s with inFlight := s.inFlight.erase batch }
  match sent, s.payer lane with
  | some (_, sent), some p =>
    s.setPayer lane { p with account := answered p.account sent reachedRelay dedupBytes }
  | _, _ => s

def settle (cfg : PaymentConfig) (s : Purse) (lane : Nat) (r : Replies) (p : LanePayer) : Purse :=
  { s.setPayer lane (p.settle s.store cfg r).1 with store := (p.settle s.store cfg r).2.1 }

def step (cfg : PaymentConfig) (s : Purse) : Act → Purse
  | .header lane r => ((s.payer lane).map fun p => s.setPayer lane (p.useHeader cfg r 0).1).getD s
  | .clearHeader lane => ((s.payer lane).map fun p => s.setPayer lane p.clearHeader).getD s
  | .send lane batch bodyBytes r => ((s.payer lane).map (s.send cfg lane batch bodyBytes r)).getD s
  | .answer lane batch reachedRelay dedupBytes => s.answer lane batch reachedRelay dedupBytes
  | .settle lane r _ => ((s.payer lane).map (s.settle cfg lane r)).getD s
  | .reconcile lane r => ((s.payer lane).map fun p => s.setPayer lane (p.reconcile cfg r).1).getD s

end Purse

/-- What the lane's own bookkeeping is held to: `wire` is the price of the bytes it has in flight, and `unpaid` the
price of the bytes it has sent and no accepted cheque has covered. -/
structure Within (store : ChequeStore) (wire unpaid : Nat) (p : LanePayer) : Prop where
  params : p.account.params = p.quote.params
  line : p.capPlur ≤ p.quote.params.maxOutstandingPlur
  held : p.header = true → p.capPlur ≠ 0
  behind : p.account.cumulativePlur ≤ store.cumulative (relayKey p.quote.beneficiary)
  pending : wire ≤ p.account.pendingPlur
  /-- Before a line is known the relay has not been asked for a figure. -/
  unknown : p.capPlur = 0 → p.account.owedPlur + p.account.pendingPlur ≤ unpaid
  owed : p.account.owedPlur ≤ max unpaid p.quote.params.maxOutstandingPlur
  /-- The line is checked in saturating arithmetic, and the largest one is never exceeded. -/
  total : 2 ^ 128 - 1 ≤ p.quote.params.maxOutstandingPlur ∨
    p.account.owedPlur + p.account.pendingPlur ≤ max unpaid p.quote.params.maxOutstandingPlur

def Offers (quote : PaymentQuote) (r : Replies) : Prop :=
  ∀ n offered, r.challenge n = .ok offered → offered.capPlur ≠ 0 ∧ offered.capPlur ≤ quote.params.maxOutstandingPlur

namespace Within

variable {store : ChequeStore} {wire unpaid : Nat} {p q : LanePayer} {r : Replies}

theorem headed (within : Within store wire unpaid p) (headed : LanePayer.Headed r p q) (offers : Offers p.quote r) :
    Within store wire unpaid q := by
  obtain ⟨quote, params, owed, pending, cumulative, line, header⟩ := headed
  constructor
  · rw [params, quote]
    exact within.params
  · rw [quote]
    rcases line with ⟨cap, _⟩ | ⟨n, offered, fetched, cap, _⟩
    · exact cap ▸ within.line
    · exact cap ▸ (offers n offered fetched).2
  · intro held
    rcases header held with ⟨held, cap⟩ | ⟨n, offered, fetched, cap⟩
    · exact cap ▸ within.held held
    · exact cap ▸ (offers n offered fetched).1
  · rw [cumulative, quote]
    exact within.behind
  · exact pending ▸ within.pending
  · intro none_
    rw [owed, pending]
    rcases line with ⟨cap, _⟩ | ⟨n, offered, fetched, cap, _⟩
    · exact within.unknown (cap ▸ none_)
    · exact absurd (cap ▸ none_) (offers n offered fetched).1
  · rw [owed, quote]
    exact within.owed
  · rw [owed, pending, quote]
    exact within.total

theorem clearHeader (within : Within store wire unpaid p) : Within store wire unpaid p.clearHeader :=
  { within with held := fun held => by cases held }

theorem cumulative_sync (within : Within store wire unpaid p) :
    (p.syncCumulative store).account.cumulativePlur = store.cumulative (relayKey p.quote.beneficiary) := by
  have behind := within.behind
  unfold LanePayer.syncCumulative LaneAccount.setCumulativeTo
  dsimp only
  split
  · rfl
  · omega

theorem sync (within : Within store wire unpaid p) : Within store wire unpaid (p.syncCumulative store) := by
  have level := within.cumulative_sync
  have same := p.account_syncCumulative store
  have behind : (p.syncCumulative store).account.cumulativePlur ≤
      store.cumulative (relayKey (p.syncCumulative store).quote.beneficiary) := Nat.le_of_eq level
  constructor
  · rw [same]
    exact within.params
  · exact within.line
  · exact within.held
  · exact behind
  · rw [same]
    exact within.pending
  · rw [same]
    exact within.unknown
  · rw [same]
    exact within.owed
  · rw [same]
    exact within.total

theorem forgive (within : Within store wire unpaid p) :
    Within store wire unpaid { p with account := p.account.forgivePhantomDebt } := by
  have unknown := within.unknown
  have total := within.total
  refine { within with unknown := ?_, owed := Nat.zero_le _, total := ?_ } <;>
    simp only [LaneAccount.forgivePhantomDebt] <;> omega

theorem take (within : Within store wire unpaid p) (held : p.header = true) {figure : Nat}
    (fair : figure + p.account.pendingPlur ≤ max unpaid p.quote.params.maxOutstandingPlur) :
    Within store wire unpaid { p with account := p.account.syncRelayDebt figure } :=
  { within with
    unknown := fun none_ => absurd none_ (within.held held)
    owed := Nat.le_trans (Nat.le_add_right ..) fair
    total := .inr fair }

theorem adopt (within : Within store wire unpaid p) (held : p.header = true) {figure : Nat}
    (checked : figure ≤ p.quote.params.maxOutstandingPlur) :
    Within store wire unpaid { p with account := (p.account.adoptRelayDebt figure).1 } := by
  unfold LaneAccount.adoptRelayDebt
  dsimp only
  split
  · exact within
  · refine { within with
      unknown := fun none_ => absurd none_ (within.held held), owed := ?_, total := .inr ?_ } <;>
      dsimp only <;> omega

theorem quote_reconcile (p : LanePayer) (cfg : PaymentConfig) (r : Replies) :
    (p.reconcile cfg r).1.quote = p.quote := by
  have headed := LanePayer.headed_useHeader p cfg r 0
  unfold LanePayer.reconcile LanePayer.relayOwed
  cases used : p.useHeader cfg r 0 with
  | mk q answer =>
  rw [used] at headed
  cases answer with
  | error e => exact headed.quote
  | ok _ =>
    cases r.account with
    | error e => exact headed.quote
    | ok figure =>
      dsimp only
      split <;> exact headed.quote

theorem reconcile (within : Within store wire unpaid p) (cfg : PaymentConfig) (offers : Offers p.quote r) :
    Within store wire unpaid (p.reconcile cfg r).1 := by
  have headed := LanePayer.headed_useHeader p cfg r 0
  have held := LanePayer.header_of_useHeader p cfg r 0
  unfold LanePayer.reconcile LanePayer.relayOwed
  cases used : p.useHeader cfg r 0 with
  | mk q answer =>
  rw [used] at headed held
  dsimp only at headed held
  have after := within.headed headed offers
  cases answer with
  | error e => exact after
  | ok _ =>
    cases reported : r.account with
    | error e => exact after
    | ok figure =>
      dsimp only
      cases checked : q.quote.checkReportedDebt figure cfg.balancePlur with
      | error e => exact after
      | ok _ =>
        have within_ceiling : figure ≤ q.quote.params.maxOutstandingPlur := by
          by_contra above
          simp [PaymentQuote.checkReportedDebt, Nat.not_le.mp above] at checked
        exact after.adopt (held rfl) within_ceiling

theorem sent (within : Within store wire unpaid p) {bodyBytes : Nat} (free : p.wouldExceed bodyBytes = false)
    (headed : LanePayer.Headed r p q) (offers : Offers p.quote r)
    (fits : Fits 128 (p.account.pendingPlur + p.quote.params.priceBytes bodyBytes)) :
    Within store (wire + p.quote.params.priceBytes bodyBytes) (unpaid + p.quote.params.priceBytes bodyBytes)
      { q with account := q.account.recordSent bodyBytes } := by
  have after := within.headed headed offers
  have line := within.line
  have unknown := within.unknown
  have owed := after.owed
  have price : q.account.params.priceBytes bodyBytes = p.quote.params.priceBytes bodyBytes := by
    rw [headed.params, within.params]
  have pending : (q.account.recordSent bodyBytes).pendingPlur =
      p.account.pendingPlur + p.quote.params.priceBytes bodyBytes := by
    rw [LaneAccount.recordSent, price, headed.pending]
    exact satAdd_of_fits fits
  have same : (q.account.recordSent bodyBytes).owedPlur = p.account.owedPlur := headed.owed
  constructor
  · exact after.params
  · exact after.line
  · exact after.held
  · exact after.behind
  · have wire := within.pending
    dsimp only
    omega
  · intro none_
    have before := after.unknown none_
    rw [headed.owed, headed.pending] at before
    dsimp only
    omega
  · rw [headed.owed] at owed
    dsimp only at owed ⊢
    omega
  · have room := of_decide_eq_false free
    simp only [LaneAccount.outstanding, satAdd] at room
    dsimp only
    rw [same, pending, headed.quote]
    omega

theorem answered (within : Within store wire unpaid p) {sent : Nat} (reachedRelay : Bool) (dedupBytes : Nat)
    (inFlight : p.quote.params.priceBytes sent ≤ wire) :
    Within store (wire - p.quote.params.priceBytes sent) unpaid
      { p with account := Purse.answered p.account sent reachedRelay dedupBytes } := by
  have params := within.params
  have pending := within.pending
  have unknown := within.unknown
  have owed := within.owed
  have total := within.total
  have clamp := satAdd_le 128 p.account.owedPlur (p.quote.params.priceBytes sent)
  have top : satAdd 128 p.account.owedPlur (p.quote.params.priceBytes sent) ≤ 2 ^ 128 - 1 := Nat.min_le_right _ _
  have after : (Purse.answered p.account sent reachedRelay dedupBytes).pendingPlur =
      p.account.pendingPlur - p.quote.params.priceBytes sent ∧
      ((Purse.answered p.account sent reachedRelay dedupBytes).owedPlur ≤ p.account.owedPlur ∨
        (Purse.answered p.account sent reachedRelay dedupBytes).owedPlur ≤
          satAdd 128 p.account.owedPlur (p.quote.params.priceBytes sent)) ∧
      (Purse.answered p.account sent reachedRelay dedupBytes).params = p.account.params ∧
      (Purse.answered p.account sent reachedRelay dedupBytes).cumulativePlur = p.account.cumulativePlur := by
    cases reachedRelay with
    | false => simp [Purse.answered, LaneAccount.recordAnswered, params]
    | true =>
      by_cases marked : dedupBytes > 0
      · simp [Purse.answered, LaneAccount.recordAnswered, LaneAccount.refundDedup, params, marked]
      · simp [Purse.answered, LaneAccount.recordAnswered, params, marked]
  obtain ⟨wired, charged, kept, cumulative⟩ := after
  constructor
  · exact kept.trans params
  · exact within.line
  · exact within.held
  · exact cumulative ▸ within.behind
  · dsimp only
    omega
  · intro none_
    have before := unknown none_
    dsimp only
    omega
  · dsimp only
    omega
  · dsimp only
    omega

theorem settled (within : Within store wire unpaid p) {after : ChequeStore} {cumulative : Nat}
    (level : p.account.cumulativePlur = store.cumulative (relayKey p.quote.beneficiary))
    (amount : cumulative ≤ p.account.cumulativePlur + p.account.owedPlur)
    (onward : store.cumulative (relayKey p.quote.beneficiary) ≤ cumulative)
    (record : after.cumulative (relayKey p.quote.beneficiary) = cumulative) :
    Within after wire (unpaid - (cumulative - store.cumulative (relayKey p.quote.beneficiary)))
      { p with account := p.account.settled cumulative } := by
  have unknown := within.unknown
  have owed := within.owed
  have total := within.total
  constructor
  · exact within.params
  · exact within.line
  · exact within.held
  · exact Nat.le_of_eq record.symm
  · exact within.pending
  · intro none_
    have before := unknown none_
    simp only [LaneAccount.settled]
    omega
  · simp only [LaneAccount.settled]
    omega
  · simp only [LaneAccount.settled]
    omega

theorem store_mono (within : Within store wire unpaid p) {after : ChequeStore} {less : Nat} (fewer : less ≤ wire)
    (grows : store.cumulative (relayKey p.quote.beneficiary) ≤ after.cumulative (relayKey p.quote.beneficiary)) :
    Within after less unpaid p :=
  { within with behind := Nat.le_trans within.behind grows, pending := Nat.le_trans fewer within.pending }

theorem paid (within : Within store wire unpaid p) {cfg : PaymentConfig} {cumulative : Nat}
    {out : LanePayer × ChequeStore} {log : List Signed} (offers : Offers p.quote r)
    (level : p.account.cumulativePlur = store.cumulative (relayKey p.quote.beneficiary))
    (amount : cumulative ≤ p.account.cumulativePlur + p.account.owedPlur)
    (paid : LanePayer.Paid p store cfg r cumulative out log) :
    Within out.2 wire (unpaid - (out.2.cumulative (relayKey p.quote.beneficiary) -
      store.cumulative (relayKey p.quote.beneficiary))) out.1 := by
  cases paid with
  | unpaid q log headed all =>
    rw [Nat.sub_self]
    exact within.headed headed offers
  | forgiven q headed =>
    rw [Nat.sub_self]
    exact (within.headed headed offers).forgive
  | unrecorded q headed =>
    rw [Nat.sub_self]
    exact within.headed headed offers
  | recorded q headed gate onward =>
    have record := ChequeStore.cumulative_insert store p.quote.beneficiary p.quote.beneficiary cumulative
    rw [if_pos rfl] at record
    dsimp only
    rw [record]
    have after := within.headed headed offers
    rw [← headed.cumulative, ← headed.owed] at amount
    rw [← headed.cumulative] at level
    rw [← headed.quote] at level onward record ⊢
    exact after.settled level amount onward record

theorem settles (within : Within store wire unpaid p) {cfg : PaymentConfig} {out : LanePayer × ChequeStore}
    {log : List Signed} (offers : Offers p.quote r)
    (fair : p.corrects store cfg r → ∀ figure, r.account = .ok figure →
      figure + p.account.pendingPlur ≤ max unpaid p.quote.params.maxOutstandingPlur)
    (settles : LanePayer.Settles p store cfg r out log) :
    (∀ y ∈ log, y.cumulative ≤ store.cumulative (relayKey p.quote.beneficiary) +
      max unpaid p.quote.params.maxOutstandingPlur) ∧
    Within out.2 wire (unpaid - (out.2.cumulative (relayKey p.quote.beneficiary) -
      store.cumulative (relayKey p.quote.beneficiary))) out.1 := by
  have synced := within.sync
  have level := within.cumulative_sync
  have pending : (p.syncCumulative store).account.pendingPlur = p.account.pendingPlur := by
    rw [p.account_syncCumulative store]
  rw [← pending] at fair
  have owed : (p.syncCumulative store).account.owedPlur ≤ max unpaid p.quote.params.maxOutstandingPlur := synced.owed
  cases settles with
  | nothing =>
    rw [Nat.sub_self]
    exact ⟨by simp, synced⟩
  | once cumulative out log next paid =>
    have amount := LaneAccount.nextCumulative_le next
    refine ⟨fun y member => ?_, synced.paid offers level amount paid⟩
    have same := (paid.passed y member).1
    omega
  | unread cumulative q next headed =>
    have amount := LaneAccount.nextCumulative_le next
    rw [Nat.sub_self]
    refine ⟨fun y member => ?_, synced.headed headed offers⟩
    obtain rfl := List.mem_singleton.mp member
    dsimp only
    omega
  | lowered cumulative figure q next headed gate asked held reported =>
    have amount := LaneAccount.nextCumulative_le next
    rw [Nat.sub_self]
    refine ⟨fun y member => ?_, (synced.headed headed offers).take held ?_⟩
    · obtain rfl := List.mem_singleton.mp member
      dsimp only
      omega
    · rw [headed.pending, headed.quote]
      exact fair asked figure reported
  | corrected cumulative figure again q out log next headed gate asked held reported second paid =>
    have amount := LaneAccount.nextCumulative_le next
    have amount' := LaneAccount.nextCumulative_le second
    have fair := fair asked figure reported
    have quote : q.quote = p.quote := headed.quote
    rw [← headed.pending, ← quote] at fair
    have taken := (synced.headed headed offers).take held fair
    have level' := headed.cumulative.trans level
    refine ⟨fun y member => ?_, ?_⟩
    · rcases List.mem_cons.mp member with rfl | member
      · dsimp only
        omega
      · have same := (paid.passed y member).1
        rw [quote] at fair
        simp only [LaneAccount.syncRelayDebt] at amount'
        omega
    · rw [← quote] at level' ⊢
      exact taken.paid (quote ▸ offers) level' amount' paid

end Within

end Hoverfly.Payer
