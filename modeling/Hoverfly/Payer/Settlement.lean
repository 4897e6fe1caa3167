import Hoverfly.Lib.Text
import Hoverfly.Payer.Lane

/-! What one settlement can do: the cheques it signs, which of them reach the relay, and
what it leaves of the account and of the shared store. -/
namespace Hoverfly.Payer
open Lib Meter

theorem toLower_hexDigit : ∀ n < 16, (hexDigit n).toLower = hexDigit n := by decide

theorem toLower_relayKey (b : Bytes 20) : (relayKey b).toLower = relayKey b := by
  have digits : ∀ x : UInt8, (hexPair x).map Char.toLower = hexPair x := by
    intro x
    have size := x.toNat_lt
    simp only [hexPair, List.map_cons, List.map_nil]
    rw [toLower_hexDigit _ (by omega), toLower_hexDigit _ (by omega)]
  have text : ∀ bs : List UInt8, (bs.flatMap hexPair).map Char.toLower = bs.flatMap hexPair := by
    intro bs
    induction bs with
    | nil => rfl
    | cons x bs ih => rw [List.flatMap_cons, List.map_append, digits, ih]
  apply String.toList_inj.mp
  change ((relayKey b).map Char.toLower).toList = _
  rw [String.toList_map, relayKey, String.toList_append, toList_hexEncode, List.map_append, text]
  rfl

theorem relayKey_injective {a b : Bytes 20} (same : relayKey a = relayKey b) : a = b := by
  have texts := congrArg String.toList same
  rw [relayKey, relayKey, String.toList_append, String.toList_append, toList_hexEncode, toList_hexEncode] at texts
  have bytes := hexDecode_pairs a.val
  rw [List.append_cancel_left texts, hexDecode_pairs] at bytes
  exact Subtype.ext (Except.ok.inj bytes).symm

theorem ChequeStore.cumulative_insert (store : ChequeStore) (a b : Bytes 20) (v : Nat) :
    ChequeStore.cumulative { payouts := store.payouts.insert (relayKey a).toLower v } (relayKey b) =
      if b = a then v else store.cumulative (relayKey b) := by
  unfold cumulative
  dsimp only
  rw [toLower_relayKey, toLower_relayKey]
  split
  next same => rw [same, AList.lookup_insert]; rfl
  next other => rw [AList.lookup_insert_ne fun same => other (relayKey_injective same)]

structure Signed where
  cumulative : Nat
  handed : Bool
  accepted : Bool
deriving DecidableEq

namespace LanePayer

/-- The cheque of one `present`, if it gets as far as the signature. `received` says of a payment
without an answer whether the relay got it. -/
def signed (p : LanePayer) (store : ChequeStore) (cfg : PaymentConfig) (r : Replies) (received : Nat → Bool)
    (n cumulative : Nat) : List Signed :=
  if p.quote.chainId ≠ cfg.chainId then []
  else if store.wouldExceedBalance (relayKey p.quote.beneficiary) cumulative cfg.balancePlur then []
  else
    match r.sign n with
    | .error _ => []
    | .ok () =>
      match p.useHeader cfg r (2 * n) with
      | (_, .error _) => [{ cumulative, handed := false, accepted := false }]
      | (_, .ok ()) =>
        match r.pay n with
        | .ok .success => [{ cumulative, handed := true, accepted := true }]
        | .ok (.failure ..) => [{ cumulative, handed := true, accepted := false }]
        | .error _ => [{ cumulative, handed := received n, accepted := false }]

def correction (p : LanePayer) (store : ChequeStore) (cfg : PaymentConfig) (r : Replies) (received : Nat → Bool) :
    List Signed :=
  match p.relayOwed cfg r 1 with
  | (_, .error _) => []
  | (p, .ok owed) =>
    let p := { p with account := p.account.syncRelayDebt owed }
    match p.account.nextCumulative with
    | none => []
    | some corrected => p.signed store cfg r received 1 corrected

def cheques (p : LanePayer) (store : ChequeStore) (cfg : PaymentConfig) (r : Replies) (received : Nat → Bool) :
    List Signed :=
  let p := p.syncCumulative store
  match p.account.nextCumulative with
  | none => []
  | some cumulative =>
    p.signed store cfg r received 0 cumulative ++
      match p.present store cfg r 0 cumulative with
      | (p, .ok (.failure _ text)) =>
        if !text.contains "nothing owed" ∧ text.contains "is owed" then p.correction store cfg r received else []
      | _ => []

def corrects (p : LanePayer) (store : ChequeStore) (cfg : PaymentConfig) (r : Replies) : Bool :=
  let p := p.syncCumulative store
  match p.account.nextCumulative with
  | none => false
  | some cumulative =>
    match p.present store cfg r 0 cumulative with
    | (_, .ok (.failure _ text)) => !text.contains "nothing owed" ∧ text.contains "is owed"
    | _ => false

variable {p : LanePayer} {store : ChequeStore} {cfg : PaymentConfig} {r : Replies} {received : Nat → Bool}

structure Headed (r : Replies) (p q : LanePayer) : Prop where
  quote : q.quote = p.quote
  params : q.account.params = p.account.params
  owed : q.account.owedPlur = p.account.owedPlur
  pending : q.account.pendingPlur = p.account.pendingPlur
  cumulative : q.account.cumulativePlur = p.account.cumulativePlur
  line : (q.capPlur = p.capPlur ∧ q.account.capPlur = p.account.capPlur) ∨
    ∃ n offered, r.challenge n = .ok offered ∧ q.capPlur = offered.capPlur ∧ q.account.capPlur = offered.capPlur
  /-- A capability comes with its line. -/
  header : q.header = true → (p.header = true ∧ q.capPlur = p.capPlur) ∨
    ∃ n offered, r.challenge n = .ok offered ∧ q.capPlur = offered.capPlur

theorem Headed.refl (r : Replies) (p : LanePayer) : Headed r p p :=
  ⟨rfl, rfl, rfl, rfl, rfl, .inl ⟨rfl, rfl⟩, fun held => .inl ⟨held, rfl⟩⟩

variable {q : LanePayer} {cumulative : Nat} {log : List Signed} {out : LanePayer × ChequeStore}

theorem Headed.trans {p s : LanePayer} (first : Headed r p q) (second : Headed r q s) : Headed r p s where
  quote := second.quote.trans first.quote
  params := second.params.trans first.params
  owed := second.owed.trans first.owed
  pending := second.pending.trans first.pending
  cumulative := second.cumulative.trans first.cumulative
  line := by
    rcases second.line with ⟨cap, line⟩ | fetched
    · rw [cap, line]
      exact first.line
    · exact .inr fetched
  header := by
    intro held
    rcases second.header held with ⟨held, cap⟩ | fetched
    · rw [cap]
      exact first.header held
    · exact .inr fetched

theorem headed_useHeader (p : LanePayer) (cfg : PaymentConfig) (r : Replies) (n : Nat) :
    Headed r p (p.useHeader cfg r n).1 := by
  unfold useHeader
  split
  · exact .refl r p
  split
  · cases fetched : r.challenge n with
    | error e => exact .refl r p
    | ok offered =>
      dsimp only
      cases offered.sign with
      | error e =>
        exact ⟨rfl, rfl, rfl, rfl, rfl, .inr ⟨n, offered, fetched, rfl, rfl⟩, fun _ => .inr ⟨n, offered, fetched, rfl⟩⟩
      | ok _ =>
        exact ⟨rfl, rfl, rfl, rfl, rfl, .inr ⟨n, offered, fetched, rfl, rfl⟩, fun _ => .inr ⟨n, offered, fetched, rfl⟩⟩
  · exact .refl r p

theorem header_of_useHeader (p : LanePayer) (cfg : PaymentConfig) (r : Replies) (n : Nat)
    (used : (p.useHeader cfg r n).2 = .ok ()) : (p.useHeader cfg r n).1.header = true := by
  unfold useHeader at used ⊢
  split at used
  · cases used
  · rename_i chain
    rw [if_neg chain]
    split at used
    · rename_i stale
      rw [if_pos stale]
      cases fetched : r.challenge n with
      | error e =>
        rw [fetched] at used
        cases used
      | ok offered =>
        rw [fetched] at used
        dsimp only at used ⊢
        cases signed : offered.sign with
        | error e =>
          rw [signed] at used
          cases used
        | ok _ => rfl
    · rename_i fresh
      rw [if_neg fresh]
      simpa using (not_or.mp fresh).1

inductive Presented (p : LanePayer) (store : ChequeStore) (cfg : PaymentConfig) (r : Replies) (cumulative : Nat) :
    LanePayer × Except String PayResponse → List Signed → Prop
  | unanswered (q : LanePayer) (e : String) (log : List Signed) (headed : Headed r p q)
      (all : ∀ c ∈ log, c.cumulative = cumulative ∧ c.accepted = false ∧
        store.wouldExceedBalance (relayKey p.quote.beneficiary) cumulative cfg.balancePlur = false) :
      Presented p store cfg r cumulative (q, .error e) log
  | refused (q : LanePayer) (code text : String) (headed : Headed r p q)
      (within : store.wouldExceedBalance (relayKey p.quote.beneficiary) cumulative cfg.balancePlur = false) :
      Presented p store cfg r cumulative (q, .ok (.failure code text)) [⟨cumulative, true, false⟩]
  | taken (q : LanePayer) (headed : Headed r p q)
      (within : store.wouldExceedBalance (relayKey p.quote.beneficiary) cumulative cfg.balancePlur = false) :
      Presented p store cfg r cumulative (q, .ok .success) [⟨cumulative, true, true⟩]

theorem presented (p : LanePayer) (store : ChequeStore) (cfg : PaymentConfig) (r : Replies) (received : Nat → Bool)
    (n cumulative : Nat) :
    Presented p store cfg r cumulative (p.present store cfg r n cumulative)
      (p.signed store cfg r received n cumulative) := by
  unfold present signed
  by_cases chain : p.quote.chainId ≠ cfg.chainId
  · rw [if_pos chain, if_pos chain]
    exact .unanswered p _ [] (.refl r p) (by simp)
  rw [if_neg chain, if_neg chain]
  cases gate : store.wouldExceedBalance (relayKey p.quote.beneficiary) cumulative cfg.balancePlur with
  | true => exact .unanswered p _ [] (.refl r p) (by simp)
  | false =>
    simp only [Bool.false_eq_true, if_false]
    cases r.sign n with
    | error e => exact .unanswered p _ [] (.refl r p) (by simp)
    | ok _ =>
      have headed := headed_useHeader p cfg r (2 * n)
      dsimp only
      cases used : p.useHeader cfg r (2 * n) with
      | mk q answer =>
      rw [used] at headed
      cases answer with
      | error e => exact .unanswered q e _ headed (by simp [gate])
      | ok _ =>
        dsimp only
        cases r.pay n with
        | error e => exact .unanswered q e _ headed (by simp [gate])
        | ok answer =>
          cases answer with
          | success => exact .taken q headed gate
          | failure code text => exact .refused q code text headed gate

inductive Paid (p : LanePayer) (store : ChequeStore) (cfg : PaymentConfig) (r : Replies) (cumulative : Nat) :
    LanePayer × ChequeStore → List Signed → Prop
  | unpaid (q : LanePayer) (log : List Signed) (headed : Headed r p q)
      (all : ∀ c ∈ log, c.cumulative = cumulative ∧ c.accepted = false ∧
        store.wouldExceedBalance (relayKey p.quote.beneficiary) cumulative cfg.balancePlur = false) :
      Paid p store cfg r cumulative (q, store) log
  | forgiven (q : LanePayer) (headed : Headed r p q)
      (within : store.wouldExceedBalance (relayKey p.quote.beneficiary) cumulative cfg.balancePlur = false) :
      Paid p store cfg r cumulative ({ q with account := q.account.forgivePhantomDebt }, store)
        [⟨cumulative, true, false⟩]
  | unrecorded (q : LanePayer) (headed : Headed r p q)
      (within : store.wouldExceedBalance (relayKey p.quote.beneficiary) cumulative cfg.balancePlur = false)
      (back : cumulative < store.cumulative (relayKey p.quote.beneficiary)) :
      Paid p store cfg r cumulative (q, store) [⟨cumulative, true, true⟩]
  | recorded (q : LanePayer) (headed : Headed r p q)
      (within : store.wouldExceedBalance (relayKey p.quote.beneficiary) cumulative cfg.balancePlur = false)
      (onward : store.cumulative (relayKey p.quote.beneficiary) ≤ cumulative) :
      Paid p store cfg r cumulative ({ q with account := q.account.settled cumulative },
        { payouts := store.payouts.insert (relayKey p.quote.beneficiary).toLower cumulative })
        [⟨cumulative, true, true⟩]

theorem paid_accept (headed : Headed r p q)
    (within : store.wouldExceedBalance (relayKey p.quote.beneficiary) cumulative cfg.balancePlur = false) :
    Paid p store cfg r cumulative ((q.accept store cfg cumulative).1, (q.accept store cfg cumulative).2.1)
      [⟨cumulative, true, true⟩] := by
  have key : relayKey q.quote.beneficiary = relayKey p.quote.beneficiary := by rw [headed.quote]
  unfold accept
  dsimp only
  rw [key, within]
  simp only [Bool.false_eq_true, if_false, ChequeStore.setCumulative]
  by_cases back : cumulative < (store.payouts.lookup (relayKey p.quote.beneficiary).toLower).getD 0
  · rw [if_pos back]
    exact .unrecorded q headed within back
  · rw [if_neg back]
    exact .recorded q headed within (Nat.not_lt.mp back)

theorem paid_refused (code text : String) (headed : Headed r p q)
    (within : store.wouldExceedBalance (relayKey p.quote.beneficiary) cumulative cfg.balancePlur = false) :
    Paid p store cfg r cumulative ((q.refused store code text).1, (q.refused store code text).2.1)
      [⟨cumulative, true, false⟩] := by
  unfold LanePayer.refused
  split
  · exact .forgiven q headed within
  · exact .unpaid q _ headed (by simp [within])

/-- What a settlement can come to: no cheque, one cheque, or a first cheque refused as too high and then
the relay's figure taken for the debt, with or without a second cheque for it. -/
inductive Settles (p : LanePayer) (store : ChequeStore) (cfg : PaymentConfig) (r : Replies) :
    LanePayer × ChequeStore → List Signed → Prop
  | nothing (none_ : (p.syncCumulative store).account.nextCumulative = none) :
      Settles p store cfg r (p.syncCumulative store, store) []
  | once (cumulative : Nat) (out : LanePayer × ChequeStore) (log : List Signed)
      (next : (p.syncCumulative store).account.nextCumulative = some cumulative)
      (paid : Paid (p.syncCumulative store) store cfg r cumulative out log) : Settles p store cfg r out log
  | unread (cumulative : Nat) (q : LanePayer)
      (next : (p.syncCumulative store).account.nextCumulative = some cumulative)
      (headed : Headed r (p.syncCumulative store) q)
      (within : store.wouldExceedBalance (relayKey p.quote.beneficiary) cumulative cfg.balancePlur = false) :
      Settles p store cfg r (q, store) [⟨cumulative, true, false⟩]
  | lowered (cumulative owed : Nat) (q : LanePayer)
      (next : (p.syncCumulative store).account.nextCumulative = some cumulative)
      (headed : Headed r (p.syncCumulative store) q)
      (within : store.wouldExceedBalance (relayKey p.quote.beneficiary) cumulative cfg.balancePlur = false)
      (asked : p.corrects store cfg r) (held : q.header = true) (reported : r.account = .ok owed) :
      Settles p store cfg r ({ q with account := q.account.syncRelayDebt owed }, store) [⟨cumulative, true, false⟩]
  | corrected (cumulative owed again : Nat) (q : LanePayer) (out : LanePayer × ChequeStore) (log : List Signed)
      (next : (p.syncCumulative store).account.nextCumulative = some cumulative)
      (headed : Headed r (p.syncCumulative store) q)
      (within : store.wouldExceedBalance (relayKey p.quote.beneficiary) cumulative cfg.balancePlur = false)
      (asked : p.corrects store cfg r) (held : q.header = true) (reported : r.account = .ok owed)
      (second : (q.account.syncRelayDebt owed).nextCumulative = some again)
      (paid : Paid { q with account := q.account.syncRelayDebt owed } store cfg r again out log) :
      Settles p store cfg r out (⟨cumulative, true, false⟩ :: log)

theorem settles_corrected (received : Nat → Bool) (asked : p.corrects store cfg r)
    (next : (p.syncCumulative store).account.nextCumulative = some cumulative)
    (headed : Headed r (p.syncCumulative store) q)
    (within : store.wouldExceedBalance (relayKey p.quote.beneficiary) cumulative cfg.balancePlur = false) :
    Settles p store cfg r ((q.payCorrected store cfg r).1, (q.payCorrected store cfg r).2.1)
      (⟨cumulative, true, false⟩ :: q.correction store cfg r received) := by
  have used := headed_useHeader q cfg r 1
  have held := header_of_useHeader q cfg r 1
  unfold payCorrected correction relayOwed
  cases header : q.useHeader cfg r 1 with
  | mk s answer =>
  rw [header] at used held
  cases answer with
  | error e => exact .unread cumulative s next (headed.trans used) within
  | ok _ =>
    have held := held rfl
    dsimp only at held ⊢
    cases reported : r.account with
    | error e => exact .unread cumulative s next (headed.trans used) within
    | ok owed =>
      dsimp only
      cases second : (s.account.syncRelayDebt owed).nextCumulative with
      | none => exact .lowered cumulative owed s next (headed.trans used) within asked held reported
      | some again =>
        dsimp only
        have shown := presented { s with account := s.account.syncRelayDebt owed } store cfg r received 1 again
        refine .corrected cumulative owed again s _ _ next (headed.trans used) within asked held reported second ?_
        generalize { s with account := s.account.syncRelayDebt owed } = t at shown ⊢
        generalize t.signed store cfg r received 1 again = log at shown ⊢
        generalize t.present store cfg r 1 again = answer at shown ⊢
        cases shown with
        | unanswered u e log headed all => exact .unpaid u log headed all
        | refused u code text headed within => exact paid_refused code text headed within
        | taken u headed within => exact paid_accept headed within

theorem settles (p : LanePayer) (store : ChequeStore) (cfg : PaymentConfig) (r : Replies) (received : Nat → Bool) :
    Settles p store cfg r ((p.settle store cfg r).1, (p.settle store cfg r).2.1) (p.cheques store cfg r received) := by
  unfold settle cheques
  dsimp only
  cases next : (p.syncCumulative store).account.nextCumulative with
  | none => exact .nothing next
  | some cumulative =>
    dsimp only
    have shown := presented (p.syncCumulative store) store cfg r received 0 cumulative
    have asked : p.corrects store cfg r = match (p.syncCumulative store).present store cfg r 0 cumulative with
        | (_, .ok (.failure _ text)) => !text.contains "nothing owed" ∧ text.contains "is owed"
        | _ => false := by
      simp only [corrects, next]
    generalize (p.syncCumulative store).signed store cfg r received 0 cumulative = log at shown ⊢
    generalize (p.syncCumulative store).present store cfg r 0 cumulative = answer at shown asked ⊢
    cases shown with
    | unanswered q e log headed all =>
      simp only [List.append_nil]
      exact .once cumulative _ _ next (.unpaid q log headed all)
    | refused q code text headed within =>
      dsimp only
      split
      · rename_i high
        exact settles_corrected received (asked.trans (by simpa using high)) next headed within
      · simp only [List.append_nil]
        exact .once cumulative _ _ next (paid_refused code text headed within)
    | taken q headed within =>
      simp only [List.append_nil]
      exact .once cumulative _ _ next (paid_accept headed within)

inductive Records (key : String) (store : ChequeStore) (log : List Signed) : ChequeStore → Prop
  | kept (behind : ∀ y ∈ log, y.accepted → y.cumulative < store.cumulative key) : Records key store log store
  | raised (y : Signed) (member : y ∈ log) (accepted : y.accepted) (onward : store.cumulative key ≤ y.cumulative)
      (highest : ∀ z ∈ log, z.accepted → z.cumulative ≤ y.cumulative) :
      Records key store log { payouts := store.payouts.insert key.toLower y.cumulative }

theorem Records.cons {key : String} {log : List Signed} {after : ChequeStore} (x : Signed)
    (refused : x.accepted = false) (records : Records key store log after) : Records key store (x :: log) after := by
  cases records with
  | kept behind => exact .kept (by simpa [refused] using behind)
  | raised y member accepted onward highest =>
    exact .raised y (List.mem_cons_of_mem _ member) accepted onward (by simpa [refused] using highest)

theorem Records.grows {a : Bytes 20} {after : ChequeStore}
    (records : Records (relayKey a) store log after) (b : Bytes 20) :
    store.cumulative (relayKey b) ≤ after.cumulative (relayKey b) := by
  cases records with
  | kept behind => exact Nat.le_refl _
  | raised y member accepted onward highest =>
    rw [ChequeStore.cumulative_insert]
    split
    next same => exact same ▸ onward
    next => exact Nat.le_refl _

theorem Paid.records
    (paid : Paid p store cfg r cumulative out log) : Records (relayKey p.quote.beneficiary) store log out.2 := by
  cases paid with
  | unpaid q log headed all =>
    refine .kept fun y member accepted => ?_
    have refused := (all y member).2.1
    simp [refused] at accepted
  | forgiven q headed within => exact .kept (by simp)
  | unrecorded q headed within back => exact .kept (by simpa using back)
  | recorded q headed within onward => exact .raised ⟨cumulative, true, true⟩ (by simp) rfl onward (by simp)

theorem Settles.records (settles : Settles p store cfg r out log) :
    Records (relayKey p.quote.beneficiary) store log out.2 := by
  cases settles with
  | nothing none_ => exact .kept (by simp)
  | once cumulative out log next paid => exact paid.records
  | unread cumulative q next headed within => exact .kept (by simp)
  | lowered cumulative owed q next headed within asked held reported => exact .kept (by simp)
  | corrected cumulative owed again q out log next headed within asked held reported second paid =>
    have key : relayKey q.quote.beneficiary = relayKey p.quote.beneficiary := by rw [headed.quote]; rfl
    have records := paid.records
    dsimp only at records
    rw [key] at records
    exact records.cons _ rfl

theorem Paid.quote (paid : Paid p store cfg r cumulative out log) : out.1.quote = p.quote := by
  cases paid with
  | unpaid q log headed => exact headed.quote
  | forgiven q headed => exact headed.quote
  | unrecorded q headed => exact headed.quote
  | recorded q headed => exact headed.quote

theorem Settles.quote (settles : Settles p store cfg r out log) :
    out.1.quote = p.quote := by
  cases settles with
  | nothing => rfl
  | once cumulative out log next paid => exact paid.quote
  | unread cumulative q next headed => exact headed.quote
  | lowered cumulative owed q next headed => exact headed.quote
  | corrected cumulative owed again q out log next headed within asked held reported second paid =>
    exact paid.quote.trans headed.quote

theorem Paid.passed (paid : Paid p store cfg r cumulative out log) : ∀ y ∈ log, y.cumulative = cumulative ∧
      store.wouldExceedBalance (relayKey p.quote.beneficiary) y.cumulative cfg.balancePlur = false := by
  intro y member
  cases paid with
  | unpaid q log headed all =>
    obtain ⟨same, _, within⟩ := all y member
    exact ⟨same, same ▸ within⟩
  | forgiven q headed within | unrecorded q headed within back | recorded q headed within onward =>
    obtain rfl := List.mem_singleton.mp member
    exact ⟨rfl, within⟩

end LanePayer

end Hoverfly.Payer
