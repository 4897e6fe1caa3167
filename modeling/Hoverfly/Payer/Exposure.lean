import Mathlib.Algebra.Order.BigOperators.Group.List
import Hoverfly.Lib.Map
import Hoverfly.Lib.Run
import Hoverfly.Payer.Settlement

/-! A cheque can be cashed once its bytes are out, whatever was answered. The shared store covers
every cheque handed out exactly when no settlement leaves behind one above its record. -/
namespace Hoverfly.Payer
open Lib Meter

namespace ChequeStore

def promised (s : ChequeStore) : Nat := total s.payouts

theorem totalIssued_eq (s : ChequeStore) : s.totalIssued = min s.promised (2 ^ 128 - 1) := by
  rw [totalIssued, foldl_satAdd (Nat.zero_le _), Nat.zero_add]
  rfl

theorem cumulative_le_promised (s : ChequeStore) (key : String) : s.cumulative key ≤ s.promised :=
  getD_le_total key.toLower s.payouts

theorem within_balance {s : ChequeStore} {key : String} {cumulative balance : Nat}
    (small : balance < 2 ^ 128 - 1) (passed : s.wouldExceedBalance key cumulative balance = false)
    (onward : min (s.cumulative key) (2 ^ 128 - 1) ≤ cumulative) :
    s.cumulative key ≤ cumulative ∧ s.promised + cumulative ≤ balance + s.cumulative key := by
  have part := s.cumulative_le_promised key
  simp only [wouldExceedBalance, totalIssued_eq, satAdd, gt_iff_lt, decide_eq_false_iff_not, Nat.not_lt] at passed
  omega

end ChequeStore

namespace LanePayer

variable {p : LanePayer} {store : ChequeStore} {cfg : PaymentConfig} {r : Replies}

theorem le_syncCumulative (p : LanePayer) (store : ChequeStore) :
    store.cumulative (relayKey p.quote.beneficiary) ≤ (p.syncCumulative store).account.cumulativePlur := by
  unfold syncCumulative LaneAccount.setCumulativeTo
  dsimp only
  split
  · exact Nat.le_refl _
  · omega

theorem next_onward {a : LaneAccount} {stored cumulative : Nat} (synced : stored ≤ a.cumulativePlur)
    (next : a.nextCumulative = some cumulative) : min stored (2 ^ 128 - 1) ≤ cumulative := by
  unfold LaneAccount.nextCumulative satAdd at next
  split at next
  · cases next
  · cases next
    omega

theorem Settles.passed {out : LanePayer × ChequeStore} {log : List Signed} (settles : Settles p store cfg r out log) :
    ∀ y ∈ log, min (store.cumulative (relayKey p.quote.beneficiary)) (2 ^ 128 - 1) ≤ y.cumulative ∧
      store.wouldExceedBalance (relayKey p.quote.beneficiary) y.cumulative cfg.balancePlur = false := by
  intro y member
  have synced := le_syncCumulative p store
  cases settles with
  | nothing none_ => simp at member
  | once cumulative out log next paid =>
    obtain ⟨same, within⟩ := paid.passed y member
    exact ⟨same ▸ next_onward synced next, within⟩
  | unread cumulative q next headed within | lowered cumulative owed q next headed within asked held reported =>
    obtain rfl := List.mem_singleton.mp member
    exact ⟨next_onward synced next, within⟩
  | corrected cumulative owed again q out log next headed within asked held reported second paid =>
    rcases List.mem_cons.mp member with rfl | member
    · exact ⟨next_onward synced next, within⟩
    have key : relayKey q.quote.beneficiary = relayKey p.quote.beneficiary := by rw [headed.quote]; rfl
    obtain ⟨same, passed⟩ := paid.passed y member
    dsimp only at passed
    rw [key] at passed
    have kept : store.cumulative (relayKey p.quote.beneficiary) ≤ (q.account.syncRelayDebt owed).cumulativePlur :=
      headed.cumulative ▸ synced
    exact ⟨same ▸ next_onward kept second, passed⟩

end LanePayer

structure Call where
  payer : LanePayer
  replies : Replies
  received : Nat → Bool

structure Exposure where
  store : ChequeStore
  handed : List (Bytes 20 × Nat) := []

namespace Exposure

variable (cfg : PaymentConfig)

def cheques (s : Exposure) (c : Call) : List Signed := c.payer.cheques s.store cfg c.replies c.received

def settle (s : Exposure) (c : Call) : Exposure where
  store := (c.payer.settle s.store cfg c.replies).2.1
  handed := s.handed ++
    ((s.cheques cfg c).filter (·.handed)).map fun x => (c.payer.quote.beneficiary, x.cumulative)

def Covered (s : Exposure) : Prop := ∀ x ∈ s.handed, x.2 ≤ s.store.cumulative (relayKey x.1)

def largest (s : Exposure) (b : Bytes 20) : Nat := ((s.handed.filter (·.1 = b)).map (·.2)).foldr max 0

def atStake (s : Exposure) : Nat := ((s.handed.map (·.1)).dedup.map s.largest).sum

/-- Each cheque handed out is within the record, or the relay accepts one of at least its amount before the
settlement is over. -/
def Clean (s : Exposure) (c : Call) : Prop :=
  ∀ x ∈ s.cheques cfg c, x.handed → x.cumulative ≤ s.store.cumulative (relayKey c.payer.quote.beneficiary) ∨
    ∃ y ∈ s.cheques cfg c, y.accepted ∧ x.cumulative ≤ y.cumulative

theorem settle_records (s : Exposure) (c : Call) :
    LanePayer.Records (relayKey c.payer.quote.beneficiary) s.store (s.cheques cfg c) (s.settle cfg c).store :=
  (LanePayer.settles c.payer s.store cfg c.replies c.received).records

variable {cfg} in
theorem mem_settle {s : Exposure} {c : Call} {x : Bytes 20 × Nat} : x ∈ (s.settle cfg c).handed ↔
    x ∈ s.handed ∨ ∃ y ∈ s.cheques cfg c, y.handed ∧ (c.payer.quote.beneficiary, y.cumulative) = x := by
  simp [settle, and_assoc]

theorem covered_settle {s : Exposure} (c : Call) (covered : s.Covered) :
    (s.settle cfg c).Covered ↔ s.Clean cfg c := by
  have records := s.settle_records cfg c
  have grown := records.grows
  simp only [Covered, Clean, mem_settle]
  generalize (s.settle cfg c).store = after at records grown ⊢
  constructor
  · intro all x member handed
    have out := all (c.payer.quote.beneficiary, x.cumulative) (.inr ⟨x, member, handed, rfl⟩)
    cases records with
    | kept behind => exact .inl out
    | raised y inside accepted onward highest =>
      rw [ChequeStore.cumulative_insert, if_pos rfl] at out
      exact .inr ⟨y, inside, accepted, out⟩
  · rintro clean x (old | ⟨y, member, handed, rfl⟩)
    · exact Nat.le_trans (covered x old) (grown x.1)
    · rcases clean y member handed with within | ⟨z, inside, accepted, le⟩
      · exact Nat.le_trans within (grown _)
      · refine Nat.le_trans le ?_
        cases records with
        | kept behind => exact Nat.le_of_lt (behind z inside accepted)
        | raised w _ _ onward highest =>
          rw [ChequeStore.cumulative_insert, if_pos rfl]
          exact highest z inside accepted

variable {cfg}

def Backed (cfg : PaymentConfig) (s : Exposure) : Prop := s.handed = [] ∨ s.store.promised ≤ cfg.balancePlur

theorem promised_insert (store : ChequeStore) (b : Bytes 20) (v : Nat) :
    ChequeStore.promised { payouts := store.payouts.insert (relayKey b).toLower v } +
      store.cumulative (relayKey b) = store.promised + v :=
  total_insert (relayKey b).toLower v store.payouts

theorem backed_settle (small : cfg.balancePlur < 2 ^ 128 - 1) (s : Exposure) (c : Call) (backed : s.Backed cfg) :
    (s.settle cfg c).Backed cfg := by
  have records := s.settle_records cfg c
  have within : ∀ y ∈ s.cheques cfg c,
      s.store.cumulative (relayKey c.payer.quote.beneficiary) ≤ y.cumulative ∧ s.store.promised + y.cumulative ≤
        cfg.balancePlur + s.store.cumulative (relayKey c.payer.quote.beneficiary) := fun y member =>
    have ⟨onward, passed⟩ := (LanePayer.settles c.payer s.store cfg c.replies c.received).passed y member
    ChequeStore.within_balance small passed onward
  unfold Backed
  cases none_ : s.cheques cfg c with
  | nil =>
    rw [none_] at records
    have same : (s.settle cfg c).handed = s.handed := by simp [settle, none_]
    rw [same]
    generalize (s.settle cfg c).store = after at records ⊢
    cases records with
    | kept behind => exact backed
    | raised y member => simp at member
  | cons x rest =>
    right
    generalize (s.settle cfg c).store = after at records ⊢
    cases records with
    | kept behind =>
      have := within x (none_ ▸ List.mem_cons_self ..)
      omega
    | raised y member accepted onward highest =>
      have := within y member
      have := promised_insert s.store c.payer.quote.beneficiary y.cumulative
      omega

theorem largest_le {s : Exposure} (covered : s.Covered) (b : Bytes 20) :
    s.largest b ≤ s.store.cumulative (relayKey b) := by
  have all : ∀ v ∈ (s.handed.filter (·.1 = b)).map (·.2), v ≤ s.store.cumulative (relayKey b) := by
    intro v member
    obtain ⟨x, inside, rfl⟩ := List.mem_map.mp member
    obtain ⟨inside, same⟩ := List.mem_filter.mp inside
    exact of_decide_eq_true same ▸ covered x inside
  unfold largest
  generalize (s.handed.filter (·.1 = b)).map (·.2) = xs at all
  induction xs with
  | nil => exact Nat.zero_le _
  | cons v xs ih =>
    exact Nat.max_le.mpr ⟨all v (List.mem_cons_self ..), ih fun w member => all w (List.mem_cons_of_mem _ member)⟩

theorem atStake_le {s : Exposure} (covered : s.Covered) (backed : s.Backed cfg) : s.atStake ≤ cfg.balancePlur := by
  rcases backed with none_ | backed
  · simp [atStake, none_]
  have keys : (((s.handed.map (·.1)).dedup).map relayKey).Nodup :=
    (List.nodup_dedup _).map fun _ _ same => relayKey_injective same
  calc s.atStake
      ≤ ((s.handed.map (·.1)).dedup.map fun b => s.store.cumulative (relayKey b)).sum :=
        List.sum_le_sum fun b _ => largest_le covered b
    _ = (((s.handed.map (·.1)).dedup.map relayKey).map fun k => (s.store.payouts.lookup k).getD 0).sum := by
        rw [List.map_map]
        congr 1
        exact List.map_congr_left fun b _ =>
          congrArg (fun k => (s.store.payouts.lookup k).getD 0) (toLower_relayKey b)
    _ ≤ s.store.promised := sum_lookup_le keys _
    _ ≤ cfg.balancePlur := backed

/-- Over any number of lanes, any calls and any answers, what the store covers. -/
theorem covered_iff_clean (cfg : PaymentConfig) (store : ChequeStore) (calls : List Call)
    (small : cfg.balancePlur < 2 ^ 128 - 1) :
    ((∀ made, made <+: calls → (run (settle cfg) { store } made).Covered) ↔
      Along (Clean cfg) (settle cfg) { store } calls) ∧
    (Along (Clean cfg) (settle cfg) { store } calls →
      ∀ made, made <+: calls → (run (settle cfg) { store } made).atStake ≤ cfg.balancePlur) := by
  have start : Covered { store } := by simp [Covered]
  have exact_ := reached_iff_along (fun s c covered => covered_settle cfg c covered) start calls
  refine ⟨exact_, fun clean made within => ?_⟩
  have backed : (run (settle cfg) { store } made).Backed cfg :=
    run_invariant (Backed cfg) (settle cfg) (backed_settle small) _ made (.inl rfl)
  exact atStake_le (exact_.mpr clean made within) backed

def payee (id : UInt8) : Bytes 20 := Bytes.replicate 20 id

def owing (id : UInt8) (kib : Nat) : LanePayer :=
  let params : Params :=
    { pricePlurPerKib := 1, minChequePlur := 1, settleEveryPlur := 50, maxOutstandingPlur := 1000, creditRatio := 1 }
  let p := LanePayer.new "relay" { beneficiary := payee id, chainId := 100, params, hardEnforcement := true } 0
  { p with account := (p.account.recordSent (1024 * kib)).recordAnswered (1024 * kib) true }

def answering (pay : Except String PayResponse) : Replies where
  nowUnix _ := 0
  challenge _ := .ok { capPlur := 1000, expiryUnix := 600, sign := .ok () }
  sign _ := .ok ()
  pay _ := pay
  account := .error "timeout"

def settling (id : UInt8) (pay : Except String PayResponse) : Call where
  payer := owing id 80
  replies := answering pay
  received _ := true

def purse : PaymentConfig := { chainId := 100, balancePlur := 100 }

def unused : Exposure := { store := { payouts := ∅ } }

theorem covered_iff_clean_accepted : purse.balancePlur < 2 ^ 128 - 1 ∧
    ∀ made, made <+: [settling 1 (.ok .success)] → (run (settle purse) unused made).atStake ≤ 100 := by
  have small : purse.balancePlur < 2 ^ 128 - 1 := by decide
  have cheques : unused.cheques purse (settling 1 (.ok .success)) = [⟨80, true, true⟩] := by decide +kernel
  have clean : Along (Clean purse) (settle purse) unused [settling 1 (.ok .success)] := by
    simp [Along, Clean, cheques]
  exact ⟨small, (covered_iff_clean purse { payouts := ∅ } [settling 1 (.ok .success)] small).2 clean⟩

/-- Two relays take their cheques and never answer: neither is on record, and together they are worth more than
the balance. -/
theorem unanswered_uncovered :
    let s := run (settle purse) unused [settling 1 (.error "timeout"), settling 2 (.error "timeout")]
    s.store.cumulative (relayKey (payee 1)) < 80 ∧ s.handed = [(payee 1, 80), (payee 2, 80)] ∧ ¬s.Covered ∧
      purse.balancePlur < s.atStake := by
  intro s
  have handed : s.handed = [(payee 1, 80), (payee 2, 80)] := by decide +kernel
  have empty : s.store.cumulative (relayKey (payee 1)) = 0 := by rfl
  have stake : s.atStake = 160 := by decide +kernel
  refine ⟨by omega, handed, fun covered => ?_, by rw [stake]; decide⟩
  have := covered (payee 1, 80) (by simp [handed])
  simp [empty] at this

end Exposure

end Hoverfly.Payer
