import Hoverfly.Settle.Headroom

/-! Several lanes of one client that quote one beneficiary: they share the stored cumulative and the relay's
account, and take turns as the driver serves them. -/
namespace Hoverfly.Settle
open Lib Meter Payer Push Relay

def Awaiting.reconciles : Awaiting → Option Nat
  | .owedReply false reported => some reported
  | _ => none

namespace Parties

def Presents (s : Parties) : Prop :=
  match s.awaiting with
  | .pay cumulative _ =>
    s.client.account.cumulativePlur = s.client.stored ∧
      cumulative ≤ s.client.stored + s.client.account.owedPlur ∧
      (s.client.stored < cumulative ∨ maxCumulativePlur < cumulative)
  | .payReply cumulative _ .accepted =>
    s.client.account.cumulativePlur = s.client.stored ∧
      cumulative ≤ s.client.stored + s.client.account.owedPlur ∧ s.client.stored ≤ cumulative
  | .payReply _ _ .overpaid => False
  | .owed correcting | .owedReply correcting _ => correcting = false
  | _ => True

def recorded (s : Parties) : Nat :=
  match s.awaiting with
  | .payReply cumulative _ .accepted => cumulative
  | _ => s.client.stored

structure Joint (cfg : Config) (extra : Nat) (s : Parties) : Prop where
  params : s.client.account.params = cfg.params
  behind : s.client.account.cumulativePlur ≤ s.client.stored
  billed : ∀ p ∈ s.posts, ∀ billed acks, p.stage = .committed billed acks →
    billed = cfg.params.priceBytes p.bodyBytes ∧ acks = []
  level : s.ledger.lastCumulative cfg.account cfg.chequebook = s.recorded
  balance : s.client.stored + s.client.account.owedPlur + extra + (s.posts.map Post.unseenPlur).sum ≤
    s.ledger.lastCumulative cfg.account cfg.chequebook + s.ledger.owed cfg.account
  presents : s.Presents

/-- Every frame is admitted and none repeated, no answer is lost and no POST abandoned; a cheque is for something; and
what a lane adopts leaves room for what the other lanes book and for the bills not yet answered. -/
def Apart (cfg : Config) (extra : Nat) (s : Parties) : Event → Prop
  | .commit id world _ => ∀ x ∈ s.reservedAt id,
      let loop := frameLoop (some { account := cfg.account, batch := cfg.batch, reservedPlur := x.2 }) world x.1.chunks
      loop.acks = [] ∧ Fits 128 (s.ledger.owed cfg.account + cfg.params.priceBytes loop.billableBytes)
  | .settle => s.client.account.thresholds.minChequePlur ≠ 0
  | .reply => ∀ reported ∈ s.awaiting.reconciles,
      s.client.account.owedPlur < reported - s.client.account.pendingPlur →
      reported - s.client.account.pendingPlur + extra + (s.posts.map Post.unseenPlur).sum ≤ s.ledger.owed cfg.account
  | .lose | .drain => False
  | _ => True

instance (cfg : Config) (extra : Nat) (s : Parties) : (e : Event) → Decidable (Apart cfg extra s e)
  | .commit .. | .settle | .reply => by unfold Apart; infer_instance
  | .lose | .drain => .isFalse id
  | .send _ | .challenge _ | .reserve .. | .release _ | .answer _ | .reconcile | .handlePay .. | .handleAccount =>
    .isTrue trivial

section
variable {cfg : Config} {extra : Nat} {s : Parties} {id : Nat}

theorem Joint.relay (joint : Joint cfg extra s) {p : Post} (found : s.posts[id]? = some p) {stage : Stage}
    (billed : ∀ billed acks, stage = .committed billed acks →
      billed = cfg.params.priceBytes p.bodyBytes ∧ acks = [])
    {ledger : Ledger} (file : Option OnDisk) (last : ledger.lastCumulative = s.ledger.lastCumulative)
    (total : Post.unseenPlur { p with stage } + s.ledger.owed cfg.account ≤ p.unseenPlur + ledger.owed cfg.account) :
    Joint cfg extra (s.relayStep id p stage ledger file) where
  params := joint.params
  behind := joint.behind
  billed := by
    intro q member
    rcases List.mem_or_eq_of_mem_set member with old | same
    · exact joint.billed q old
    · subst same
      exact billed
  level := by
    simp only [relayStep, last]
    exact joint.level
  balance := by
    have unseen := sum_map_set Post.unseenPlur s.posts id { p with stage } p found
    have balance := joint.balance
    simp only [relayStep, last] at balance ⊢
    omega
  presents := joint.presents

theorem Joint.commitPost (joint : Joint cfg extra s) {amount : Nat} {chunks : List StampedChunk} {inFlight : Bool}
    (found : s.posts[id]? = some ⟨chunks, .reserved amount, inFlight⟩) {world : FrameWorld} {fault : Option String}
    (apart : Apart cfg extra s (.commit id world fault)) :
    Joint cfg extra (s.commitPost cfg id ⟨chunks, .reserved amount, inFlight⟩ amount world fault) := by
  obtain ⟨clean, fits⟩ := apart (⟨chunks, .reserved amount, inFlight⟩, amount)
    (by simp only [reservedAt, found, Option.mem_def])
  unfold Parties.commitPost
  dsimp only at clean fits ⊢
  refine joint.relay found ?_ _ (Ledger.lastCumulative_commit ..) ?_
  · intro billed acks same
    cases same
    rw [billable_of_no_acks clean]
    exact ⟨rfl, clean⟩
  · rw [Ledger.owed_commit, Function.update_self, satAdd_of_fits fits]
    simp only [Post.unseenPlur, Stage.billedPlur]
    split <;> omega

theorem Joint.answerPost (joint : Joint cfg extra s) (idle : s.awaiting = .nothing) {p : Post}
    (found : s.posts[id]? = some p) (inFlight : p.inFlight = true) : Joint cfg extra (s.answerPost id p) := by
  have unseen := sum_map_set Post.unseenPlur s.posts id p.close p found
  have none_ : p.close.unseenPlur = 0 := rfl
  have balance := joint.balance
  have close : ∀ client : Client, client.account.params = s.client.account.params →
      client.account.cumulativePlur = s.client.account.cumulativePlur → client.stored = s.client.stored →
      client.account.owedPlur ≤ s.client.account.owedPlur + p.unseenPlur →
      Joint cfg extra (s.closePost id p client) := by
    intro client params cumulative stored owed
    constructor
    · exact params.trans joint.params
    · simp only [closePost, cumulative, stored]
      exact joint.behind
    · intro q member
      rcases List.mem_or_eq_of_mem_set member with old | same
      · exact joint.billed q old
      · subst same
        exact joint.billed p (List.mem_of_getElem? found)
    · have level := joint.level
      simp only [recorded, idle] at level
      simp only [recorded, closePost, idle, stored]
      exact level
    · simp only [closePost, stored]
      omega
    · simp only [Presents, closePost, idle]
  unfold Parties.answerPost
  cases stage : p.stage with
  | onTheWire | reserved | refusing => exact joint
  | refused =>
    refine close _ rfl rfl rfl ?_
    simp [Client.answered, LaneAccount.recordAnswered]
  | committed billed acks =>
    obtain ⟨price, rfl⟩ := joint.billed p (List.mem_of_getElem? found) billed acks stage
    have shown : p.unseenPlur = cfg.params.priceBytes p.bodyBytes := by
      simp [Post.unseenPlur, inFlight, stage, Stage.billedPlur, price]
    refine close _ rfl rfl rfl ?_
    simp only [Client.answered, LaneAccount.recordAnswered, dedupBytes, List.map_nil, List.sum_nil, Nat.lt_irrefl,
      gt_iff_lt, and_false, if_false, if_true, joint.params, shown]
    exact satAdd_le ..

theorem Joint.clientStep (joint : Joint cfg extra s) {client : Client}
    (params : client.account.params = s.client.account.params)
    (behind : client.account.cumulativePlur ≤ client.stored)
    (level : s.ledger.lastCumulative cfg.account cfg.chequebook = client.stored)
    (balance : client.stored + client.account.owedPlur + extra + (s.posts.map Post.unseenPlur).sum ≤
      s.ledger.lastCumulative cfg.account cfg.chequebook + s.ledger.owed cfg.account) :
    Joint cfg extra { s with client, awaiting := .nothing } where
  params := params.trans joint.params
  behind := behind
  billed := joint.billed
  level := level
  balance := balance
  presents := trivial

theorem Joint.settle (joint : Joint cfg extra s) (idle : s.awaiting = .nothing)
    (apart : Apart cfg extra s .settle) : Joint cfg extra (s.step cfg .settle) := by
  have level := joint.level
  have balance := joint.balance
  have synced : s.client.account.setCumulativeTo s.client.stored =
      { s.client.account with cumulativePlur := s.client.stored } := by
    unfold LaneAccount.setCumulativeTo
    have behind := joint.behind
    split
    · rfl
    · have same : s.client.account.cumulativePlur = s.client.stored := by omega
      rw [← same]
  have kept : ∀ awaiting : Awaiting,
      recorded { s with
        client := { s.client with account := { s.client.account with cumulativePlur := s.client.stored } }
        awaiting } = s.client.stored →
      Presents { s with
        client := { s.client with account := { s.client.account with cumulativePlur := s.client.stored } }
        awaiting } →
      Joint cfg extra { s with
        client := { s.client with account := { s.client.account with cumulativePlur := s.client.stored } }
        awaiting } := by
    intro awaiting record presents
    simp only [recorded, idle] at level
    exact ⟨joint.params, Nat.le_refl _, joint.billed, level.trans record.symm, balance, presents⟩
  dsimp only [Parties.step, Client.nextCheque]
  rw [if_pos idle, synced]
  split
  · rename_i out
    simp only [Prod.mk.injEq] at out
    obtain ⟨rfl, _⟩ := out
    have same : ({ s with
        client := { s.client with account := { s.client.account with cumulativePlur := s.client.stored } } } : Parties) =
        { s with
          client := { s.client with account := { s.client.account with cumulativePlur := s.client.stored } }
          awaiting := .nothing } := by
      rw [← idle]
    rw [same]
    exact kept .nothing rfl trivial
  · rename_i cumulative out
    simp only [Prod.mk.injEq] at out
    obtain ⟨rfl, next⟩ := out
    refine kept _ rfl ⟨rfl, LaneAccount.nextCumulative_le next, ?_⟩
    -- above the dust floor something is owed, unless the sum saturates
    have floor : s.client.account.thresholds.minChequePlur ≠ 0 := apart
    unfold LaneAccount.nextCumulative at next
    split at next
    · cases next
    · rename_i enough
      have same : LaneAccount.thresholds { s.client.account with cumulativePlur := s.client.stored } =
          s.client.account.thresholds := rfl
      rw [same] at enough
      cases next
      simp only [satAdd, maxCumulativePlur]
      dsimp only at enough
      omega

theorem Joint.handlePay (joint : Joint cfg extra s) {cumulative : Nat} {correctOnce : Bool}
    (waiting : s.awaiting = .pay cumulative correctOnce) {pass : Bool} {signature : Bytes 65} {fault : Option String}
    {ledger : Ledger} {file : Option OnDisk} {reply : PayReply}
    (out : payResponse cfg s.ledger cumulative pass signature fault s.file = (ledger, file, reply)) :
    Joint cfg extra { s with ledger, file, awaiting := .payReply cumulative correctOnce reply } := by
  have presents := joint.presents
  have level := joint.level
  have balance := joint.balance
  simp only [Presents, waiting] at presents
  simp only [recorded, waiting] at level
  obtain ⟨synced, within, _⟩ := presents
  rcases (payResponse_cases out).2 with ⟨rfl, last, above, owed⟩ | ⟨refused, last, owed, beyond, _⟩
  · refine ⟨joint.params, joint.behind, joint.billed, last, ?_, ⟨synced, within, ?_⟩⟩
    · dsimp only
      omega
    · dsimp only
      omega
  · have record : ∀ reply ≠ .accepted,
        recorded { s with ledger, file, awaiting := .payReply cumulative correctOnce reply } = s.client.stored := by
      intro reply other
      cases reply <;> first | rfl | contradiction
    refine ⟨joint.params, joint.behind, joint.billed, ?_, ?_, ?_⟩
    · rw [record reply refused]
      exact last.trans level
    · dsimp only
      omega
    · cases reply with
      | overpaid =>
        have beyond := beyond rfl
        omega
      | accepted => contradiction
      | nothingOwed | refused => trivial

theorem Joint.takeReply (joint : Joint cfg extra s) (apart : Apart cfg extra s .reply) :
    Joint cfg extra (s.takeReply cfg) := by
  have presents := joint.presents
  have level := joint.level
  have balance := joint.balance
  have behind := joint.behind
  unfold Parties.takeReply
  split
  · rename_i cumulative _ waiting
    simp only [Presents, waiting] at presents
    simp only [recorded, waiting] at level
    obtain ⟨synced, within, onward⟩ := presents
    unfold Client.paid
    rw [if_neg (Nat.not_lt.mpr onward)]
    refine joint.clientStep rfl (Nat.le_refl _) level ?_
    simp only [LaneAccount.settled]
    omega
  · rename_i waiting
    simp only [recorded, waiting] at level
    refine joint.clientStep rfl behind level ?_
    simp only [LaneAccount.forgivePhantomDebt]
    omega
  · rename_i waiting
    simp only [Presents, waiting] at presents
  · rename_i reply waiting notAccepted _ _
    have record : s.recorded = s.client.stored := by
      cases reply <;> simp_all [recorded]
    exact joint.clientStep rfl behind (level.trans record) balance
  · rename_i reported waiting
    simp only [recorded, waiting] at level
    have room := apart reported (by simp [waiting, Awaiting.reconciles])
    split
    · unfold LaneAccount.adoptRelayDebt
      dsimp only
      split
      · exact joint.clientStep rfl behind level balance
      · rename_i more
        have room := room (Nat.lt_of_not_le more)
        refine joint.clientStep rfl behind level ?_
        dsimp only
        omega
    · exact joint.clientStep rfl behind level balance
  · rename_i waiting
    simp only [Presents, waiting] at presents
    cases presents
  · exact joint

theorem Joint.step (joint : Joint cfg extra s) {e : Event} (apart : Apart cfg extra s e) :
    Joint cfg extra (s.step cfg e) := by
  cases e with
  | send chunks =>
    dsimp only [Parties.step]
    split
    · refine ⟨joint.params, joint.behind, ?_, joint.level, ?_, joint.presents⟩
      · intro p member billed acks stage
        rcases List.mem_append.mp member with old | new
        · exact joint.billed p old billed acks stage
        · rw [List.mem_singleton.mp new] at stage
          cases stage
      · have balance := joint.balance
        simpa [LaneAccount.recordSent, Post.unseenPlur, Stage.billedPlur] using balance
    · exact joint
  | challenge capPlur =>
    dsimp only [Parties.step]
    split
    · exact ⟨joint.params, joint.behind, joint.billed, joint.level, joint.balance, joint.presents⟩
    · exact joint
  | reserve id capPlur =>
    dsimp only [Parties.step]
    split
    · rename_i found
      refine joint.relay found ?_ s.file (Ledger.lastCumulative_reserve ..) ?_
      · intro billed acks stage
        split at stage <;> cases stage
      · rw [Ledger.owed_reserve, unseen_eq_zero (by dsimp only; split <;> rfl)]
        omega
    · exact joint
  | release id =>
    dsimp only [Parties.step]
    split
    · rename_i found
      refine joint.relay found ?_ s.file (Ledger.lastCumulative_release ..) ?_
      · intro billed acks stage
        cases stage
      · rw [Ledger.owed_release, unseen_eq_zero rfl]
        omega
    · exact joint
  | commit id world fault =>
    dsimp only [Parties.step]
    split
    · exact joint.commitPost ‹_› apart
    · exact joint
  | answer id =>
    dsimp only [Parties.step]
    split
    · split
      · rename_i found both
        exact joint.answerPost both.1 found both.2
      · exact joint
    · exact joint
  | settle =>
    by_cases idle : s.awaiting = .nothing
    · exact joint.settle idle apart
    · dsimp only [Parties.step]
      rw [if_neg idle]
      exact joint
  | reconcile =>
    dsimp only [Parties.step]
    split
    · rename_i idle
      have level := joint.level
      simp only [recorded, idle] at level
      exact ⟨joint.params, joint.behind, joint.billed, level, joint.balance, rfl⟩
    · exact joint
  | handlePay pass signature fault =>
    dsimp only [Parties.step]
    split
    · exact joint.handlePay ‹_› rfl
    · exact joint
  | handleAccount =>
    dsimp only [Parties.step]
    split
    · rename_i waiting
      have presents := joint.presents
      have level := joint.level
      simp only [Presents, waiting] at presents
      simp only [recorded, waiting] at level
      exact ⟨joint.params, joint.behind, joint.billed, level, joint.balance, presents⟩
    · exact joint
  | reply => exact joint.takeReply apart
  | lose | drain => exact apart.elim

theorem stored_le_step {e : Event} (apart : Apart cfg extra s e) :
    s.client.stored ≤ (s.step cfg e).client.stored := by
  cases e with
  | reply =>
    show _ ≤ (s.takeReply cfg).client.stored
    unfold takeReply
    split
    · unfold Client.paid
      split
      · exact Nat.le_refl _
      · exact Nat.not_lt.mp ‹_›
    · exact Nat.le_refl _
    · exact Nat.le_refl _
    · exact Nat.le_refl _
    · split <;> exact Nat.le_refl _
    · exact Nat.le_refl _
    · exact Nat.le_refl _
  | settle =>
    dsimp only [Parties.step]
    split
    · split <;> rename_i out <;> simp only [Client.nextCheque, Prod.mk.injEq] at out <;> rw [← out.1]
    · exact Nat.le_refl _
  | answer id =>
    dsimp only [Parties.step]
    split
    · split
      · unfold answerPost
        split <;> exact Nat.le_refl _
      · exact Nat.le_refl _
    · exact Nat.le_refl _
  | lose | drain => exact apart.elim
  | send | challenge | reserve | release | commit | reconcile | handlePay | handleAccount =>
    dsimp only [Parties.step]
    split <;> exact Nat.le_refl _

theorem Joint.acceptable (joint : Joint cfg extra s) {cumulative : Nat} {correctOnce : Bool}
    (waiting : s.awaiting = .pay cumulative correctOnce) (signature : Bytes 65) (got known : Nat) :
    (s.ledger.credit cfg.account cfg.chequebook cumulative signature).2 ≠ .error (.overpayment got known) ∧
      (s.ledger.credit cfg.account cfg.chequebook cumulative signature).2 ≠ .error (.notIncreasing got known) := by
  have presents := joint.presents
  have level := joint.level
  have balance := joint.balance
  simp only [Presents, waiting] at presents
  simp only [recorded, waiting] at level
  refine ⟨fun refused => ?_, fun refused => ?_⟩
  · have beyond := Ledger.overpayment_of_credit refused
    omega
  · have held := Ledger.notIncreasing_of_credit refused
    omega

end

end Parties

/-- Lanes of one beneficiary before one ledger. -/
structure Fleet where
  lanes : List LaneAccount
  stored : Nat
  /-- The lane served last; an exchange under way is its. -/
  turn : Nat
  awaiting : Awaiting
  ledger : Ledger
  file : Option OnDisk
  posts : List Post
  /-- The lane each request went out on. -/
  owners : List Nat

namespace Fleet

def view (s : Fleet) (account : LaneAccount) : Parties where
  client := { account, stored := s.stored }
  awaiting := s.awaiting
  ledger := s.ledger
  file := s.file
  posts := s.posts

/-- An exchange is finished before another lane is served, and an answer goes to the lane of its request. -/
def serves (s : Fleet) (lane : Nat) : Event → Bool
  | .answer id => (s.awaiting = .nothing ∨ lane = s.turn) ∧ s.owners[id]? = some lane
  | _ => s.awaiting = .nothing ∨ lane = s.turn

def step (cfg : Config) (s : Fleet) (e : Nat × Event) : Fleet :=
  match s.lanes[e.1]? with
  | none => s
  | some account =>
    if s.serves e.1 e.2 then
      let after := (s.view account).step cfg e.2
      { lanes := s.lanes.set e.1 after.client.account, stored := after.client.stored, turn := e.1,
        awaiting := after.awaiting, ledger := after.ledger, file := after.file, posts := after.posts
        owners := if s.posts.length < after.posts.length then s.owners ++ [e.1] else s.owners }
    else s

def owed (s : Fleet) : Nat := (s.lanes.map (·.owedPlur)).sum

def Apart (cfg : Config) (s : Fleet) (e : Nat × Event) : Prop :=
  ∀ account ∈ s.lanes[e.1]?, (s.view account).Apart cfg (s.owed - account.owedPlur) e.2

instance (cfg : Config) (s : Fleet) (e : Nat × Event) : Decidable (s.Apart cfg e) := by
  unfold Apart
  infer_instance

structure Shared (cfg : Config) (s : Fleet) : Prop where
  lane : ∀ account ∈ s.lanes, account.params = cfg.params ∧ account.cumulativePlur ≤ s.stored
  billed : ∀ p ∈ s.posts, ∀ billed acks, p.stage = .committed billed acks →
    billed = cfg.params.priceBytes p.bodyBytes ∧ acks = []
  balance : s.stored + s.owed + (s.posts.map Post.unseenPlur).sum ≤
    s.ledger.lastCumulative cfg.account cfg.chequebook + s.ledger.owed cfg.account
  idle : s.awaiting = .nothing → s.ledger.lastCumulative cfg.account cfg.chequebook = s.stored
  serving : s.awaiting ≠ .nothing → ∃ account, s.lanes[s.turn]? = some account ∧
    (s.view account).Presents ∧ s.ledger.lastCumulative cfg.account cfg.chequebook = (s.view account).recorded

variable {cfg : Config}

theorem Shared.joint {s : Fleet} (shared : Shared cfg s) {lane : Nat} {account : LaneAccount}
    (found : s.lanes[lane]? = some account) (served : s.awaiting = .nothing ∨ lane = s.turn) :
    (s.view account).Joint cfg (s.owed - account.owedPlur) := by
  obtain ⟨params, behind⟩ := shared.lane account (List.mem_of_getElem? found)
  have part : account.owedPlur ≤ s.owed :=
    List.single_le_sum (fun _ _ => Nat.zero_le _) _ (List.mem_map.mpr ⟨account, List.mem_of_getElem? found, rfl⟩)
  have balance : s.stored + account.owedPlur + (s.owed - account.owedPlur) + (s.posts.map Post.unseenPlur).sum ≤
      s.ledger.lastCumulative cfg.account cfg.chequebook + s.ledger.owed cfg.account := by
    have balance := shared.balance
    omega
  by_cases idle : s.awaiting = .nothing
  · refine ⟨params, behind, shared.billed, ?_, balance, ?_⟩
    · simp only [Parties.recorded, view, idle]
      exact shared.idle idle
    · simp only [Parties.Presents, view, idle]
  · obtain ⟨other, current, presents, level⟩ := shared.serving idle
    obtain rfl := served.resolve_left idle
    rw [found] at current
    cases current
    exact ⟨params, behind, shared.billed, level, balance, presents⟩

theorem Shared.step {s : Fleet} (shared : Shared cfg s) {e : Nat × Event} (apart : s.Apart cfg e) :
    Shared cfg (s.step cfg e) := by
  obtain ⟨lane, e⟩ := e
  unfold Fleet.step
  cases found : s.lanes[lane]? with
  | none => exact shared
  | some account =>
    dsimp only
    split
    · rename_i served
      have served : s.awaiting = .nothing ∨ lane = s.turn := by
        cases e <;> simp_all [serves]
      have apart := apart account found
      have joint := (shared.joint found served).step apart
      have onward : s.stored ≤ ((s.view account).step cfg e).client.stored := Parties.stored_le_step apart
      have sum := sum_map_set (fun a : LaneAccount => a.owedPlur) s.lanes lane
        ((s.view account).step cfg e).client.account account found
      have part : account.owedPlur ≤ s.owed :=
        List.single_le_sum (fun _ _ => Nat.zero_le _) _ (List.mem_map.mpr ⟨account, List.mem_of_getElem? found, rfl⟩)
      have inside : lane < s.lanes.length := (List.getElem?_eq_some_iff.mp found).1
      generalize (s.view account).step cfg e = after at joint onward sum
      constructor
      · intro other member
        rcases List.mem_or_eq_of_mem_set member with old | same
        · obtain ⟨params, behind⟩ := shared.lane other old
          exact ⟨params, behind.trans onward⟩
        · subst same
          exact ⟨joint.params, joint.behind⟩
      · exact joint.billed
      · have balance := joint.balance
        simp only [owed] at balance part ⊢
        omega
      · intro idle
        have level := joint.level
        have idle : after.awaiting = .nothing := idle
        simp only [Parties.recorded, idle] at level
        exact level
      · intro _
        exact ⟨after.client.account, by simp [inside], joint.presents, joint.level⟩
    · exact shared

def start (cfg : Config) (n stored : Nat) (ledger : Ledger) (file : Option OnDisk) : Fleet where
  lanes := List.replicate n ((LaneAccount.new cfg.params cfg.quote.beneficiary).withCumulative stored)
  stored := stored
  turn := 0
  awaiting := .nothing
  ledger := ledger
  file := file
  posts := []
  owners := []

theorem shared_start {n stored : Nat} {ledger : Ledger} {file : Option OnDisk}
    (recorded : stored = ledger.lastCumulative cfg.account cfg.chequebook) :
    Shared cfg (start cfg n stored ledger file) where
  lane := by
    intro account member
    obtain ⟨_, rfl⟩ := List.mem_replicate.mp member
    exact ⟨rfl, Nat.le_refl _⟩
  billed := by
    intro p member
    cases member
  balance := by
    simp only [owed, start, List.map_replicate, LaneAccount.withCumulative, LaneAccount.new, List.sum_replicate,
      smul_zero, List.map_nil, List.sum_nil]
    omega
  idle _ := recorded.symm
  serving waiting := absurd rfl waiting

/-- The lanes' books are within the relay's, and no cheque on its way is refused for its amount. -/
structure OneChannel (cfg : Config) (s : Fleet) : Prop where
  total : s.stored + s.owed ≤ s.ledger.lastCumulative cfg.account cfg.chequebook + s.ledger.owed cfg.account
  cheque : ∀ cumulative correctOnce, s.awaiting = .pay cumulative correctOnce → ∀ signature got known,
    (s.ledger.credit cfg.account cfg.chequebook cumulative signature).2 ≠ .error (.overpayment got known) ∧
      (s.ledger.credit cfg.account cfg.chequebook cumulative signature).2 ≠ .error (.notIncreasing got known)

def carried : Ledger := Parties.unseen.commit Parties.plain.account 0 4

def post (lane id : Nat) : List (Nat × Event) :=
  [(lane, .send [Parties.chunk]), (lane, .reserve id 100), (lane, .commit id (Parties.world false) none),
    (lane, .answer id)]

def reconcile (lane : Nat) : List (Nat × Event) := [(lane, .reconcile), (lane, .handleAccount), (lane, .reply)]

def pay (lane : Nat) : List (Nat × Event) :=
  [(lane, .settle), (lane, .handlePay true Parties.signed none), (lane, .reply)]

def inTurn : List (Nat × Event) := reconcile 0 ++ post 1 0 ++ pay 0 ++ post 0 1 ++ pay 1 ++ [(0, .settle)]

def adoptedTwice : List (Nat × Event) := reconcile 0 ++ reconcile 1 ++ pay 1 ++ post 0 0 ++ [(0, .settle)]

end Fleet

end Hoverfly.Settle
