import Hoverfly.Settle.Parties

/-! The client never believes it owes more than the relay will accept. -/
namespace Hoverfly.Settle
open Lib Meter Payer Push Relay

def ContentAddressed (chunks : List StampedChunk) : Prop :=
  ∀ c ∈ chunks, ∀ c' ∈ chunks, c.addr = c'.addr → c.wire.length = c'.wire.length

instance (chunks : List StampedChunk) : Decidable (ContentAddressed chunks) := by
  unfold ContentAddressed
  infer_instance

def marked : AckLine → Bool
  | .dedup _ => true
  | .err .. => false

theorem billable_add_dedupBytes {guard : Option Admitted} {w : FrameWorld} {chunks : List StampedChunk}
    (addressed : ContentAddressed chunks)
    (clean : ∀ ack ∈ (frameLoop guard w chunks).acks, marked ack) :
    (frameLoop guard w chunks).billableBytes + dedupBytes chunks (frameLoop guard w chunks).acks =
      (chunks.map StampedChunk.frameBytes).sum := by
  have loop := foldl_invariant (fun seen st => (∀ ack ∈ st.acks, marked ack) →
    st.billableBytes + dedupBytes chunks st.acks = (seen.map StampedChunk.frameBytes).sum)
    (FrameLoop.frame guard w) chunks {} (fun _ => rfl) ?_
  · exact loop clean
  intro seen chunk st within before clean
  have member : chunk ∈ chunks := within.subset (List.mem_append_right _ (List.mem_singleton_self _))
  rcases FrameLoop.took_frame guard w st chunk with ⟨same, _, ack, acks, kind⟩ | ⟨more, _, acks⟩
  · rw [acks] at clean ⊢
    have earlier := before fun ack inside => clean ack (List.mem_append_left _ inside)
    rcases kind with ⟨rfl, _⟩ | ⟨message, rfl⟩
    · obtain ⟨c, found⟩ : ∃ c, chunks.find? (·.addr = chunk.addr) = some c :=
        Option.isSome_iff_exists.mp (List.find?_isSome.mpr ⟨chunk, member, by simp⟩)
      have address : c.addr = chunk.addr := by simpa using List.find?_some found
      have length := addressed c (List.mem_of_find?_eq_some found) chunk member address
      have bytes : c.frameBytes = chunk.frameBytes := by simp [StampedChunk.frameBytes, length]
      simp only [dedupBytes, List.map_append, List.map_cons, List.map_nil, List.sum_append, List.sum_cons,
        List.sum_nil, found, Option.map_some, Option.getD_some, bytes] at earlier ⊢
      omega
    · cases clean _ (List.mem_append_right _ (List.mem_singleton_self _))
  · rw [acks] at clean ⊢
    have earlier := before clean
    simp only [List.map_append, List.map_cons, List.map_nil, List.sum_append, List.sum_cons, List.sum_nil]
    omega

structure Sheet where
  cumulative : Nat
  owed : Nat
  pending : Nat
  last : Nat
  debt : Nat
  /-- Billed by the relay for requests the client has not seen answered. -/
  unseen : Nat

namespace Sheet

structure Balanced (x : Sheet) : Prop where
  behind : x.cumulative ≤ x.last
  balance : x.cumulative + x.owed + x.unseen ≤ x.last + x.debt

def Expects (x : Sheet) : Awaiting → Prop
  | .pay cumulative _ => cumulative ≤ x.cumulative + x.owed
  | .payReply cumulative _ .accepted => cumulative ≤ x.cumulative + x.owed ∧ cumulative ≤ x.last
  | .payReply _ _ .overpaid => False
  | .owed correcting => correcting = false
  | .owedReply correcting reported =>
    correcting = false ∧ x.cumulative + reported + x.unseen ≤ x.last + x.debt + x.pending
  | _ => True

structure RelayMoved (x x' : Sheet) : Prop where
  cumulative : x'.cumulative = x.cumulative
  owed : x'.owed = x.owed
  pending : x'.pending = x.pending
  last : x.last ≤ x'.last
  total : x'.unseen + (x.last + x.debt) ≤ x.unseen + (x'.last + x'.debt)

variable {x : Sheet}

theorem RelayMoved.balanced {x' : Sheet} (moved : RelayMoved x x') (balanced : x.Balanced) : x'.Balanced where
  behind := by
    have behind := balanced.behind
    have grown := moved.last
    have same := moved.cumulative
    omega
  balance := by
    have balance := balanced.balance
    obtain ⟨cumulative, owed, _, _, total⟩ := moved
    omega

theorem RelayMoved.expects {x' : Sheet} (moved : RelayMoved x x') {a : Awaiting} (expects : x.Expects a) :
    x'.Expects a := by
  obtain ⟨cumulative, owed, pending, last, total⟩ := moved
  cases a with
  | nothing => trivial
  | pay =>
    simp only [Expects] at expects ⊢
    omega
  | payReply c o reply =>
    cases reply <;> simp only [Expects] at expects ⊢
    omega
  | owed => exact expects
  | owedReply =>
    obtain ⟨reconciling, bound⟩ := expects
    refine ⟨reconciling, ?_⟩
    omega

theorem Balanced.delta_le (balanced : x.Balanced) {cumulative : Nat}
    (within : cumulative ≤ x.cumulative + x.owed) : cumulative - x.last ≤ x.debt := by
  have balance := balanced.balance
  omega

theorem Balanced.adopt (balanced : x.Balanced) {reported : Nat}
    (expects : x.cumulative + reported + x.unseen ≤ x.last + x.debt + x.pending)
    (more : x.owed < reported - x.pending) : Balanced { x with owed := reported - x.pending } where
  behind := balanced.behind
  balance := by
    dsimp only
    omega

theorem Balanced.settled (balanced : x.Balanced) {cumulative : Nat}
    (within : cumulative ≤ x.cumulative + x.owed) (accepted : cumulative ≤ x.last) :
    Balanced { x with cumulative, owed := x.owed - (cumulative - x.cumulative) } where
  behind := accepted
  balance := by
    have balance := balanced.balance
    dsimp only
    omega

theorem Balanced.answered (balanced : x.Balanced) {owed pending unseen : Nat} (bill : Nat)
    (seen : unseen + bill = x.unseen) (covered : owed ≤ x.owed + bill) :
    Balanced { x with owed, pending, unseen } where
  behind := balanced.behind
  balance := by
    have balance := balanced.balance
    dsimp only
    omega

end Sheet

namespace Post

def wirePlur (p : Params) (post : Post) : Nat := if post.inFlight then p.priceBytes post.bodyBytes else 0

def unseenPlur (post : Post) : Nat := if post.inFlight then post.stage.billedPlur else 0

/-- A committed bill is within the price of the body, and covers it but for the marked frames. -/
def Billed (p : Params) (post : Post) : Prop :=
  Fits 128 (p.exactPrice post.bodyBytes) ∧ ContentAddressed post.chunks ∧
    ∀ billed acks, post.stage = .committed billed acks → billed ≤ p.priceBytes post.bodyBytes ∧
      p.priceBytes post.bodyBytes ≤ billed + p.priceBytes (dedupBytes post.chunks acks)

end Post

namespace Parties

def wire (cfg : Config) (s : Parties) : Nat := (s.posts.map (Post.wirePlur cfg.params)).sum

def sheet (cfg : Config) (s : Parties) : Sheet where
  cumulative := s.client.account.cumulativePlur
  owed := s.client.account.owedPlur
  pending := s.client.account.pendingPlur
  last := s.ledger.lastCumulative cfg.account cfg.chequebook
  debt := s.ledger.owed cfg.account
  unseen := (s.posts.map Post.unseenPlur).sum

structure Agreed (cfg : Config) (s : Parties) : Prop where
  params : s.client.account.params = cfg.params
  stored : s.client.stored = s.client.account.cumulativePlur
  pending : s.client.account.pendingPlur = s.wire cfg
  billed : ∀ p ∈ s.posts, p.Billed cfg.params
  balanced : (s.sheet cfg).Balanced
  expects : (s.sheet cfg).Expects s.awaiting

def reservedAt (s : Parties) (id : Nat) : Option (Post × Nat) :=
  match s.posts[id]? with
  | some ⟨chunks, .reserved reservedPlur, inFlight⟩ =>
    some (⟨chunks, .reserved reservedPlur, inFlight⟩, reservedPlur)
  | _ => none

/-- What both sides are trusted with, and what the driver's way out needs. -/
def Kept (cfg : Config) (s : Parties) : Event → Prop
  | .send chunks => ContentAddressed chunks ∧
      Fits 128 (s.client.account.pendingPlur + cfg.params.exactPrice (chunks.map StampedChunk.frameBytes).sum)
  | .commit id world _ => ∀ x ∈ s.reservedAt id,
      let loop := frameLoop (some { account := cfg.account, batch := cfg.batch, reservedPlur := x.2 }) world x.1.chunks
      (∀ ack ∈ loop.acks, marked ack) ∧
        Fits 128 (s.ledger.owed cfg.account + cfg.params.priceBytes loop.billableBytes)
  | .drain => ∀ p ∈ s.posts, p.inFlight = true → cfg.params.priceBytes p.bodyBytes ≤ p.stage.billedPlur
  | _ => True

instance (cfg : Config) (s : Parties) : (e : Event) → Decidable (Kept cfg s e)
  | .send _ | .commit .. | .drain => by unfold Kept; infer_instance
  | .challenge _ | .reserve .. | .release _ | .answer _ | .settle | .reconcile | .handlePay .. | .handleAccount
  | .reply | .lose => .isTrue trivial

variable {cfg : Config} {s : Parties} {id : Nat} {p : Post} {ledger : Ledger} {fault : Option String}

theorem unseen_le_wire (billed : ∀ p ∈ s.posts, p.Billed cfg.params) :
    (s.sheet cfg).unseen ≤ s.wire cfg := by
  refine List.sum_le_sum fun p member => ?_
  unfold Post.unseenPlur Post.wirePlur
  split
  · cases stage : p.stage with
    | committed b acks => exact ((billed p member).2.2 b acks stage).1
    | onTheWire | reserved | refusing | refused => exact Nat.zero_le _
  · exact Nat.le_refl _

theorem billed_set {p : Params} {posts : List Post} {post : Post}
    (billed : ∀ q ∈ posts, q.Billed p) (new : post.Billed p) : ∀ q ∈ posts.set id post, q.Billed p := by
  intro q member
  rcases List.mem_or_eq_of_mem_set member with old | same
  · exact billed q old
  · exact same ▸ new

theorem Agreed.relay (agreed : Agreed cfg s)
    (found : s.posts[id]? = some p) {stage : Stage} (billed : Post.Billed cfg.params { p with stage })
    (file : Option OnDisk) (last : ledger.lastCumulative = s.ledger.lastCumulative)
    (total : Post.unseenPlur { p with stage } + s.ledger.owed cfg.account ≤
      p.unseenPlur + ledger.owed cfg.account) :
    Agreed cfg (s.relayStep id p stage ledger file) := by
  have unseen := sum_map_set Post.unseenPlur s.posts id { p with stage } p found
  have wire := sum_map_set (Post.wirePlur cfg.params) s.posts id { p with stage } p found
  have price : Post.wirePlur cfg.params { p with stage } = p.wirePlur cfg.params := rfl
  have moved : Sheet.RelayMoved (s.sheet cfg) (sheet cfg (s.relayStep id p stage ledger file)) := by
    refine ⟨rfl, rfl, rfl, ?_, ?_⟩
    · simp only [sheet, relayStep, last, Nat.le_refl]
    · simp only [sheet, relayStep, last]
      omega
  exact {
    params := agreed.params
    stored := agreed.stored
    pending := by
      have pending := agreed.pending
      simp only [Parties.wire, relayStep] at pending ⊢
      omega
    billed := billed_set agreed.billed billed
    balanced := moved.balanced agreed.balanced
    expects := moved.expects agreed.expects }

theorem unseen_eq_zero (unbilled : p.stage.billedPlur = 0) : p.unseenPlur = 0 := by
  simp [Post.unseenPlur, unbilled]

theorem Agreed.reservePost (agreed : Agreed cfg s) (found : s.posts[id]? = some p) (capPlur : Nat) :
    Agreed cfg (s.reservePost cfg id p capPlur) := by
  obtain ⟨fits, addressed, _⟩ := agreed.billed p (List.mem_of_getElem? found)
  refine agreed.relay found ?_ s.file (Ledger.lastCumulative_reserve ..) ?_
  · refine ⟨fits, addressed, fun billed acks stage => ?_⟩
    dsimp only at stage
    split at stage <;> cases stage
  · rw [Ledger.owed_reserve, unseen_eq_zero (by dsimp only; split <;> rfl)]
    omega

theorem Agreed.releasePost (agreed : Agreed cfg s) {reservedPlur : Nat} (found : s.posts[id]? = some p) :
    Agreed cfg (s.relayStep id p .refused (s.ledger.release cfg.account reservedPlur) s.file) := by
  obtain ⟨fits, addressed, _⟩ := agreed.billed p (List.mem_of_getElem? found)
  refine agreed.relay found ?_ s.file (Ledger.lastCumulative_release ..) ?_
  · refine ⟨fits, addressed, fun billed acks stage => ?_⟩
    cases stage
  · rw [Ledger.owed_release, unseen_eq_zero rfl]
    omega

theorem Agreed.commitPost (agreed : Agreed cfg s) {reservedPlur : Nat} {chunks : List StampedChunk} {inFlight : Bool}
    (found : s.posts[id]? = some ⟨chunks, .reserved reservedPlur, inFlight⟩) {world : FrameWorld}
    (kept : Kept cfg s (.commit id world fault)) :
    Agreed cfg (s.commitPost cfg id ⟨chunks, .reserved reservedPlur, inFlight⟩ reservedPlur world fault) := by
  obtain ⟨fits, addressed, _⟩ := agreed.billed _ (List.mem_of_getElem? found)
  obtain ⟨clean, sum⟩ := kept (⟨chunks, .reserved reservedPlur, inFlight⟩, reservedPlur)
    (by simp only [reservedAt, found, Option.mem_def])
  have parts := billable_add_dedupBytes addressed clean
  refine agreed.relay found ?_ _ (Ledger.lastCumulative_commit ..) ?_
  · refine ⟨fits, addressed, fun billed acks stage => ?_⟩
    cases stage
    exact cfg.params.priceBytes_split fits parts
  · rw [Ledger.owed_commit, Function.update_self, satAdd_of_fits sum]
    simp only [Post.unseenPlur, Stage.billedPlur]
    split <;> omega

theorem Agreed.close (agreed : Agreed cfg s) (idle : s.awaiting = .nothing)
    (found : s.posts[id]? = some p) (inFlight : p.inFlight = true) {account : LaneAccount}
    (params : account.params = s.client.account.params)
    (cumulative : account.cumulativePlur = s.client.account.cumulativePlur)
    (pending : account.pendingPlur = s.client.account.pendingPlur - cfg.params.priceBytes p.bodyBytes)
    (covered : account.owedPlur ≤ s.client.account.owedPlur + p.stage.billedPlur) :
    Agreed cfg (s.closePost id p { s.client with account }) := by
  have unseen := sum_map_set Post.unseenPlur s.posts id p.close p found
  have wire := sum_map_set (Post.wirePlur cfg.params) s.posts id p.close p found
  have charged : p.wirePlur cfg.params = cfg.params.priceBytes p.bodyBytes := by simp [Post.wirePlur, inFlight]
  have billed : p.unseenPlur = p.stage.billedPlur := by simp [Post.unseenPlur, inFlight]
  have none_ : p.close.wirePlur cfg.params = 0 := rfl
  have none' : p.close.unseenPlur = 0 := rfl
  have sheet_eq : sheet cfg (s.closePost id p { s.client with account }) =
      { s.sheet cfg with
        owed := account.owedPlur, pending := account.pendingPlur
        unseen := ((s.posts.set id p.close).map Post.unseenPlur).sum } := by
    simp only [sheet, closePost, cumulative]
  exact {
    params := params.trans agreed.params
    stored := agreed.stored.trans cumulative.symm
    pending := by
      have before := agreed.pending
      simp only [Parties.wire, closePost] at before ⊢
      omega
    billed := billed_set agreed.billed (agreed.billed p (List.mem_of_getElem? found))
    balanced := by
      rw [sheet_eq]
      refine agreed.balanced.answered p.stage.billedPlur ?_ covered
      simp only [sheet]
      omega
    expects := by
      show Sheet.Expects _ s.awaiting
      rw [idle]
      trivial }

theorem Agreed.answerPost (agreed : Agreed cfg s) (idle : s.awaiting = .nothing)
    (found : s.posts[id]? = some p) (inFlight : p.inFlight = true) :
    Agreed cfg (s.answerPost id p) := by
  obtain ⟨_, _, bill⟩ := agreed.billed p (List.mem_of_getElem? found)
  unfold Parties.answerPost
  cases stage : p.stage with
  | onTheWire | reserved | refusing => exact agreed
  | refused =>
    refine agreed.close idle found inFlight ?_ ?_ ?_ ?_ <;>
      simp [LaneAccount.recordAnswered, agreed.params]
  | committed billed acks =>
    have parts := (bill billed acks stage).2
    have clamp := satAdd_le 128 s.client.account.owedPlur (cfg.params.priceBytes p.bodyBytes)
    refine agreed.close idle found inFlight ?_ ?_ ?_ ?_
    · split <;> rfl
    · split <;> rfl
    · split <;> simp [LaneAccount.recordAnswered, LaneAccount.refundDedup, agreed.params]
    · split
      · simp only [LaneAccount.recordAnswered, LaneAccount.refundDedup, agreed.params, stage, if_true,
          Stage.billedPlur]
        omega
      · rename_i unmarked
        have none_ : dedupBytes p.chunks acks = 0 := by simpa using unmarked
        rw [none_, Params.priceBytes_zero] at parts
        simp only [LaneAccount.recordAnswered, agreed.params, stage, if_true, Stage.billedPlur]
        omega

theorem drain_spec (p : Params) (posts : List Post) (c : Client) (params : c.account.params = p) :
    let d := c.drain posts
    let wire := (posts.map (Post.wirePlur p)).sum
    d.account.params = p ∧ d.stored = c.stored ∧ d.account.cumulativePlur = c.account.cumulativePlur ∧
      d.account.pendingPlur = c.account.pendingPlur - wire ∧
      d.account.owedPlur ≤ c.account.owedPlur + wire := by
  induction posts generalizing c with
  | nil => exact ⟨params, rfl, rfl, rfl, Nat.le_refl _⟩
  | cons post rest ih =>
    cases flight : post.inFlight with
    | false =>
      have tail := ih c params
      simpa [Client.drain, flight, Post.wirePlur] using tail
    | true =>
      obtain ⟨params', stored, cumulative, pending, owed⟩ := ih (c.answered post true 0) params
      have clamp := satAdd_le 128 c.account.owedPlur (p.priceBytes post.bodyBytes)
      simp only [Client.drain, List.foldl_cons, flight, if_true, List.map_cons, List.sum_cons, Post.wirePlur]
      simp only [Client.drain, Client.answered, LaneAccount.recordAnswered, params, if_true, Nat.lt_irrefl,
        gt_iff_lt, and_false, if_false] at params' stored cumulative pending owed ⊢
      refine ⟨params', stored, cumulative, ?_, ?_⟩
      · rw [pending]
        omega
      · omega

theorem Agreed.drain (agreed : Agreed cfg s) (idle : s.awaiting = .nothing) (kept : Kept cfg s .drain) :
    Agreed cfg { s with client := s.client.drain s.posts, posts := s.posts.map Post.close } := by
  obtain ⟨params, stored, cumulative, pending, owed⟩ := drain_spec cfg.params s.posts s.client agreed.params
  have covered : s.wire cfg ≤ (s.sheet cfg).unseen := by
    refine List.sum_le_sum fun p member => ?_
    unfold Post.wirePlur Post.unseenPlur
    split
    · exact kept p member ‹_›
    · exact Nat.le_refl _
  have noWire : ((s.posts.map Post.close).map (Post.wirePlur cfg.params)).sum = 0 :=
    List.sum_eq_zero (by simp [Post.wirePlur, Post.close])
  have noUnseen : ((s.posts.map Post.close).map Post.unseenPlur).sum = 0 :=
    List.sum_eq_zero (by simp [Post.unseenPlur, Post.close])
  have sheet_eq : sheet cfg { s with client := s.client.drain s.posts, posts := s.posts.map Post.close } =
      { s.sheet cfg with
        owed := (s.client.drain s.posts).account.owedPlur
        pending := (s.client.drain s.posts).account.pendingPlur, unseen := 0 } := by
    simp only [sheet, cumulative, noUnseen]
  exact {
    params
    stored := stored.trans (agreed.stored.trans cumulative.symm)
    pending := by
      have before := agreed.pending
      simp only [Parties.wire] at before ⊢
      omega
    billed := by
      intro p member
      obtain ⟨q, inside, rfl⟩ := List.mem_map.mp member
      exact agreed.billed q inside
    balanced := by
      rw [sheet_eq]
      refine agreed.balanced.answered (s.sheet cfg).unseen (Nat.zero_add _) ?_
      simp only [Parties.wire] at covered
      exact owed.trans (Nat.add_le_add_left covered _)
    expects := by
      show Sheet.Expects _ s.awaiting
      rw [idle]
      trivial }

theorem payResponse_cases {l l' : Ledger} {cumulative : Nat} {pass : Bool} {signature : Bytes 65}
    {file file' : Option OnDisk} {reply : PayReply}
    (out : payResponse cfg l cumulative pass signature fault file = (l', file', reply)) :
    l'.reserved cfg.account = l.reserved cfg.account ∧
    ((reply = .accepted ∧ l'.lastCumulative cfg.account cfg.chequebook = cumulative ∧
      l.lastCumulative cfg.account cfg.chequebook ≤ cumulative ∧
      l'.owed cfg.account + cumulative = l.owed cfg.account + l.lastCumulative cfg.account cfg.chequebook) ∨
    (reply ≠ .accepted ∧ l'.lastCumulative cfg.account cfg.chequebook = l.lastCumulative cfg.account cfg.chequebook ∧
      l'.owed cfg.account = l.owed cfg.account ∧
      (reply = .overpaid → l.owed cfg.account < cumulative - l.lastCumulative cfg.account cfg.chequebook) ∧
      (reply = .nothingOwed → l.owed cfg.account = 0))) := by
  unfold payResponse at out
  split at out
  · cases out
    exact ⟨rfl, .inr ⟨by simp, rfl, rfl, by simp, fun _ => ‹_›⟩⟩
  split at out
  · cases out
    exact ⟨rfl, .inr ⟨by simp, rfl, rfl, by simp, by simp⟩⟩
  rcases Metered.credit_spec l cfg.account cfg.chequebook cumulative signature fault file with
    ⟨mem, e, credit, same, _⟩ | ⟨mem, written, credit, _, _, _, _, above, within, book⟩
  · have last : mem.lastCumulative cfg.account cfg.chequebook = l.lastCumulative cfg.account cfg.chequebook :=
      congrArg (fun b => b.last cfg.account cfg.chequebook) same
    have owed : mem.owed cfg.account = l.owed cfg.account := congrArg (fun b => b.owed cfg.account) same
    have reserved : mem.reserved cfg.account = l.reserved cfg.account :=
      congrArg (fun b => b.reserved cfg.account) same
    rw [credit] at out
    cases e with
    | overpayment got due =>
      cases out
      exact ⟨reserved, .inr ⟨by simp, last, owed,
        fun _ => Metered.overpayment_of_credit (congrArg (·.2.2) credit), by simp⟩⟩
    | notIncreasing | chequebookBound | absurd | store =>
      cases out
      exact ⟨reserved, .inr ⟨by simp, last, owed, by simp, by simp⟩⟩
  · have last : mem.lastCumulative cfg.account cfg.chequebook = _ :=
      congrArg (fun b => b.last cfg.account cfg.chequebook) book
    have owed : mem.owed cfg.account = _ := congrArg (fun b => b.owed cfg.account) book
    have reserved : mem.reserved cfg.account = l.reserved cfg.account :=
      congrArg (fun b => b.reserved cfg.account) book
    rw [Book.last_accept, if_pos ⟨rfl, rfl⟩] at last
    simp only [Book.accept, Book.setOwed, Function.update_self] at owed
    rw [credit] at out
    cases out
    refine ⟨reserved, .inl ⟨rfl, last, above.le, ?_⟩⟩
    rw [owed]
    simp only [Ledger.book]
    omega

theorem Agreed.handlePay (agreed : Agreed cfg s) {cumulative : Nat}
    {correctOnce : Bool} (waiting : s.awaiting = .pay cumulative correctOnce) {pass : Bool} {signature : Bytes 65}
    {file : Option OnDisk} {reply : PayReply}
    (out : payResponse cfg s.ledger cumulative pass signature fault s.file = (ledger, file, reply)) :
    Agreed cfg { s with ledger, file, awaiting := .payReply cumulative correctOnce reply } := by
  have within : cumulative ≤ (s.sheet cfg).cumulative + (s.sheet cfg).owed := by
    have expects := agreed.expects
    rw [waiting] at expects
    exact expects
  have bounded := agreed.balanced.delta_le within
  have moved : Sheet.RelayMoved (s.sheet cfg)
      (sheet cfg { s with ledger, file, awaiting := .payReply cumulative correctOnce reply }) := by
    rcases (payResponse_cases out).2 with ⟨_, last, above, owed⟩ | ⟨_, last, owed, _⟩
    · refine ⟨rfl, rfl, rfl, ?_, ?_⟩ <;> simp only [sheet, last] <;> omega
    · refine ⟨rfl, rfl, rfl, ?_, ?_⟩ <;> simp only [sheet, last, owed, Nat.le_refl]
  refine { agreed with balanced := moved.balanced agreed.balanced, expects := ?_ }
  rcases (payResponse_cases out).2 with ⟨rfl, last, _, _⟩ | ⟨_, _, _, beyond, _⟩
  · exact ⟨within, last.ge⟩
  · cases reply with
    | overpaid => exact absurd bounded (Nat.not_le.mpr (beyond rfl))
    | accepted => contradiction
    | nothingOwed | refused => trivial

theorem Agreed.clientStep (agreed : Agreed cfg s) {client : Client}
    {awaiting : Awaiting} (params : client.account.params = s.client.account.params)
    (stored : client.stored = client.account.cumulativePlur)
    (pending : client.account.pendingPlur = s.client.account.pendingPlur)
    (balanced : Sheet.Balanced { s.sheet cfg with
      cumulative := client.account.cumulativePlur, owed := client.account.owedPlur })
    (expects : (sheet cfg { s with client, awaiting }).Expects awaiting) :
    Agreed cfg { s with client, awaiting } where
  params := params.trans agreed.params
  stored := stored
  pending := pending.trans agreed.pending
  billed := agreed.billed
  balanced := by
    simpa only [sheet, pending] using balanced
  expects := expects

theorem Agreed.takeReply (agreed : Agreed cfg s) :
    Agreed cfg (s.takeReply cfg) := by
  have expects := agreed.expects
  have balanced := agreed.balanced
  unfold Parties.takeReply
  split
  · rename_i cumulative _ waiting
    rw [waiting] at expects
    refine agreed.clientStep ?_ ?_ ?_ ?_ trivial <;> unfold Client.paid <;> split
    · rfl
    · rfl
    · exact agreed.stored
    · rfl
    · rfl
    · rfl
    · exact balanced
    · exact balanced.settled expects.1 expects.2
  · refine agreed.clientStep rfl agreed.stored rfl ⟨balanced.behind, ?_⟩ trivial
    have balance := balanced.balance
    simp only [LaneAccount.forgivePhantomDebt]
    simp only [sheet] at balance ⊢
    omega
  · rename_i waiting
    rw [waiting] at expects
    exact expects.elim
  · exact agreed.clientStep rfl agreed.stored rfl balanced trivial
  · rename_i reported waiting
    rw [waiting] at expects
    split
    · refine agreed.clientStep ?_ ?_ ?_ ?_ trivial <;> unfold LaneAccount.adoptRelayDebt <;> dsimp only <;> split
      · rfl
      · rfl
      · exact agreed.stored
      · exact agreed.stored
      · rfl
      · rfl
      · exact balanced
      · exact balanced.adopt expects.2 (Nat.lt_of_not_le ‹_›)
    · exact agreed.clientStep rfl agreed.stored rfl balanced trivial
  · rename_i waiting
    rw [waiting] at expects
    cases expects.1
  · exact agreed

theorem Agreed.settle (agreed : Agreed cfg s) {client : Client} {next : Option Nat}
    (out : s.client.nextCheque = (client, next)) :
    client = s.client ∧ ∀ cumulative ∈ next, cumulative ≤ (s.sheet cfg).cumulative + (s.sheet cfg).owed := by
  have same : s.client.account.setCumulativeTo s.client.stored = s.client.account := by
    simp [LaneAccount.setCumulativeTo, agreed.stored]
  unfold Client.nextCheque at out
  rw [same] at out
  cases out
  exact ⟨rfl, fun cumulative chosen => LaneAccount.nextCumulative_le chosen⟩

theorem Agreed.send (agreed : Agreed cfg s) (idle : s.awaiting = .nothing)
    {chunks : List StampedChunk} (kept : Kept cfg s (.send chunks))
    (new : p = { chunks, stage := .onTheWire, inFlight := true }) :
    Agreed cfg { s with
      client := { s.client with account := s.client.account.recordSent p.bodyBytes }
      posts := s.posts ++ [p] } := by
  obtain ⟨addressed, fits⟩ := kept
  subst new
  have exact_ : Fits 128 (cfg.params.exactPrice (chunks.map StampedChunk.frameBytes).sum) :=
    fits.mono (Nat.le_add_left ..)
  rw [← Params.priceBytes_of_fits exact_] at fits
  have charged : (s.client.account.recordSent (chunks.map StampedChunk.frameBytes).sum).pendingPlur =
      s.client.account.pendingPlur + cfg.params.priceBytes (chunks.map StampedChunk.frameBytes).sum := by
    simp only [LaneAccount.recordSent, agreed.params, satAdd_of_fits fits]
  exact {
    params := agreed.params
    stored := agreed.stored
    pending := by
      have before := agreed.pending
      simp only [Parties.wire] at before
      simp only [Parties.wire, Post.bodyBytes, charged, before, List.map_append, List.map_cons, List.map_nil,
        List.sum_append, List.sum_cons, List.sum_nil, Post.wirePlur, if_true, Nat.add_zero]
    billed := by
      intro q member
      rcases List.mem_append.mp member with old | new
      · exact agreed.billed q old
      · rw [List.mem_singleton.mp new]
        refine ⟨exact_, addressed, fun billed acks stage => ?_⟩
        cases stage
    balanced := by
      obtain ⟨behind, balance⟩ := agreed.balanced
      refine ⟨behind, ?_⟩
      simpa [sheet, LaneAccount.recordSent, Post.unseenPlur, Stage.billedPlur] using balance
    expects := by
      show Sheet.Expects _ s.awaiting
      rw [idle]
      trivial }

theorem Agreed.step (agreed : Agreed cfg s) {e : Event} (kept : Kept cfg s e) :
    Agreed cfg (s.step cfg e) := by
  cases e with
  | send chunks =>
    dsimp only [Parties.step]
    split
    · exact agreed.send ‹_› kept rfl
    · exact agreed
  | challenge capPlur =>
    dsimp only [Parties.step]
    split
    · exact agreed.clientStep rfl agreed.stored rfl agreed.balanced agreed.expects
    · exact agreed
  | reserve id capPlur =>
    dsimp only [Parties.step]
    split
    · exact agreed.reservePost ‹_› capPlur
    · exact agreed
  | release id =>
    dsimp only [Parties.step]
    split
    · exact agreed.releasePost ‹_›
    · exact agreed
  | commit id world fault =>
    dsimp only [Parties.step]
    split
    · exact agreed.commitPost ‹_› kept
    · exact agreed
  | answer id =>
    dsimp only [Parties.step]
    split
    · split
      · rename_i found both
        exact agreed.answerPost both.1 found both.2
      · exact agreed
    · exact agreed
  | settle =>
    dsimp only [Parties.step]
    split
    · split
      · rename_i out
        obtain ⟨rfl, _⟩ := agreed.settle out
        exact agreed
      · rename_i out
        obtain ⟨rfl, within⟩ := agreed.settle out
        exact { agreed with expects := within _ rfl }
    · exact agreed
  | reconcile =>
    dsimp only [Parties.step]
    split
    · exact { agreed with expects := rfl }
    · exact agreed
  | handlePay pass signature fault =>
    dsimp only [Parties.step]
    split
    · exact agreed.handlePay ‹_› rfl
    · exact agreed
  | handleAccount =>
    dsimp only [Parties.step]
    split
    · rename_i waiting
      have expects := agreed.expects
      rw [waiting] at expects
      have onWire := unseen_le_wire agreed.billed
      have pending := agreed.pending
      have behind := agreed.balanced.behind
      refine { agreed with expects := ⟨expects, ?_⟩ }
      simp only [sheet] at onWire behind ⊢
      omega
    · exact agreed
  | reply => exact agreed.takeReply
  | lose => exact { agreed with expects := trivial }
  | drain =>
    dsimp only [Parties.step]
    split
    · exact agreed.drain ‹_› kept
    · exact agreed

def start (cfg : Config) (stored : Nat) (ledger : Ledger) (file : Option OnDisk) : Parties where
  client :=
    { account := (LaneAccount.new cfg.params cfg.quote.beneficiary).withCumulative stored, stored }
  awaiting := .nothing
  ledger := ledger
  file := file
  posts := []

theorem agreed_start {stored : Nat}
    (recorded : stored ≤ ledger.lastCumulative cfg.account cfg.chequebook) (file : Option OnDisk) :
    Agreed cfg (start cfg stored ledger file) where
  params := rfl
  stored := rfl
  pending := rfl
  billed _ member := by cases member
  balanced := ⟨recorded, recorded.trans (Nat.le_add_right ..)⟩
  expects := trivial

/-- The client's total stays below the relay's, so that its next cheque is no overpayment. -/
structure NoOverpayment (cfg : Config) (s : Parties) : Prop where
  total : s.client.account.cumulative + s.client.account.owed + (s.posts.map Post.unseenPlur).sum ≤
    s.ledger.lastCumulative cfg.account cfg.chequebook + s.ledger.owed cfg.account
  cheque : ∀ cumulative, s.client.account.nextCumulative = some cumulative → ∀ signature got owed,
    (s.ledger.credit cfg.account cfg.chequebook cumulative signature).2 ≠ .error (.overpayment got owed)

theorem Agreed.noOverpayment (agreed : Agreed cfg s) : NoOverpayment cfg s where
  total := agreed.balanced.balance
  cheque cumulative next signature got owed refused := by
    have beyond := Ledger.overpayment_of_credit refused
    have within : cumulative ≤ (s.sheet cfg).cumulative + (s.sheet cfg).owed := LaneAccount.nextCumulative_le next
    exact absurd (agreed.balanced.delta_le within) (Nat.not_le.mpr beyond)

theorem no_overpayment (cfg : Config) (stored : Nat) (ledger : Ledger) (file : Option OnDisk) (events : List Event)
    (recorded : stored ≤ ledger.lastCumulative cfg.account cfg.chequebook)
    (kept : Along (Kept cfg) (step cfg) (start cfg stored ledger file) events) :
    NoOverpayment cfg (run (step cfg) (start cfg stored ledger file) events) :=
  (invariant_along (Agreed cfg) (Kept cfg) (step cfg) (fun _ _ agreed kept => agreed.step kept) _ events
    (agreed_start recorded file) kept).noOverpayment

def plain : Config where
  quote :=
    { beneficiary := Store.someone, chainId := 100, hardEnforcement := true
      params := { pricePlurPerKib := 4, minChequePlur := 1, settleEveryPlur := 8, maxOutstandingPlur := 100,
                  creditRatio := 1 } }
  account := Store.someone
  chequebook := Bytes.replicate 20 1
  batch := Bytes.replicate 32 0
  balancePlur := 1000
  hardMode := true

def chunk : StampedChunk :=
  { addr := Bytes.replicate 32 7, wire := List.replicate 8 0, stamp := List.replicate 113 0 }

def world (recent : Bool) : FrameWorld where
  validate _ := .ok { batchId := Bytes.replicate 32 0, signer := Store.someone }
  resolveOwner _ _ := .ok (Store.someone, 0)
  recent _ _ _ := recent

def repeated : List Event :=
  [.send [chunk], .reserve 0 100, .commit 0 (world false) none, .answer 0,
    .send [chunk], .reserve 1 100, .commit 1 (world true) none, .answer 1, .settle,
    .handlePay true (Bytes.replicate 65 0) none, .reply, .drain]

theorem no_overpayment_repeated :
    NoOverpayment plain
      (run (step plain) (start plain 0 (Ledger.ephemeral ⟨List.replicate 32 0, rfl⟩) none) repeated) :=
  no_overpayment plain 0 _ none repeated (by decide +kernel) (by decide +kernel)

def leftEarly : List Event :=
  [.send [chunk], .reserve 0 100, .commit 0 (world false) none, .answer 0,
    .send [chunk], .reserve 1 100, .commit 1 (world true) none, .drain]

/-- The driver charges itself for the dedup hit on its way out, and the relay refuses the cheque. -/
theorem leftEarly_overpays :
    let s := run (step plain) (start plain 0 (Ledger.ephemeral ⟨List.replicate 32 0, rfl⟩) none) leftEarly
    s.ledger.lastCumulative plain.account plain.chequebook + s.ledger.owed plain.account <
        s.client.account.cumulative + s.client.account.owed ∧
      s.client.account.nextCumulative = some 8 ∧
      (s.ledger.credit plain.account plain.chequebook 8 ⟨List.replicate 65 0, rfl⟩).2 =
        .error (.overpayment 8 4) := by
  decide +kernel

end Parties

end Hoverfly.Settle
