import Hoverfly.Settle.Agreement

/-! A client that sizes its bodies by its own books is not refused, with every frame admitted and no dedup hit. -/
namespace Hoverfly.Settle
open Lib Meter Payer Push Relay

theorem billable_of_no_acks {guard : Option Admitted} {w : FrameWorld} {chunks : List StampedChunk}
    (clean : (frameLoop guard w chunks).acks = []) :
    (frameLoop guard w chunks).billableBytes = (chunks.map StampedChunk.frameBytes).sum := by
  have loop := foldl_invariant (fun seen st => st.acks = [] →
    st.billableBytes = (seen.map StampedChunk.frameBytes).sum) (FrameLoop.frame guard w) chunks {} (fun _ => rfl) ?_
  · exact loop clean
  intro seen chunk st _ before clean
  rcases FrameLoop.took_frame guard w st chunk with ⟨_, _, ack, acks, _⟩ | ⟨more, _, acks⟩
  · rw [acks] at clean
    simp at clean
  · rw [acks] at clean
    rw [more, before clean]
    simp

def Stage.isCommitted : Stage → Bool
  | .committed .. => true
  | _ => false

namespace Post

def reservedPlur (p : Post) : Nat :=
  match p.stage with
  | .reserved reservedPlur | .refusing reservedPlur => reservedPlur
  | _ => 0

def queuedPlur (params : Params) (p : Post) : Nat :=
  match p.stage with
  | .onTheWire => params.priceBytes p.bodyBytes
  | _ => 0

/-- No request is refused, and each is reserved and billed at its price. -/
def Smooth (params : Params) (p : Post) : Prop :=
  match p.stage with
  | .onTheWire => p.inFlight = true
  | .reserved reservedPlur => p.inFlight = true ∧ reservedPlur = params.priceBytes p.bodyBytes
  | .refusing _ | .refused => False
  | .committed billed acks => billed = params.priceBytes p.bodyBytes ∧ acks = []

theorem wire_eq {params : Params} {p : Post} (smooth : p.Smooth params) :
    p.wirePlur params = p.queuedPlur params + p.reservedPlur + p.unseenPlur := by
  obtain ⟨chunks, stage, inFlight⟩ := p
  cases stage with
  | onTheWire =>
    have flight : inFlight = true := smooth
    simp [wirePlur, queuedPlur, reservedPlur, unseenPlur, Stage.billedPlur, flight]
  | reserved amount =>
    obtain ⟨flight, price⟩ := smooth
    have flight : inFlight = true := flight
    have price : amount = params.priceBytes (chunks.map StampedChunk.frameBytes).sum := price
    simp [wirePlur, queuedPlur, reservedPlur, unseenPlur, Stage.billedPlur, bodyBytes, flight, price]
  | refusing | refused => exact smooth.elim
  | committed billed acks =>
    have price : billed = params.priceBytes (chunks.map StampedChunk.frameBytes).sum := smooth.1
    simp [wirePlur, queuedPlur, reservedPlur, unseenPlur, Stage.billedPlur, bodyBytes, price]

end Post

def Awaiting.forgives : Awaiting → Bool
  | .payReply _ _ .nothingOwed => true
  | _ => false

namespace Client

def wouldExceed (c : Client) (bodyBytes : Nat) : Bool :=
  c.account.capPlur > 0 ∧ satAdd 128 c.account.outstanding (c.account.params.priceBytes bodyBytes) > c.account.capPlur

end Client

namespace Parties

/-- One client, one line that does not move, bodies sent only while they fit it, every frame admitted and none
marked as a repetition, and nothing abandoned before the relay has committed it. -/
def Setting (cfg : Config) (line : Nat) (s : Parties) : Event → Prop
  | .send chunks => s.client.wouldExceed (chunks.map StampedChunk.frameBytes).sum = false
  | .challenge capPlur | .reserve _ capPlur => capPlur = line
  | .commit id world _ => ∀ x ∈ s.reservedAt id,
      (frameLoop (some { account := cfg.account, batch := cfg.batch, reservedPlur := x.2 }) world x.1.chunks).acks = []
  | .drain => ∀ p ∈ s.posts, p.inFlight = true → p.stage.isCommitted
  | _ => True

/-- The client does not take "nothing owed" while the relay has accepted a cheque it does not know of. -/
def Unforgiven (cfg : Config) (s : Parties) : Event → Prop
  | .reply => s.awaiting.forgives →
      s.client.account.cumulativePlur = s.ledger.lastCumulative cfg.account cfg.chequebook
  | _ => True

instance (cfg : Config) (line : Nat) (s : Parties) : (e : Event) → Decidable (Setting cfg line s e)
  | .send _ | .challenge _ | .reserve .. | .commit .. | .drain => by unfold Setting; infer_instance
  | .release _ | .answer _ | .settle | .reconcile | .handlePay .. | .handleAccount | .reply | .lose => .isTrue trivial

instance (cfg : Config) (s : Parties) : (e : Event) → Decidable (Unforgiven cfg s e)
  | .reply => by unfold Unforgiven; infer_instance
  | .send _ | .challenge _ | .reserve .. | .release _ | .commit .. | .answer _ | .settle | .reconcile | .handlePay ..
  | .handleAccount | .lose | .drain => .isTrue trivial

structure Level (cfg : Config) (line : Nat) (s : Parties) : Prop where
  params : s.client.account.params = cfg.params
  stored : s.client.stored = s.client.account.cumulativePlur
  cap : s.client.account.capPlur = line
  smooth : ∀ p ∈ s.posts, p.Smooth cfg.params
  pending : s.client.account.pendingPlur = s.wire cfg
  reserved : s.ledger.reserved cfg.account = (s.posts.map Post.reservedPlur).sum
  behind : (s.sheet cfg).cumulative ≤ (s.sheet cfg).last
  even : (s.sheet cfg).cumulative + (s.sheet cfg).owed + (s.sheet cfg).unseen = (s.sheet cfg).last + (s.sheet cfg).debt
  /-- Once something has been sent, the client is within its line. -/
  limit : s.posts = [] ∨ s.client.account.owedPlur + s.client.account.pendingPlur ≤ line
  expects : (s.sheet cfg).Expects s.awaiting
  nothingOwed : ∀ cumulative correctOnce, s.awaiting = .payReply cumulative correctOnce .nothingOwed →
    (s.sheet cfg).cumulative < (s.sheet cfg).last ∨ (s.sheet cfg).owed = 0

section
variable {cfg : Config} {line : Nat} {s : Parties}

theorem Level.balanced (level : Level cfg line s) : (s.sheet cfg).Balanced := ⟨level.behind, level.even.le⟩

theorem Level.pending_eq (level : Level cfg line s) : s.client.account.pendingPlur =
    (s.posts.map (Post.queuedPlur cfg.params)).sum + s.ledger.reserved cfg.account + (s.sheet cfg).unseen := by
  rw [level.pending, level.reserved]
  have smooth := level.smooth
  show (s.posts.map (Post.wirePlur cfg.params)).sum = _ + (s.posts.map Post.unseenPlur).sum
  generalize s.posts = posts at smooth ⊢
  induction posts with
  | nil => rfl
  | cons p posts ih =>
    have tail := ih fun q member => smooth q (List.mem_cons_of_mem _ member)
    have head := Post.wire_eq (smooth p (List.mem_cons_self ..))
    simp only [List.map_cons, List.sum_cons]
    omega

theorem Level.covered (level : Level cfg line s) :
    s.ledger.owed cfg.account + s.ledger.reserved cfg.account + (s.posts.map (Post.queuedPlur cfg.params)).sum ≤
      s.client.account.owedPlur + s.client.account.pendingPlur := by
  have pending := level.pending_eq
  have behind := level.behind
  have even := level.even
  simp only [sheet] at pending behind even
  omega

variable {id : Nat} {p : Post} {chunks : List StampedChunk} {fault : Option String}

theorem Level.covered_post (level : Level cfg line s) (found : s.posts[id]? = some p)
    (queued : p.stage = .onTheWire) :
    s.ledger.owed cfg.account + s.ledger.reserved cfg.account + cfg.params.priceBytes p.bodyBytes ≤
      s.client.account.owedPlur + s.client.account.pendingPlur := by
  have covered := level.covered
  have member : cfg.params.priceBytes p.bodyBytes ∈ s.posts.map (Post.queuedPlur cfg.params) :=
    List.mem_map.mpr ⟨p, List.mem_of_getElem? found, by simp [Post.queuedPlur, queued]⟩
  have part := List.single_le_sum (fun _ _ => Nat.zero_le _) _ member
  omega

theorem Level.within (level : Level cfg line s) (found : s.posts[id]? = some p) :
    s.client.account.owedPlur + s.client.account.pendingPlur ≤ line := by
  rcases level.limit with none_ | limit
  · simp [none_] at found
  · exact limit

theorem Level.admitted (level : Level cfg line s) (small : line < 2 ^ 128 - 1)
    (found : s.posts[id]? = some p) (queued : p.stage = .onTheWire) :
    (s.ledger.reserve cfg.account (cfg.params.priceBytes p.bodyBytes) line).2 =
      { reservedPlur := cfg.params.priceBytes p.bodyBytes
        outstandingPlur := s.ledger.owed cfg.account + s.ledger.reserved cfg.account +
          cfg.params.priceBytes p.bodyBytes
        capPlur := line, overCap := false } := by
  have covered := level.covered_post found queued
  have within := level.within found
  have fits : Fits 128 (s.ledger.owed cfg.account + s.ledger.reserved cfg.account +
      cfg.params.priceBytes p.bodyBytes) := by
    unfold Fits
    omega
  rw [Ledger.admission_reserve s.ledger line fits]
  simp only [Admission.mk.injEq, true_and, decide_eq_false_iff_not]
  omega

theorem Level.relay (level : Level cfg line s) (found : s.posts[id]? = some p) {stage : Stage}
    (smooth : Post.Smooth cfg.params { p with stage }) {ledger : Ledger} (file : Option OnDisk)
    (last : ledger.lastCumulative = s.ledger.lastCumulative)
    (reserved : ledger.reserved cfg.account + p.reservedPlur =
      s.ledger.reserved cfg.account + Post.reservedPlur { p with stage })
    (total : Post.unseenPlur { p with stage } + s.ledger.owed cfg.account = p.unseenPlur + ledger.owed cfg.account) :
    Level cfg line (s.relayStep id p stage ledger file) := by
  have unseen := sum_map_set Post.unseenPlur s.posts id { p with stage } p found
  have wire := sum_map_set (Post.wirePlur cfg.params) s.posts id { p with stage } p found
  have held := sum_map_set Post.reservedPlur s.posts id { p with stage } p found
  have price : Post.wirePlur cfg.params { p with stage } = p.wirePlur cfg.params := rfl
  have moved : Sheet.RelayMoved (s.sheet cfg) (sheet cfg (s.relayStep id p stage ledger file)) := by
    refine ⟨rfl, rfl, rfl, ?_, ?_⟩ <;> simp only [sheet, relayStep, last]
    · exact Nat.le_refl _
    · omega
  constructor
  · exact level.params
  · exact level.stored
  · exact level.cap
  · intro q member
    rcases List.mem_or_eq_of_mem_set member with old | same
    · exact level.smooth q old
    · exact same ▸ smooth
  · have pending := level.pending
    simp only [Parties.wire, relayStep] at pending ⊢
    omega
  · have before := level.reserved
    simp only [relayStep]
    omega
  · simpa only [sheet, relayStep, last] using level.behind
  · have even := level.even
    simp only [sheet, relayStep, last] at even ⊢
    omega
  · exact .inr (level.within found)
  · exact moved.expects level.expects
  · simpa only [sheet, relayStep, last] using level.nothingOwed

theorem Level.reservePost (level : Level cfg line s) (small : line < 2 ^ 128 - 1)
    {inFlight : Bool} (found : s.posts[id]? = some ⟨chunks, .onTheWire, inFlight⟩) :
    Level cfg line (s.reservePost cfg id ⟨chunks, .onTheWire, inFlight⟩ line) := by
  have admitted := level.admitted small found rfl
  have covered := level.covered_post found rfl
  have within := level.within found
  have flight := level.smooth _ (List.mem_of_getElem? found)
  have fits : Fits 128 (s.ledger.reserved cfg.account +
      cfg.params.priceBytes (Post.bodyBytes ⟨chunks, .onTheWire, inFlight⟩)) := by
    unfold Fits
    omega
  have reserved := congrArg (fun b => b.reserved cfg.account) (s.ledger.book_reserve cfg.account
    (cfg.params.priceBytes (Post.bodyBytes ⟨chunks, .onTheWire, inFlight⟩)) line)
  simp only [Ledger.book, Book.setReserved, Function.update_self, satAdd_of_fits fits] at reserved
  unfold Parties.reservePost
  simp only [admitted, Bool.false_eq_true, false_and, if_false]
  refine level.relay found ?_ s.file (Ledger.lastCumulative_reserve ..) ?_ ?_
  · exact ⟨flight, rfl⟩
  · rw [reserved]
    rfl
  · rw [Ledger.owed_reserve]
    rfl

theorem Level.commitPost (level : Level cfg line s) (small : line < 2 ^ 128 - 1) {amount : Nat} {inFlight : Bool}
    (found : s.posts[id]? = some ⟨chunks, .reserved amount, inFlight⟩) {world : FrameWorld}
    (setting : Setting cfg line s (.commit id world fault)) :
    Level cfg line (s.commitPost cfg id ⟨chunks, .reserved amount, inFlight⟩ amount world fault) := by
  have clean := setting (⟨chunks, .reserved amount, inFlight⟩, amount)
    (by simp only [reservedAt, found, Option.mem_def])
  obtain ⟨flight, price⟩ := level.smooth _ (List.mem_of_getElem? found)
  have flight : inFlight = true := flight
  have price : amount = cfg.params.priceBytes (chunks.map StampedChunk.frameBytes).sum := price
  have covered := level.covered
  have within := level.within found
  have held : amount ≤ s.ledger.reserved cfg.account := by
    rw [level.reserved]
    refine List.single_le_sum (fun _ _ => Nat.zero_le _) _ (List.mem_map.mpr ⟨_, List.mem_of_getElem? found, rfl⟩)
  have fits : Fits 128 (s.ledger.owed cfg.account + amount) := by
    unfold Fits
    omega
  have reserved := congrArg (fun b => b.reserved cfg.account) (s.ledger.book_commit cfg.account amount amount)
  simp only [Ledger.book, Book.setReserved, Book.setOwed, Function.update_self] at reserved
  unfold Parties.commitPost
  dsimp only at clean ⊢
  rw [billable_of_no_acks clean, clean, ← price]
  refine level.relay found ?_ _ (Ledger.lastCumulative_commit ..) ?_ ?_
  · exact ⟨price, rfl⟩
  · simp only [reserved, Post.reservedPlur]
    omega
  · rw [Ledger.owed_commit, Function.update_self, satAdd_of_fits fits]
    simp only [Post.unseenPlur, Stage.billedPlur, flight, if_true]
    omega

theorem Level.send (level : Level cfg line s) (positive : line ≠ 0) (small : line < 2 ^ 128 - 1)
    (idle : s.awaiting = .nothing) (setting : Setting cfg line s (.send chunks)) :
    let p : Post := { chunks, stage := .onTheWire, inFlight := true }
    Level cfg line { s with
      client := { s.client with account := s.client.account.recordSent p.bodyBytes }
      posts := s.posts ++ [p] } := by
  intro p
  have room : s.client.account.owedPlur + s.client.account.pendingPlur + cfg.params.priceBytes p.bodyBytes ≤ line := by
    have free := of_decide_eq_false setting
    rw [level.cap, level.params] at free
    simp only [LaneAccount.outstanding, satAdd] at free
    have same : p.bodyBytes = (chunks.map StampedChunk.frameBytes).sum := rfl
    rw [same]
    omega
  have charged : (s.client.account.recordSent p.bodyBytes).pendingPlur =
      s.client.account.pendingPlur + cfg.params.priceBytes p.bodyBytes := by
    rw [LaneAccount.recordSent, level.params]
    refine satAdd_of_fits ?_
    unfold Fits
    omega
  have wire : p.wirePlur cfg.params = cfg.params.priceBytes p.bodyBytes := rfl
  constructor
  · exact level.params
  · exact level.stored
  · exact level.cap
  · intro q member
    rcases List.mem_append.mp member with old | new
    · exact level.smooth q old
    · rw [List.mem_singleton.mp new]
      exact rfl
  · have pending := level.pending
    simp only [Parties.wire, List.map_append, List.sum_append, List.map_cons, List.map_nil, List.sum_cons,
      List.sum_nil] at pending ⊢
    omega
  · have reserved := level.reserved
    simpa [Post.reservedPlur, p] using reserved
  · exact level.behind
  · have even := level.even
    simpa [sheet, LaneAccount.recordSent, Post.unseenPlur, Stage.billedPlur, p] using even
  · right
    show s.client.account.owedPlur + (s.client.account.recordSent p.bodyBytes).pendingPlur ≤ line
    omega
  · show Sheet.Expects _ s.awaiting
    rw [idle]
    trivial
  · intro cumulative correctOnce waiting
    rw [idle] at waiting
    cases waiting

theorem Level.clientStep (level : Level cfg line s) {client : Client} {awaiting : Awaiting}
    (params : client.account.params = s.client.account.params)
    (stored : client.stored = client.account.cumulativePlur) (cap : client.account.capPlur = line)
    (pending : client.account.pendingPlur = s.client.account.pendingPlur)
    (behind : client.account.cumulativePlur ≤ (s.sheet cfg).last)
    (total : client.account.cumulativePlur + client.account.owedPlur =
      s.client.account.cumulativePlur + s.client.account.owedPlur)
    (less : client.account.owedPlur ≤ s.client.account.owedPlur)
    (expects : (sheet cfg { s with client, awaiting }).Expects awaiting)
    (unasked : ∀ cumulative correctOnce, awaiting ≠ .payReply cumulative correctOnce .nothingOwed) :
    Level cfg line { s with client, awaiting } where
  params := params.trans level.params
  stored := stored
  cap := cap
  smooth := level.smooth
  pending := pending.trans level.pending
  reserved := level.reserved
  behind := behind
  even := by
    have even := level.even
    simp only [sheet] at even ⊢
    omega
  limit := level.limit.imp_right fun limit => by
    dsimp only
    omega
  expects := expects
  nothingOwed cumulative correctOnce waiting := absurd waiting (unasked cumulative correctOnce)

theorem Level.answerPost (level : Level cfg line s) (small : line < 2 ^ 128 - 1) (idle : s.awaiting = .nothing)
    (found : s.posts[id]? = some p) (inFlight : p.inFlight = true) :
    Level cfg line (s.answerPost id p) := by
  have smooth := level.smooth p (List.mem_of_getElem? found)
  unfold Parties.answerPost
  cases stage : p.stage with
  | onTheWire | reserved | refusing => exact level
  | refused =>
    rw [Post.Smooth, stage] at smooth
    exact smooth.elim
  | committed billed acks =>
    rw [Post.Smooth, stage] at smooth
    obtain ⟨price, rfl⟩ := smooth
    have unseen := sum_map_set Post.unseenPlur s.posts id p.close p found
    have wire := sum_map_set (Post.wirePlur cfg.params) s.posts id p.close p found
    have held := sum_map_set Post.reservedPlur s.posts id p.close p found
    have charged : p.wirePlur cfg.params = cfg.params.priceBytes p.bodyBytes := by simp [Post.wirePlur, inFlight]
    have shown : p.unseenPlur = cfg.params.priceBytes p.bodyBytes := by
      simp [Post.unseenPlur, inFlight, stage, Stage.billedPlur, price]
    have none_ : p.close.wirePlur cfg.params = 0 := rfl
    have none' : p.close.unseenPlur = 0 := rfl
    have same : p.close.reservedPlur = p.reservedPlur := rfl
    have pending := level.pending
    have within := level.within found
    have fits : Fits 128 (s.client.account.owedPlur + cfg.params.priceBytes p.bodyBytes) := by
      simp only [Parties.wire] at pending
      unfold Fits
      omega
    have answered : (s.client.answered p true (dedupBytes p.chunks [])).account =
        { s.client.account with
          pendingPlur := s.client.account.pendingPlur - cfg.params.priceBytes p.bodyBytes
          owedPlur := s.client.account.owedPlur + cfg.params.priceBytes p.bodyBytes } := by
      simp [Client.answered, dedupBytes, LaneAccount.recordAnswered, level.params, satAdd_of_fits fits]
    dsimp only
    constructor
    · simp only [closePost, answered]
      exact level.params
    · simp only [closePost, answered]
      exact level.stored
    · simp only [closePost, answered]
      exact level.cap
    · intro q member
      rcases List.mem_or_eq_of_mem_set member with old | fresh
      · exact level.smooth q old
      · subst fresh
        show Post.Smooth cfg.params p.close
        simp only [Post.Smooth, Post.close, stage]
        exact ⟨price, trivial⟩
    · simp only [Parties.wire] at pending
      simp only [closePost, Parties.wire, answered]
      omega
    · have reserved := level.reserved
      simp only [closePost]
      omega
    · simp only [sheet, closePost, answered]
      exact level.behind
    · have even := level.even
      simp only [sheet] at even
      simp only [sheet, closePost, answered]
      omega
    · right
      simp only [Parties.wire] at pending
      simp only [closePost, answered]
      omega
    · show Sheet.Expects _ s.awaiting
      rw [idle]
      trivial
    · intro cumulative correctOnce waiting
      have waiting : s.awaiting = _ := waiting
      rw [idle] at waiting
      cases waiting

theorem Level.handlePay (level : Level cfg line s) {cumulative : Nat} {correctOnce : Bool}
    (waiting : s.awaiting = .pay cumulative correctOnce) {pass : Bool} {signature : Bytes 65}
    {ledger : Ledger} {file : Option OnDisk} {reply : PayReply}
    (out : payResponse cfg s.ledger cumulative pass signature fault s.file = (ledger, file, reply)) :
    Level cfg line { s with ledger, file, awaiting := .payReply cumulative correctOnce reply } := by
  have within : cumulative ≤ (s.sheet cfg).cumulative + (s.sheet cfg).owed := by
    have expects := level.expects
    rw [waiting] at expects
    exact expects
  have bounded := level.balanced.delta_le within
  obtain ⟨reserved, answer⟩ := payResponse_cases out
  have behind := level.behind
  have even := level.even
  simp only [sheet] at behind even
  rcases answer with ⟨rfl, last, above, owed⟩ | ⟨refused, last, owed, beyond, free⟩
  · refine { level with reserved := reserved.trans level.reserved, behind := ?_, even := ?_, expects := ?_,
                        nothingOwed := ?_ }
    · simp only [sheet, last]
      omega
    · simp only [sheet, last]
      omega
    · exact ⟨within, last.ge⟩
    · intro _ _ waiting
      cases waiting
  · refine { level with reserved := reserved.trans level.reserved, behind := ?_, even := ?_, expects := ?_,
                        nothingOwed := ?_ }
    · simp only [sheet, last]
      exact behind
    · simp only [sheet, last, owed]
      exact even
    · cases reply with
      | overpaid => exact absurd bounded (Nat.not_le.mpr (beyond rfl))
      | accepted => contradiction
      | nothingOwed | refused => trivial
    · intro _ _ told
      cases told
      have none_ := free rfl
      simp only [sheet, last]
      omega

theorem Level.takeReply (level : Level cfg line s) (unforgiven : Unforgiven cfg s .reply) :
    Level cfg line (s.takeReply cfg) := by
  have expects := level.expects
  have behind := level.behind
  unfold Parties.takeReply
  split
  · rename_i cumulative _ waiting
    rw [waiting] at expects
    obtain ⟨within, accepted⟩ := expects
    have stored := level.stored
    unfold Client.paid
    split
    · exact level.clientStep rfl stored level.cap rfl behind rfl (Nat.le_refl _) trivial (by simp)
    · refine level.clientStep rfl rfl level.cap rfl accepted ?_ (Nat.sub_le ..) trivial (by simp)
      simp only [LaneAccount.settled]
      simp only [sheet] at within
      omega
  · rename_i cumulative correctOnce waiting
    have told := level.nothingOwed cumulative correctOnce waiting
    simp only [Unforgiven, waiting, Awaiting.forgives, true_implies] at unforgiven
    have none_ : s.client.account.owedPlur = 0 := by
      simp only [sheet] at told
      omega
    refine level.clientStep rfl level.stored level.cap rfl behind ?_ (Nat.zero_le _) trivial (by simp)
    simp only [LaneAccount.forgivePhantomDebt, none_]
  · rename_i waiting
    rw [waiting] at expects
    exact expects.elim
  · exact level.clientStep rfl level.stored level.cap rfl behind rfl (Nat.le_refl _) trivial (by simp)
  · rename_i reported waiting
    rw [waiting] at expects
    have even := level.even
    have bound := expects.2
    have unmoved : reported - s.client.account.pendingPlur ≤ s.client.account.owedPlur := by
      simp only [sheet] at even bound
      omega
    split
    · have same : (s.client.account.adoptRelayDebt reported).1 = s.client.account := by
        simp [LaneAccount.adoptRelayDebt, unmoved]
      rw [same]
      exact level.clientStep rfl level.stored level.cap rfl behind rfl (Nat.le_refl _) trivial (by simp)
    · exact level.clientStep rfl level.stored level.cap rfl behind rfl (Nat.le_refl _) trivial (by simp)
  · rename_i waiting
    rw [waiting] at expects
    cases expects.1
  · exact level

theorem drain_exact (p : Params) (posts : List Post) (c : Client) (params : c.account.params = p)
    (fits : Fits 128 (c.account.owedPlur + (posts.map (Post.wirePlur p)).sum)) :
    c.drain posts = { c with account := { c.account with
      pendingPlur := c.account.pendingPlur - (posts.map (Post.wirePlur p)).sum
      owedPlur := c.account.owedPlur + (posts.map (Post.wirePlur p)).sum } } := by
  induction posts generalizing c with
  | nil => rfl
  | cons post rest ih =>
    simp only [List.map_cons, List.sum_cons] at fits ⊢
    cases flight : post.inFlight with
    | false =>
      have none_ : post.wirePlur p = 0 := by simp [Post.wirePlur, flight]
      rw [none_, Nat.zero_add] at fits ⊢
      rw [← ih c params fits]
      simp [Client.drain, flight]
    | true =>
      have charged : post.wirePlur p = p.priceBytes post.bodyBytes := by simp [Post.wirePlur, flight]
      rw [charged] at fits ⊢
      have sum : satAdd 128 c.account.owedPlur (p.priceBytes post.bodyBytes) =
          c.account.owedPlur + p.priceBytes post.bodyBytes := satAdd_of_fits (fits.mono (by omega))
      have first : c.answered post true 0 = { c with account := { c.account with
          pendingPlur := c.account.pendingPlur - p.priceBytes post.bodyBytes
          owedPlur := c.account.owedPlur + p.priceBytes post.bodyBytes } } := by
        simp [Client.answered, LaneAccount.recordAnswered, params, sum]
      have next := ih (c.answered post true 0) (by rw [first]; exact params) (by
        rw [first]
        simpa only [Nat.add_assoc] using fits)
      simp only [Client.drain, List.foldl_cons, flight, if_true] at next ⊢
      rw [next, first]
      simp only [Nat.sub_sub, Nat.add_assoc]

theorem Level.drain (level : Level cfg line s) (small : line < 2 ^ 128 - 1) (idle : s.awaiting = .nothing)
    (setting : Setting cfg line s .drain) :
    Level cfg line { s with client := s.client.drain s.posts, posts := s.posts.map Post.close } := by
  have pending := level.pending
  have even := level.even
  have committed : ∀ p ∈ s.posts, ∃ billed acks, p.stage = .committed billed acks := by
    intro p member
    have smooth := level.smooth p member
    have flying := setting p member
    obtain ⟨chunks, stage, inFlight⟩ := p
    cases stage with
    | committed billed acks => exact ⟨billed, acks, rfl⟩
    | onTheWire => exact absurd (flying smooth) (by simp [Stage.isCommitted])
    | reserved => exact absurd (flying smooth.1) (by simp [Stage.isCommitted])
    | refusing | refused => exact smooth.elim
  have held : ∀ p ∈ s.posts, p.reservedPlur = 0 ∧ p.queuedPlur cfg.params = 0 := by
    intro p member
    obtain ⟨billed, acks, stage⟩ := committed p member
    simp [Post.reservedPlur, Post.queuedPlur, stage]
  have noReserved : (s.posts.map Post.reservedPlur).sum = 0 := by
    rw [List.sum_eq_zero_iff]
    intro n member
    obtain ⟨p, inside, rfl⟩ := List.mem_map.mp member
    exact (held p inside).1
  have noQueued : (s.posts.map (Post.queuedPlur cfg.params)).sum = 0 := by
    rw [List.sum_eq_zero_iff]
    intro n member
    obtain ⟨p, inside, rfl⟩ := List.mem_map.mp member
    exact (held p inside).2
  have shown := level.pending_eq
  rw [level.reserved, noReserved, noQueued] at shown
  simp only [Parties.wire] at pending
  rcases level.limit with none_ | limit
  · have same : ({ s with client := s.client.drain s.posts, posts := s.posts.map Post.close } : Parties) = s := by
      obtain ⟨client, awaiting, ledger, file, posts⟩ := s
      obtain rfl : posts = [] := none_
      rfl
    rw [same]
    exact level
  have fits : Fits 128 (s.client.account.owedPlur + (s.posts.map (Post.wirePlur cfg.params)).sum) := by
    unfold Fits
    omega
  have left := drain_exact cfg.params s.posts s.client level.params fits
  have noWire : ((s.posts.map Post.close).map (Post.wirePlur cfg.params)).sum = 0 :=
    List.sum_eq_zero (by simp [Post.wirePlur, Post.close])
  have noUnseen : ((s.posts.map Post.close).map Post.unseenPlur).sum = 0 :=
    List.sum_eq_zero (by simp [Post.unseenPlur, Post.close])
  have sameReserved : (s.posts.map Post.close).map Post.reservedPlur = s.posts.map Post.reservedPlur := by
    rw [List.map_map]
    rfl
  simp only [sheet] at even shown
  rw [left]
  constructor
  · exact level.params
  · exact level.stored
  · exact level.cap
  · intro q member
    obtain ⟨p, inside, rfl⟩ := List.mem_map.mp member
    have smooth := level.smooth p inside
    obtain ⟨billed, acks, stage⟩ := committed p inside
    rw [Post.Smooth, stage] at smooth
    show Post.Smooth cfg.params p.close
    simp only [Post.Smooth, Post.close, stage]
    exact smooth
  · simp only [Parties.wire, noWire]
    omega
  · simp only [sameReserved]
    exact level.reserved
  · exact level.behind
  · simp only [sheet, noUnseen]
    omega
  · right
    dsimp only
    omega
  · show Sheet.Expects _ s.awaiting
    rw [idle]
    trivial
  · intro cumulative correctOnce waiting
    have waiting : s.awaiting = _ := waiting
    rw [idle] at waiting
    cases waiting

theorem Level.step (level : Level cfg line s) (positive : line ≠ 0) (small : line < 2 ^ 128 - 1) {e : Event}
    (setting : Setting cfg line s e) (unforgiven : Unforgiven cfg s e) : Level cfg line (s.step cfg e) := by
  cases e with
  | send chunks =>
    dsimp only [Parties.step]
    split
    · exact level.send positive small ‹_› setting
    · exact level
  | challenge capPlur =>
    obtain rfl : capPlur = line := setting
    dsimp only [Parties.step]
    split
    · rename_i idle
      exact { level with cap := rfl }
    · exact level
  | reserve id capPlur =>
    obtain rfl : capPlur = line := setting
    dsimp only [Parties.step]
    split
    · exact level.reservePost small ‹_›
    · exact level
  | release id =>
    dsimp only [Parties.step]
    split
    · rename_i found
      exact (level.smooth _ (List.mem_of_getElem? found)).elim
    · exact level
  | commit id world fault =>
    dsimp only [Parties.step]
    split
    · exact level.commitPost small ‹_› setting
    · exact level
  | answer id =>
    dsimp only [Parties.step]
    split
    · split
      · rename_i found both
        exact level.answerPost small both.1 found both.2
      · exact level
    · exact level
  | settle =>
    have same : s.client.account.setCumulativeTo s.client.stored = s.client.account := by
      simp [LaneAccount.setCumulativeTo, level.stored]
    dsimp only [Parties.step, Client.nextCheque]
    rw [same]
    split
    · split
      · rename_i out
        simp only [Prod.mk.injEq] at out
        obtain ⟨rfl, _⟩ := out
        exact level
      · rename_i cumulative out
        simp only [Prod.mk.injEq] at out
        obtain ⟨rfl, next⟩ := out
        refine { level with expects := ?_, nothingOwed := ?_ }
        · exact LaneAccount.nextCumulative_le next
        · intro _ _ waiting
          cases waiting
    · exact level
  | reconcile =>
    dsimp only [Parties.step]
    split
    · refine { level with expects := rfl, nothingOwed := ?_ }
      intro _ _ waiting
      cases waiting
    · exact level
  | handlePay pass signature fault =>
    dsimp only [Parties.step]
    split
    · exact level.handlePay ‹_› rfl
    · exact level
  | handleAccount =>
    dsimp only [Parties.step]
    split
    · rename_i waiting
      have expects := level.expects
      rw [waiting] at expects
      have behind := level.behind
      have pending := level.pending_eq
      refine { level with expects := ⟨expects, ?_⟩, nothingOwed := ?_ }
      · simp only [sheet] at behind pending ⊢
        omega
      · intro _ _ told
        cases told
    · exact level
  | reply => exact level.takeReply unforgiven
  | lose =>
    refine { level with expects := trivial, nothingOwed := ?_ }
    intro _ _ waiting
    cases waiting
  | drain =>
    dsimp only [Parties.step]
    split
    · exact level.drain small ‹_› setting
    · exact level

end

def reconciled (cfg : Config) (line stored : Nat) (ledger : Ledger) (file : Option OnDisk) : Parties :=
  run (step cfg) (start cfg stored ledger file) [.challenge line, .reconcile, .handleAccount, .reply]

theorem level_reconciled {cfg : Config} {line stored : Nat} {ledger : Ledger} {file : Option OnDisk}
    (recorded : stored = ledger.lastCumulative cfg.account cfg.chequebook)
    (unused : ledger.reserved cfg.account = 0)
    (checked : cfg.quote.checkReportedDebt (ledger.owed cfg.account) cfg.balancePlur = .ok ()) :
    Level cfg line (reconciled cfg line stored ledger file) := by
  let account := ((LaneAccount.new cfg.params cfg.quote.beneficiary).withCumulative stored).setCap line
  have opened : reconciled cfg line stored ledger file =
      { start cfg stored ledger file with
        client := { account := (account.adoptRelayDebt (ledger.owed cfg.account)).1, stored } } := by
    simp only [reconciled, run_cons, run_nil, step, start, takeReply, checked, if_true]
    rfl
  have adopted : (account.adoptRelayDebt (ledger.owed cfg.account)).1 =
      { account with owedPlur := ledger.owed cfg.account } := by
    unfold LaneAccount.adoptRelayDebt
    dsimp only
    split
    · rename_i none_
      have none_ : ledger.owed cfg.account = 0 := Nat.le_zero.mp none_
      rw [none_]
      rfl
    · rfl
  rw [opened, adopted]
  constructor
  · rfl
  · rfl
  · rfl
  · intro p member
    cases member
  · rfl
  · exact unused
  · exact recorded.le
  · simp only [sheet, start]
    exact congrArg (· + ledger.owed cfg.account) recorded
  · exact .inl rfl
  · trivial
  · intro _ _ waiting
    cases waiting

structure Covers (cfg : Config) (line : Nat) (s : Parties) : Prop where
  total : s.ledger.owed cfg.account + s.ledger.reserved cfg.account ≤ s.client.account.owed + s.client.account.pending
  admitted : ∀ (id : Nat) (p : Post), s.posts[id]? = some p → p.stage = .onTheWire →
    (s.ledger.reserve cfg.account (cfg.params.priceBytes p.bodyBytes) line).2.overCap = false

/-- In every state of every interleaving, lost answers included. -/
theorem covers_relay (cfg : Config) (line stored : Nat) (ledger : Ledger) (file : Option OnDisk) (events : List Event)
    (recorded : stored = ledger.lastCumulative cfg.account cfg.chequebook)
    (unused : ledger.reserved cfg.account = 0)
    (checked : cfg.quote.checkReportedDebt (ledger.owed cfg.account) cfg.balancePlur = .ok ())
    (positive : line ≠ 0) (small : line < 2 ^ 128 - 1)
    (met : Along (fun s e => Setting cfg line s e ∧ Unforgiven cfg s e) (step cfg)
      (reconciled cfg line stored ledger file) events) :
    Covers cfg line (run (step cfg) (reconciled cfg line stored ledger file) events) := by
  have level := invariant_along (Level cfg line) _ (step cfg)
    (fun _ _ level met => level.step positive small met.1 met.2) _ events (level_reconciled recorded unused checked) met
  refine ⟨?_, fun id p found queued => ?_⟩
  · have covered := level.covered
    show _ ≤ _ + _
    simp only [LaneAccount.owed, LaneAccount.pending]
    omega
  · rw [level.admitted small found queued]

def unseen : Ledger := Ledger.ephemeral (Bytes.replicate 32 0)

def handled (id : Nat) : List Event := [.send [chunk], .reserve id 8, .commit id (world false) none, .answer id]

def signed : Bytes 65 := Bytes.replicate 65 0

def madeUp : List Event :=
  handled 0 ++ [.settle, .handlePay true signed none, .lose] ++ handled 1 ++
    [.settle, .handlePay true signed none, .reply, .send [chunk]]

theorem covers_relay_madeUp :
    Covers plain 8 (run (step plain) (reconciled plain 8 0 unseen none) madeUp) :=
  covers_relay plain 8 0 unseen none madeUp (by decide +kernel) (by decide +kernel) (by decide +kernel) (by decide)
    (by decide) (by decide +kernel)

def forgiven : List Event :=
  handled 0 ++ [.settle, .handlePay true signed none, .lose, .settle, .handlePay true signed none, .reply] ++
    handled 1 ++ handled 2 ++ [.settle, .handlePay true signed none, .reply] ++
    [.send [chunk], .reserve 3 8, .send [chunk], .reserve 4 8]

/-- From then on the client's cheques fall short by the lost one, and the last body it took to fit is refused. -/
theorem forgiven_refused :
    let s := run (step plain) (reconciled plain 8 0 unseen none) forgiven
    Along (Setting plain 8) (step plain) (reconciled plain 8 0 unseen none) forgiven ∧
      s.client.account.owed + s.client.account.pending = 8 ∧
      s.ledger.owed plain.account + s.ledger.reserved plain.account = 12 ∧
      (s.posts[4]?).any (fun p => p.stage matches .refusing _) := by
  decide +kernel

end Parties

end Hoverfly.Settle
