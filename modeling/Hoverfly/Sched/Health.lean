import Hoverfly.Sched.Conservation
import Hoverfly.Sched.Honest

/-! What a call does to one lane. Nothing remembers what its health was before. -/
namespace Hoverfly.Sched
open Lib

variable {F : Type}

namespace Lane

def expired (nowMs : Nat) (l : Lane F) : Lane F :=
  match l.health with
  | .backoff untilMs => if nowMs ≥ untilMs then { l with health := .warming } else l
  | _ => l

def settled (acked : Nat) (outcome : BatchOutcome) (nowMs : Nat) (l : Lane F) : Lane F :=
  match outcome with
  | .paymentRequired => { l with health := .unfunded }
  | .answered =>
    if acked > 0 then { l with failStreak := 0, backoffExp := 0, health := .live } else Scheduler.laneFault nowMs l
  | .failed _ => Scheduler.laneFault nowMs l

def funded (l : Lane F) : Lane F :=
  if l.health = .unfunded then { l with health := if l.bytesTotal > 0 then .live else .warming } else l

def timed [F64 F] (acked elapsedMs : Nat) (l : Lane F) : Lane F :=
  let ms : F := F64.ofNat (max elapsedMs 1)
  let l := { l with batchMs := if F64.eq l.batchMs 0.0 then ms else 0.7 * l.batchMs + 0.3 * ms }
  if acked < rateMinSample then l
  else
    let sample := F64.ofNat acked * 1000.0 / ms
    { l with rate := if F64.eq l.rate 0.0 then sample else 0.7 * l.rate + 0.3 * sample }

end Lane

namespace Scheduler

def tallied (s : Scheduler F) (addr : Addr) (ok : Bool) (l : Lane F) : Lane F :=
  match (s.index.lookup addr).bind (s.chunks[·]?) with
  | none => l
  | some c =>
    if c.phase = .done ∨ c.phase = .skipped then l
    else if ok then { l with ackedTotal := l.ackedTotal + 1, bytesTotal := l.bytesTotal + c.size }
    else { l with failedTotal := l.failedTotal + 1 }

def ackedOf (s : Scheduler F) (chunks : List Nat) : Nat := chunks.countP fun ci => s.phase? ci = some .done

variable (s : Scheduler F)

theorem getElem?_updLane (lane i : Nat) (f : Lane F → Lane F) :
    (s.updLane lane f).lanes[i]? = (s.lanes[i]?).map fun l => if lane = i then f l else l :=
  List.getElem?_modify ..

theorem admitChunks_lanes (chunks : List (Addr × Nat)) :
    (s.admitChunks chunks).1.lanes = s.lanes := by
  unfold admitChunks
  dsimp only
  induction chunks generalizing s with
  | nil => rfl
  | cons chunk rest ih =>
    rw [List.foldl_cons, ih]
    unfold admitOne
    split <;> rfl

theorem foldl_updChunk_lanes (f : ChunkState → ChunkState) (picked : List Nat) (s : Scheduler F) :
    (picked.foldl (fun t ci => t.updChunk ci f) s).lanes = s.lanes := by
  have frame := congrArg Scheduler.lanes (foldl_updChunk_frame f picked s).2
  exact frame

theorem nack_lanes (lane ci : Nat) : (s.nack lane ci).lanes = s.lanes := by
  unfold nack
  dsimp only
  split
  · rfl
  · split
    · rfl
    · split <;> rfl

theorem onGroupAck_lanes (ci : Nat) : (s.onGroupAck ci).lanes = s.lanes := by
  unfold onGroupAck
  split
  · rfl
  · split
    · rfl
    · dsimp only
      split <;> rfl

theorem requeue_lanes (lane ci : Nat) : (requeue lane s ci).lanes = s.lanes := by
  unfold requeue
  split
  · rfl
  · split
    · rfl
    · dsimp only
      split
      · rfl
      · split
        · split <;> rfl
        · split <;> rfl

theorem expireBackoffs_lanes (nowMs : Nat) :
    (s.expireBackoffs nowMs).lanes = s.lanes.map (Lane.expired nowMs) := rfl

theorem admitGroup_lanes (chunks : List (Addr × Nat)) (need : UInt16) :
    (s.admitGroup chunks need).1.lanes = s.lanes :=
  admitChunks_lanes { s with groups := _ } chunks

theorem dispatch_lanes (lane : Nat) (picked : List Nat) (hedge : Bool) (nowMs : Nat) :
    (s.dispatch lane picked hedge nowMs).1.lanes =
      s.lanes.modify lane fun l => { l with inflight := l.inflight + 1 } := by
  have kept := foldl_updChunk_lanes (dispatchChunk lane hedge nowMs) picked s
  unfold dispatch
  dsimp only
  cases hedge with
  | false => exact congrArg (List.modify · lane _) kept
  | true => exact congrArg (List.modify · lane _) kept

theorem onAck_lanes (lane : Nat) (addr : Addr) (ok : Bool) (i : Nat) :
    (s.onAck lane addr ok).lanes[i]? =
      (s.lanes[i]?).map fun l => if lane = i then s.tallied addr ok l else l := by
  unfold onAck tallied
  cases s.index.lookup addr with
  | none => simp
  | some ci =>
    dsimp only [Option.bind_some]
    cases s.chunks[ci]? with
    | none => simp
    | some c =>
      dsimp only
      by_cases final : c.phase = .done ∨ c.phase = .skipped
      · simp [final]
      · simp only [if_neg final]
        cases ok with
        | true =>
          rw [if_pos rfl, onGroupAck_lanes, getElem?_updLane]
          rfl
        | false =>
          rw [if_neg Bool.false_ne_true, nack_lanes, getElem?_updLane]
          rfl

theorem settleLane_lanes (lane : Nat) (chunks : List Nat) (outcome : BatchOutcome) (nowMs : Nat) :
    (s.settleLane lane chunks outcome nowMs).lanes =
      s.lanes.modify lane (Lane.settled (s.ackedOf chunks) outcome nowMs) := by
  unfold settleLane
  cases outcome with
  | paymentRequired => exact foldl_updChunk_lanes _ chunks _
  | answered =>
    dsimp only
    split
    · rename_i some_
      have live : (Lane.settled (F := F) (s.ackedOf chunks) .answered nowMs) =
          fun l => { l with failStreak := 0, backoffExp := 0, health := .live } := funext fun l => if_pos some_
      rw [live]
      rfl
    · rename_i none_
      have fault : (Lane.settled (F := F) (s.ackedOf chunks) .answered nowMs) = laneFault nowMs :=
        funext fun l => if_neg none_
      rw [fault]
      rfl
  | failed error => rfl

theorem onBatchResult_lanes {s : Scheduler F} {batch lane : Nat} {chunks : List Nat}
    (carried : s.outstanding.lookup batch = some (lane, chunks)) (outcome : BatchOutcome) (nowMs i : Nat) :
    (s.onBatchResult batch outcome nowMs).lanes[i]? = (s.lanes[i]?).map fun l =>
      if lane = i then ({ l with inflight := l.inflight - 1 }).settled (s.ackedOf chunks) outcome nowMs else l := by
  have requeued : ∀ (xs : List Nat) (t : Scheduler F), (xs.foldl (requeue lane) t).lanes = t.lanes := by
    intro xs
    induction xs with
    | nil => exact fun t => rfl
    | cons ci rest ih => exact fun t => (ih (requeue lane t ci)).trans (requeue_lanes t lane ci)
  unfold onBatchResult
  rw [carried]
  dsimp only
  rw [requeued, settleLane_lanes, List.getElem?_modify]
  unfold updLane
  dsimp only
  rw [List.getElem?_modify]
  cases s.lanes[i]? with
  | none => rfl
  | some l =>
    by_cases same : lane = i
    · simp only [same, if_true, Option.map_some]
      rfl
    · simp [same]

variable [F64 F]

theorem next_lanes (nowMs : Nat) (iter : List Nat) (i : Nat) :
    (s.next nowMs iter).1.lanes[i]? = (s.lanes[i]?).map fun l =>
      if (s.next nowMs iter).2.any (·.lane = i) then
        { l.expired nowMs with inflight := (l.expired nowMs).inflight + 1 }
      else l.expired nowMs := by
  have sent : ∀ (t : Scheduler F) (lane : Nat) (picked : List Nat) (hedge : Bool),
      t.lanes = s.lanes.map (Lane.expired nowMs) →
      (t.dispatch lane picked hedge nowMs).1.lanes[i]? = (s.lanes[i]?).map fun l =>
        if decide (lane = i) then { l.expired nowMs with inflight := (l.expired nowMs).inflight + 1 }
        else l.expired nowMs := by
    intro t lane picked hedge same
    rw [dispatch_lanes, List.getElem?_modify, same, List.getElem?_map]
    cases s.lanes[i]? with
    | none => rfl
    | some l => by_cases here : lane = i <;> simp [here]
  rcases next_cases s nowMs iter with out | ⟨lane, picked, out, _⟩ | ⟨lane, picked, out, _⟩
  · rw [out, expireBackoffs_lanes, List.getElem?_map]
    rfl
  · rw [out]
    exact sent _ lane picked true (markHedged_frame _ picked).2.2
  · rw [out]
    exact sent _ lane picked false rfl

end Scheduler

def Call.onLane [F64 F] (s : Scheduler F) (i : Nat) (l : Lane F) : Call F → Lane F
  | .admitChunks _ | .admitGroup _ _ => l
  | .next nowMs iter =>
    if (s.next nowMs iter).2.any (·.lane = i) then
      { l.expired nowMs with inflight := (l.expired nowMs).inflight + 1 }
    else l.expired nowMs
  | .onAck lane addr ok => if lane = i then s.tallied addr ok l else l
  | .onBatchResult batch outcome nowMs =>
    match s.outstanding.lookup batch with
    | none => l
    | some (lane, chunks) =>
      if lane = i then ({ l with inflight := l.inflight - 1 }).settled (s.ackedOf chunks) outcome nowMs else l
  | .onBatchTiming lane acked elapsedMs => if lane = i then l.timed acked elapsedMs else l
  | .setLaneInfo lane info => if lane = i then { l with info } else l
  | .setLaneBatchMax lane max => if lane = i then { l with info := { l.info with batchMax := some (Nat.max max 1) } } else l
  | .fundLane lane => if lane = i then l.funded else l
  | .retireLane lane => if lane = i then { l with health := .retired } else l

theorem Call.lanes_apply [F64 F] (s : Scheduler F) (call : Call F) (i : Nat) :
    (call.apply s).lanes[i]? = (s.lanes[i]?).map fun l => call.onLane s i l := by
  cases call with
  | admitChunks chunks =>
    rw [Call.apply, Scheduler.admitChunks_lanes]
    exact Option.map_id'.symm ▸ rfl
  | admitGroup chunks need =>
    rw [Call.apply, Scheduler.admitGroup_lanes]
    exact Option.map_id'.symm ▸ rfl
  | next nowMs iter => exact s.next_lanes nowMs iter i
  | onAck lane addr ok => exact s.onAck_lanes lane addr ok i
  | onBatchResult batch outcome nowMs =>
    cases carried : s.outstanding.lookup batch with
    | none => simp [Call.apply, Call.onLane, Scheduler.onBatchResult, carried]
    | some entry => simpa [Call.apply, Call.onLane, carried] using Scheduler.onBatchResult_lanes carried outcome nowMs i
  | onBatchTiming lane acked elapsedMs => exact s.getElem?_updLane lane i _
  | setLaneInfo lane info => exact s.getElem?_updLane lane i _
  | setLaneBatchMax lane max => exact s.getElem?_updLane lane i _
  | fundLane lane => exact s.getElem?_updLane lane i _
  | retireLane lane => exact s.getElem?_updLane lane i _

theorem Lane.eligible_expired (nowMs : Nat) (l : Lane F) : (l.expired nowMs).eligible nowMs = l.eligible nowMs := by
  unfold Lane.expired
  cases health : l.health with
  | backoff untilMs =>
    dsimp only
    split
    · rename_i over_
      simp [Lane.eligible, health, over_]
    · rfl
  | warming | unfunded | live | retired => rfl

theorem Scheduler.next_assigned [F64 F] {s : Scheduler F} {nowMs : Nat} {iter : List Nat} {a : Assignment}
    (handed : (s.next nowMs iter).2 = some a) :
    ∃ l, s.lanes[a.lane]? = some l ∧ l.eligible nowMs = true ∧
      (l.expired nowMs).inflight < (l.expired nowMs).capacity s.cfg := by
  have free : a.lane ∈ (s.expireBackoffs nowMs).freeLanes nowMs := by
    rcases next_cases s nowMs iter with out | ⟨lane, picked, out, some_, _, aimed⟩ | ⟨lane, picked, out, free, _⟩
    · rw [out] at handed
      cases handed
    · rw [out] at handed
      cases handed
      obtain ⟨ci, member⟩ := List.exists_mem_of_ne_nil picked some_
      obtain ⟨eligible, room, _⟩ := hedgeTarget_spec (aimed ci member)
      exact mem_freeLanes.mpr ⟨eligible, room⟩
    · rw [out] at handed
      cases handed
      exact free
  obtain ⟨eligible, room⟩ := mem_freeLanes.mp free
  obtain ⟨e, found, open_⟩ := mem_eligibleLanes.mp eligible
  rw [expireBackoffs_lanes, List.getElem?_map] at found
  obtain ⟨l, at_lane, rfl⟩ := Option.map_eq_some_iff.mp found
  rw [Lane.eligible_expired] at open_
  refine ⟨l, at_lane, open_, ?_⟩
  have under := room
  rw [hasRoom, expireBackoffs_lanes, List.getElem?_map, at_lane] at under
  exact of_decide_eq_true under

/-- A payment after a 402 keeps the counters, and the health is read off the bytes the lane has acked. It is
what it was exactly if it agreed with them: a backoff is forgotten, and so is a half-open lane. -/
theorem payment_restores_health_iff [F64 F] {s : Scheduler F} {batch lane : Nat} {chunks : List Nat} {l : Lane F}
    (carried : s.outstanding.lookup batch = some (lane, chunks)) (found : s.lanes[lane]? = some l) (nowMs : Nat) :
    ∃ l', ((s.onBatchResult batch .paymentRequired nowMs).fundLane lane).lanes[lane]? = some l' ∧
      l'.failStreak = l.failStreak ∧ l'.backoffExp = l.backoffExp ∧
      (l'.health = l.health ↔ l.health = if l.bytesTotal > 0 then .live else .warming) := by
  have refused := Scheduler.onBatchResult_lanes carried .paymentRequired nowMs lane
  rw [found] at refused
  simp only [Option.map_some, if_true, Lane.settled] at refused
  have paid : ((s.onBatchResult batch .paymentRequired nowMs).fundLane lane).lanes[lane]? =
      some { l with inflight := l.inflight - 1, health := if l.bytesTotal > 0 then .live else .warming } := by
    unfold Scheduler.fundLane
    rw [Scheduler.getElem?_updLane, refused]
    simp
  exact ⟨_, paid, rfl, rfl, eq_comm⟩

def Scheduler.healthOf (s : Scheduler F) (lane : Nat) : Option LaneHealth := (s.lanes[lane]?).map (·.health)

def sentRun : List (Call ℚ) := [.admitChunks [(Bytes.replicate 32 0, 4096), (Bytes.replicate 32 1, 4096)], .next 0 []]

theorem sentRun_restored :
    let s := run Call.apply (Scheduler.new lane Config.default) sentRun
    s.healthOf 0 = some .warming ∧
      ((s.onBatchResult 1 .paymentRequired 20).fundLane 0).healthOf 0 = s.healthOf 0 := by
  refine ⟨by decide +kernel, ?_⟩
  have present : ((run Call.apply (Scheduler.new lane Config.default) sentRun).lanes[0]?).isSome = true := by
    decide +kernel
  have carried : (run Call.apply (Scheduler.new lane Config.default) sentRun).outstanding.lookup 1 =
      some (0, [0, 1]) := by decide +kernel
  obtain ⟨l', paid, _, _, same⟩ := payment_restores_health_iff carried (Option.some_get present).symm 20
  rw [Scheduler.healthOf, Scheduler.healthOf, paid, ← Option.some_get present]
  exact congrArg some (same.mpr (by decide +kernel +revert))

def backoffRun : List (Call ℚ) :=
  [.admitChunks [(Bytes.replicate 32 0, 4096)], .next 0 [], .onAck 0 (Bytes.replicate 32 0) true,
    .onBatchResult 1 .answered 0,
    .admitChunks [(Bytes.replicate 32 1, 4096)], .next 0 [], .admitChunks [(Bytes.replicate 32 2, 4096)], .next 0 [],
    .admitChunks [(Bytes.replicate 32 3, 4096)], .next 0 [], .admitChunks [(Bytes.replicate 32 4, 4096)], .next 0 [],
    .onBatchResult 2 (.failed "timeout") 10, .onBatchResult 3 (.failed "timeout") 10,
    .onBatchResult 4 (.failed "timeout") 10]

theorem backoffRun_forgotten :
    let s := run Call.apply (Scheduler.new lane Config.default) backoffRun
    s.outstanding.lookup 5 = some (0, [4]) ∧ s.healthOf 0 = some (.backoff 2010) ∧
      ((s.onBatchResult 5 .paymentRequired 20).fundLane 0).healthOf 0 = some .live := by
  decide +kernel

/-- A retired lane comes back when a late result is a 402 that is then paid, brings an ack, or is the third failure
in a row of a lane that has backoffs left. -/
def Lane.revivedBy (acked : Nat) (outcome : BatchOutcome) (l : Lane F) : Bool :=
  let faulted : Bool := Hoverfly.Sched.failStreak ≤ l.failStreak + 1 ∧ l.backoffExp + 1 ≤ maxBackoffExp
  match outcome with
  | .paymentRequired => true
  | .answered => acked > 0 || faulted
  | .failed _ => faulted

variable {l : Lane F}

theorem Lane.laneFault_retired (retired : l.health = .retired) (nowMs : Nat) :
    (Scheduler.laneFault nowMs l).health = .retired ↔
      ¬(Hoverfly.Sched.failStreak ≤ l.failStreak + 1 ∧ l.backoffExp + 1 ≤ maxBackoffExp) := by
  unfold Scheduler.laneFault
  dsimp only
  by_cases streak : l.failStreak + 1 ≥ Hoverfly.Sched.failStreak
  · rw [if_pos streak]
    by_cases left : l.backoffExp + 1 > maxBackoffExp
    · rw [if_pos left]
      exact ⟨fun _ both => absurd both.2 (Nat.not_le.mpr left), fun _ => rfl⟩
    · rw [if_neg left]
      exact ⟨LaneHealth.noConfusion, fun not_ => absurd ⟨streak, Nat.not_lt.mp left⟩ not_⟩
  · rw [if_neg streak]
    exact ⟨fun _ both => streak both.1, fun _ => retired⟩

theorem Lane.settled_retired (retired : l.health = .retired) (acked : Nat) (outcome : BatchOutcome)
    (nowMs : Nat) : (l.settled acked outcome nowMs).health = .retired ↔ l.revivedBy acked outcome = false := by
  cases outcome with
  | paymentRequired => simp [Lane.settled, Lane.revivedBy]
  | answered =>
    unfold Lane.settled Lane.revivedBy
    by_cases some_ : acked > 0
    · simp [some_]
    · simpa [some_] using Lane.laneFault_retired retired nowMs
  | failed error => simpa [Lane.settled, Lane.revivedBy] using Lane.laneFault_retired retired nowMs

theorem Lane.expired_retired (retired : l.health = .retired) (nowMs : Nat) :
    (l.expired nowMs).health = .retired := by
  unfold Lane.expired
  rw [retired]
  exact retired

def Scheduler.Retired (s : Scheduler F) (lane : Nat) : Prop := ∀ l, s.lanes[lane]? = some l → l.health = .retired

def Call.revives (s : Scheduler F) (lane : Nat) : Call F → Bool
  | .onBatchResult batch outcome _ =>
    match s.outstanding.lookup batch with
    | none => false
    | some (origin, chunks) =>
      origin = lane && (s.lanes[lane]?).any (·.revivedBy (s.ackedOf chunks) outcome)
  | _ => false

theorem Call.onLane_retired [F64 F] {s : Scheduler F} {lane : Nat} (found : s.lanes[lane]? = some l)
    (retired : l.health = .retired) (call : Call F) :
    (call.onLane s lane l).health = .retired ↔ call.revives s lane = false := by
  cases call with
  | admitChunks chunks | admitGroup chunks need => simpa [Call.onLane, Call.revives] using retired
  | next nowMs iter =>
    have kept := Lane.expired_retired retired nowMs
    simp only [Call.onLane, Call.revives, iff_true]
    split
    · exact kept
    · exact kept
  | onAck origin addr ok =>
    simp only [Call.onLane, Call.revives, Scheduler.tallied, iff_true]
    repeat' split
    all_goals exact retired
  | onBatchResult batch outcome nowMs =>
    cases carried : s.outstanding.lookup batch with
    | none => simpa [Call.onLane, Call.revives, carried] using retired
    | some entry =>
      by_cases here : entry.1 = lane
      · have settled := Lane.settled_retired (l := { l with inflight := l.inflight - 1 }) retired
          (s.ackedOf entry.2) outcome nowMs
        simp only [Call.onLane, Call.revives, carried, here, found, if_true, Option.any_some, decide_true,
          Bool.true_and]
        exact settled
      · simpa [Call.onLane, Call.revives, carried, here] using retired
  | onBatchTiming origin acked elapsedMs =>
    simp only [Call.onLane, Call.revives, Lane.timed, iff_true]
    repeat' split
    all_goals exact retired
  | setLaneInfo origin info | setLaneBatchMax origin max =>
    simp only [Call.onLane, Call.revives, iff_true]
    split <;> exact retired
  | fundLane origin =>
    simp only [Call.onLane, Call.revives, Lane.funded, retired, iff_true]
    split <;> simp [retired]
  | retireLane origin =>
    simp only [Call.onLane, Call.revives, iff_true]
    split
    · rfl
    · exact retired

theorem Call.retired_apply [F64 F] (lane : Nat) (s : Scheduler F) (call : Call F) (retired : s.Retired lane) :
    (call.apply s).Retired lane ↔ call.revives s lane = false := by
  unfold Scheduler.Retired
  rw [Call.lanes_apply]
  cases found : s.lanes[lane]? with
  | none =>
    have inert : call.revives s lane = false := by
      unfold Call.revives
      split
      · split
        · rfl
        · simp [found]
      · rfl
    simp [inert]
  | some l => simpa using Call.onLane_retired found (retired l found) call

theorem Scheduler.retireLane_retired (s : Scheduler F) (lane : Nat) : (s.retireLane lane).Retired lane := by
  intro l found
  rw [retireLane, getElem?_updLane] at found
  obtain ⟨old, _, rfl⟩ := Option.map_eq_some_iff.mp found
  rw [if_pos rfl]

/-- Whatever is called after a retirement, the lane is handed nothing more as long as no late result of its own
batches revives it, and until then it stays retired. -/
theorem retired_unassigned [F64 F] (s : Scheduler F) (lane : Nat) (calls : List (Call F))
    (calm : Along (fun t call => call.revives t lane = false) Call.apply (s.retireLane lane) calls) :
    ∀ pre, pre <+: calls → (run Call.apply (s.retireLane lane) pre).Retired lane ∧
      ∀ nowMs iter a, ((run Call.apply (s.retireLane lane) pre).next nowMs iter).2 = some a → a.lane ≠ lane := by
  intro pre within
  have retired := (reached_iff_along (Call.retired_apply lane) (s.retireLane_retired lane) calls).mpr calm pre within
  refine ⟨retired, fun nowMs iter a handed same => ?_⟩
  obtain ⟨l, found, eligible, _⟩ := Scheduler.next_assigned handed
  have health := retired l (same ▸ found)
  rw [Lane.eligible, health] at eligible
  cases eligible

theorem retired_unassigned_sentRun :
    ((run Call.apply ((run Call.apply (Scheduler.new lane Config.default) sentRun).retireLane 0)
      [.onBatchResult 1 (.failed "timeout") 5, .fundLane 0]).next 10 []).2.all (·.lane ≠ 0) = true := by
  have none_ := (retired_unassigned (run Call.apply (Scheduler.new lane Config.default) sentRun) 0
    [.onBatchResult 1 (.failed "timeout") 5, .fundLane 0] (by decide +kernel) _ List.prefix_rfl).2 10 []
  rw [Option.all_eq_true]
  exact fun a handed => decide_eq_true (none_ a handed)

/-- One acked chunk of the batch that was out makes the lane live again, and it is handed the other chunk. -/
theorem sentRun_revived :
    let s := (run Call.apply (Scheduler.new lane Config.default) sentRun).retireLane 0
    let t := run Call.apply s [.onAck 0 (Bytes.replicate 32 0) true, .onBatchResult 1 .answered 5]
    s.healthOf 0 = some .retired ∧ t.healthOf 0 = some .live ∧
      (t.next 10 []).2 = some { batch := 2, lane := 0, chunks := [1], hedge := false } := by
  decide +kernel

end Hoverfly.Sched
