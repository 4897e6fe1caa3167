import Hoverfly.Lib.Map
import Hoverfly.Sched.Health
import Hoverfly.Sched.Turns

/-! What bounds a dispatch: the room on the lane, the lane's batch size, the hedge budget, and one hedge a
flight. -/
namespace Hoverfly.Sched
open Lib

variable {F : Type}

namespace Scheduler

def outstandingOn (s : Scheduler F) (lane : Nat) : Nat :=
  (s.outstanding.entries.filter fun e => e.2.1 = lane).length

theorem outstandingOn_eq (s : Scheduler F) (lane : Nat) :
    s.outstandingOn lane = weigh (fun e => if decide (e.1 = lane) then 1 else 0) s.outstanding :=
  (weigh_indicator (fun e : Nat × List Nat => decide (e.1 = lane)) s.outstanding).symm

theorem settleLane_outstanding (s : Scheduler F) (lane : Nat) (cs : List Nat) (outcome : BatchOutcome) (nowMs : Nat) :
    (s.settleLane lane cs outcome nowMs).outstanding = s.outstanding := by
  cases outcome with
  | paymentRequired => exact (s.settleLane_unpaid lane cs nowMs).2.2.1
  | answered =>
    unfold settleLane
    dsimp only
    split <;> rfl
  | failed error => rfl

theorem onBatchResult_outstanding (s : Scheduler F) (batch : Nat) (outcome : BatchOutcome) (nowMs : Nat) :
    (s.onBatchResult batch outcome nowMs).outstanding = s.outstanding.erase batch := by
  cases carried : s.outstanding.lookup batch with
  | none =>
    unfold onBatchResult
    rw [carried]
    exact (AList.ext (List.kerase_of_notMem_keys (AList.lookup_eq_none.mp carried))).symm
  | some entry =>
    rw [onBatchResult_eq carried]
    have loop := foldl_related Steady.refl Steady.trans (Steady.requeue entry.1) entry.2
      ((s.erased batch entry.1).settleLane entry.1 entry.2 outcome nowMs)
    rw [loop.outstanding, settleLane_outstanding]
    rfl

end Scheduler

def Call.books [F64 F] (s : Scheduler F) : Call F → AList (fun _ : Nat => Nat × List Nat)
  | .next nowMs iter => (s.next nowMs iter).2.elim s.outstanding fun a => s.outstanding.insert a.batch (a.lane, a.chunks)
  | .onBatchResult batch _ _ => s.outstanding.erase batch
  | _ => s.outstanding

variable {s : Scheduler F} {nowMs i : Nat} {iter : List Nat} {a : Assignment}

theorem Scheduler.next_batch [F64 F] (handed : (s.next nowMs iter).2 = some a) : a.batch = s.nextBatchId := by
  rcases next_cases s nowMs iter with out | ⟨lane, picked, out, _⟩ | ⟨lane, picked, out, _⟩
  · rw [out] at handed
    cases handed
  · rw [out] at handed
    cases handed
    exact (markHedged_frame _ picked).2.1
  · rw [out] at handed
    cases handed
    rfl

theorem Scheduler.next_fresh [F64 F] (inv : Inv s)
    (handed : (s.next nowMs iter).2 = some a) : s.outstanding.lookup a.batch = none := by
  rw [next_batch handed]
  by_contra present
  obtain ⟨entry, found⟩ := Option.ne_none_iff_exists'.mp present
  exact absurd (inv.batched _ entry.1 entry.2 found).1 (Nat.lt_irrefl _)

theorem Call.outstanding_apply [F64 F] (s : Scheduler F) (call : Call F) : (call.apply s).outstanding = call.books s := by
  cases call with
  | admitChunks chunks =>
    obtain ⟨_, _, _, out, _⟩ := s.admitChunks_frame chunks
    rw [Call.apply, out]
    rfl
  | admitGroup chunks need =>
    obtain ⟨_, _, _, out, _⟩ := s.admitGroup_frame chunks need
    rw [Call.apply, out]
    rfl
  | next nowMs iter =>
    rw [Call.apply, Call.books]
    rcases Scheduler.next_cases s nowMs iter with out | ⟨lane, picked, out, _⟩ | ⟨lane, picked, out, _⟩
    · rw [out]
      rfl
    · rw [out]
      refine (Scheduler.dispatch_view ..).2.1.trans ?_
      rw [(Scheduler.markHedged_frame _ picked).1]
      rfl
    · rw [out]
      exact (Scheduler.dispatch_view ..).2.1
  | onAck lane addr ok => exact (Steady.onAck s lane addr ok).outstanding
  | onBatchResult batch outcome nowMs => exact s.onBatchResult_outstanding batch outcome nowMs
  | onBatchTiming | setLaneInfo | setLaneBatchMax | fundLane | retireLane => rfl

theorem Lane.inflight_expired (nowMs : Nat) (l : Lane F) : (l.expired nowMs).inflight = l.inflight := by
  unfold Lane.expired
  split
  · split <;> rfl
  · rfl

theorem Lane.inflight_settled (acked : Nat) (outcome : BatchOutcome) (nowMs : Nat) (l : Lane F) :
    (l.settled acked outcome nowMs).inflight = l.inflight := by
  have faulted : (Scheduler.laneFault nowMs l).inflight = l.inflight := by
    unfold Scheduler.laneFault
    dsimp only
    split
    · split <;> rfl
    · rfl
  unfold Lane.settled
  split
  · rfl
  · split
    · rfl
    · exact faulted
  · exact faulted

theorem Lane.inflight_timed [F64 F] (acked elapsedMs : Nat) (l : Lane F) :
    (l.timed acked elapsedMs).inflight = l.inflight := by
  unfold Lane.timed
  dsimp only
  split <;> rfl

theorem Lane.inflight_funded (l : Lane F) : l.funded.inflight = l.inflight := by
  unfold Lane.funded
  split
  · split <;> rfl
  · rfl

theorem Scheduler.inflight_tallied (s : Scheduler F) (addr : Addr) (ok : Bool) (l : Lane F) :
    (s.tallied addr ok l).inflight = l.inflight := by
  unfold Scheduler.tallied
  repeat' split
  all_goals rfl

def Scheduler.Counts (s : Scheduler F) : Prop := ∀ (i : Nat) (l : Lane F), s.lanes[i]? = some l → l.inflight = s.outstandingOn i

theorem Call.onLane_inflight [F64 F] (inv : Inv s) {l : Lane F}
    (counts : l.inflight = s.outstandingOn i) (call : Call F) :
    (call.onLane s i l).inflight = (call.apply s).outstandingOn i := by
  rw [Scheduler.outstandingOn_eq, Call.outstanding_apply]
  rw [Scheduler.outstandingOn_eq] at counts
  cases call with
  | admitChunks chunks | admitGroup chunks need => exact counts
  | next nowMs iter =>
    rw [Call.onLane, Call.books]
    cases handed : (s.next nowMs iter).2 with
    | none =>
      dsimp only [Option.any_none, Option.elim_none]
      rw [if_neg Bool.false_ne_true, Lane.inflight_expired, counts]
    | some a =>
      have entered := weigh_insert (fun e : Nat × List Nat => if decide (e.1 = i) then 1 else 0) a.batch
        (a.lane, a.chunks) s.outstanding
      rw [Scheduler.next_fresh inv handed] at entered
      dsimp only [Option.any_some, Option.elim_some, Option.map_none, Option.getD_none] at entered ⊢
      by_cases here : a.lane = i
      · rw [if_pos (decide_eq_true here)] at entered ⊢
        dsimp only
        rw [Lane.inflight_expired]
        omega
      · rw [if_neg (by simp [here])] at entered ⊢
        rw [Lane.inflight_expired]
        omega
  | onAck lane addr ok =>
    refine Eq.trans ?_ counts
    rw [Call.onLane]
    split
    · exact s.inflight_tallied addr ok l
    · rfl
  | onBatchResult batch outcome nowMs =>
    rw [Call.onLane, Call.books]
    have struck := weigh_erase (fun e : Nat × List Nat => if decide (e.1 = i) then 1 else 0) batch s.outstanding
    cases carried : s.outstanding.lookup batch with
    | none =>
      rw [carried] at struck
      exact counts.trans struck.symm
    | some entry =>
      rw [carried] at struck
      dsimp only [Option.map_some, Option.getD_some] at struck ⊢
      by_cases here : entry.1 = i
      · rw [if_pos (decide_eq_true here)] at struck
        rw [if_pos here, Lane.inflight_settled]
        dsimp only
        omega
      · rw [if_neg (by simp [here])] at struck
        rw [if_neg here]
        omega
  | onBatchTiming lane acked elapsedMs =>
    refine Eq.trans ?_ counts
    rw [Call.onLane]
    split
    · exact l.inflight_timed acked elapsedMs
    · rfl
  | setLaneInfo lane info | setLaneBatchMax lane max | retireLane lane =>
    refine Eq.trans ?_ counts
    rw [Call.onLane]
    split <;> rfl
  | fundLane lane =>
    refine Eq.trans ?_ counts
    rw [Call.onLane]
    split
    · exact l.inflight_funded
    · rfl

theorem Call.counts_apply [F64 F] (inv : Inv s) (counts : s.Counts) (call : Call F) :
    (call.apply s).Counts := by
  intro i l found
  rw [Call.lanes_apply] at found
  obtain ⟨old, at_i, rfl⟩ := Option.map_eq_some_iff.mp found
  exact call.onLane_inflight inv (counts i old at_i)

theorem counts_run [F64 F] (lanes : List (LaneInfo F)) (cfg : Config F) (policy : CompletionPolicy)
    (calls : List (Call F)) : (run Call.apply (Scheduler.withPolicy lanes cfg policy) calls).Counts := by
  have both : Inv (run Call.apply (Scheduler.withPolicy lanes cfg policy) calls) ∧
      (run Call.apply (Scheduler.withPolicy lanes cfg policy) calls).Counts := by
    apply run_invariant fun s : Scheduler F => Inv s ∧ s.Counts
    · exact fun s call ⟨inv, counts⟩ => ⟨(call.apply_kept s inv).1, call.counts_apply inv counts⟩
    · refine ⟨inv_withPolicy lanes cfg policy, fun i l found => ?_⟩
      unfold Scheduler.withPolicy at found
      rw [List.getElem?_mapIdx] at found
      obtain ⟨info, _, rfl⟩ := Option.map_eq_some_iff.mp found
      rfl
  exact both.2

namespace Scheduler

variable [F64 F]

theorem hedgeBudget_le [F64.Scaling F] {s t : Scheduler F} (cfg : t.cfg = s.cfg)
    (grown : s.chunks.length ≤ t.chunks.length) : s.hedgeBudget ≤ t.hedgeBudget := by
  unfold hedgeBudget
  rw [cfg]
  exact max_le_max_right 8 (F64.Scaling.share_le s.cfg.hedgeFraction grown)

theorem hedge_within {s : Scheduler F} {nowMs : Nat} {iter : List Nat} {a : Assignment}
    (handed : (s.next nowMs iter).2 = some a) (hedge : a.hedge = true) :
    a.chunks.length ≤ (s.expireBackoffs nowMs).batchSizeOf a.lane ∧ s.hedgesUsed + a.chunks.length ≤ s.hedgeBudget := by
  rcases next_selected handed with ⟨_, selected⟩ | ⟨plain, _⟩
  · obtain ⟨lane, all, left, _, _, out⟩ := nextHedge_taken selected
    obtain rfl : a = _ := congrArg Prod.snd out
    have taken := List.length_take_le (min ((s.expireBackoffs nowMs).batchSizeOf lane)
      ((s.expireBackoffs nowMs).hedgeBudget - (s.expireBackoffs nowMs).hedgesUsed)) all
    have affordable := taken.trans (Nat.min_le_right _ _)
    exact ⟨taken.trans (Nat.min_le_left _ _), Nat.add_le_of_le_sub' (Nat.le_of_lt left) affordable⟩
  · rw [plain] at hedge
    cases hedge

end Scheduler

theorem Call.budget_apply [F64 F] [F64.Scaling F] (s : Scheduler F) (call : Call F)
    (within : s.hedgesUsed ≤ s.hedgeBudget) : (call.apply s).hedgesUsed ≤ (call.apply s).hedgeBudget := by
  obtain ⟨admitted, fixed⟩ := call.fixed_apply s
  have cfg : (call.apply s).cfg = s.cfg := congrArg (·.1) fixed
  have used : (call.apply s).hedgesUsed = s.hedgesUsed + call.hedges s := congrArg (·.2.2.1) fixed
  have grown : (call.apply s).chunks.length = s.chunks.length + admitted := congrArg (·.2.2.2.1) fixed
  have more := Scheduler.hedgeBudget_le cfg (grown ▸ Nat.le_add_right ..)
  have spent : s.hedgesUsed + call.hedges s ≤ s.hedgeBudget := by
    cases call with
    | next nowMs iter =>
      rw [Call.hedges]
      cases handed : (s.next nowMs iter).2 with
      | none => exact within
      | some a =>
        dsimp only [Option.elim_some]
        split
        · rename_i hedge
          exact (Scheduler.hedge_within handed hedge).2
        · exact within
    | _ => exact within
  omega

def Scheduler.Marked (s : Scheduler F) (i : Nat) : Prop := ∃ c, s.chunks[i]? = some c ∧ c.hedged = true

theorem Call.marked_apply [F64 F] (call : Call F) (marked : s.Marked i) :
    (call.apply s).Marked i ∨ (call.apply s).isPending i = true := by
  obtain ⟨c, found, hedged⟩ := marked
  obtain ⟨d, at_d, turn⟩ := call.turn found
  rcases turn.hedged hedged with stays | waits
  · exact .inl ⟨d, at_d, stays⟩
  · exact .inr (Scheduler.isPending_iff.mpr ⟨d, at_d, waits⟩)

theorem marked_run [F64 F] (calls : List (Call F)) (marked : s.Marked i) :
    (run Call.apply s calls).Marked i ∨ ∃ pre, pre <+: calls ∧ (run Call.apply s pre).isPending i = true := by
  induction calls generalizing s with
  | nil => exact .inl marked
  | cons call rest ih =>
    rcases call.marked_apply marked with stays | waits
    · rcases ih stays with last | ⟨pre, within, waits⟩
      · exact .inl last
      · exact .inr ⟨call :: pre, by simpa using within, waits⟩
    · exact .inr ⟨[call], by simp, waits⟩

theorem Scheduler.hedge_spec [F64 F] (handed : (s.next nowMs iter).2 = some a) (hedge : a.hedge = true) :
    a.chunks.Nodup ∧ ∀ ci ∈ a.chunks, (s.next nowMs iter).1.Marked ci ∧ ∃ c cur rest, s.chunks[ci]? = some c ∧
      c.phase = .inFlight ∧ c.hedged = false ∧ c.on = cur :: rest ∧ a.lane ≠ cur := by
  rcases next_cases s nowMs iter with out | ⟨lane, picked, out, _, nodup, aimed⟩ | ⟨lane, picked, out, _⟩
  · rw [out] at handed
    cases handed
  · rw [out] at handed ⊢
    cases handed
    refine ⟨nodup, fun ci member => ?_⟩
    obtain ⟨_, _, c, cur, rest, found, flying, unmarked, on, away⟩ := hedgeTarget_spec (aimed ci member)
    refine ⟨⟨dispatchChunk lane true nowMs { c with hedged := true }, ?_, rfl⟩,
      c, cur, rest, found, flying, unmarked, on, away⟩
    dsimp only
    rw [(dispatch_view ..).1, foldl_updChunk_iterate, markHedged, foldl_updChunk_iterate,
      List.count_eq_one_of_mem nodup member]
    exact congrArg (Option.map _ ∘ Option.map _) found
  · rw [out] at handed
    cases handed
    cases hedge

/-- The limits a dispatch keeps to, in every state of every run: a lane counts its batches, a batch goes to an
eligible lane with room, the hedges stay within the budget, and between two hedges a chunk waits. -/
theorem dispatch_limits [F64 F] [F64.Scaling F] (lanes : List (LaneInfo F)) (cfg : Config F)
    (policy : CompletionPolicy) (calls : List (Call F)) :
    let s := run Call.apply (Scheduler.withPolicy lanes cfg policy) calls
    (∀ (i : Nat) (l : Lane F), s.lanes[i]? = some l → l.inflight = s.outstandingOn i) ∧
    s.hedgesUsed ≤ max 8 (F64.toNat (F64.ceil (F64.ofNat s.chunks.length * cfg.hedgeFraction))) ∧
    ∀ nowMs iter a, (s.next nowMs iter).2 = some a →
      (∃ l, s.lanes[a.lane]? = some l ∧ l.eligible nowMs = true ∧
        (l.expired nowMs).inflight < (l.expired nowMs).capacity cfg) ∧
      (a.hedge = true → a.chunks.Nodup ∧ ∀ ci ∈ a.chunks,
        (∃ c cur rest, s.chunks[ci]? = some c ∧ c.on = cur :: rest ∧ a.lane ≠ cur) ∧
        ∀ more nowMs' iter' b, ((run Call.apply s (.next nowMs iter :: more)).next nowMs' iter').2 = some b →
          b.hedge = true → ci ∈ b.chunks →
          ∃ pre, pre <+: more ∧ (run Call.apply s (.next nowMs iter :: pre)).isPending ci = true) := by
  intro s
  have config : s.cfg = cfg ∧ s.hedgesUsed ≤ s.hedgeBudget := by
    apply run_invariant fun t : Scheduler F => t.cfg = cfg ∧ t.hedgesUsed ≤ t.hedgeBudget
    · intro t call ⟨same, within⟩
      obtain ⟨_, fixed⟩ := call.fixed_apply t
      exact ⟨(congrArg (·.1) fixed).trans same, call.budget_apply t within⟩
    · exact ⟨rfl, Nat.zero_le _⟩
  refine ⟨counts_run lanes cfg policy calls, ?_, ?_⟩
  · have within := config.2
    rw [Scheduler.hedgeBudget, config.1, Nat.max_comm] at within
    exact within
  · intro nowMs iter a handed
    refine ⟨config.1 ▸ Scheduler.next_assigned handed, fun hedge => ?_⟩
    obtain ⟨nodup, each⟩ := Scheduler.hedge_spec handed hedge
    refine ⟨nodup, fun ci member => ?_⟩
    obtain ⟨marked, c, cur, rest, found, _, _, on, away⟩ := each ci member
    refine ⟨⟨c, cur, rest, found, on, away⟩, fun more nowMs' iter' b handed' hedge' member' => ?_⟩
    rcases marked_run more marked with ⟨d, at_d, stays⟩ | waits
    · -- A second hedge takes the chunk without a mark.
      obtain ⟨_, e, _, _, at_e, _, unmarked, _⟩ := (Scheduler.hedge_spec handed' hedge').2 ci member'
      cases at_d.symm.trans at_e
      rw [stays] at unmarked
      cases unmarked
    · exact waits

theorem dispatch_limits_hedged :
    let s := run Call.apply (Scheduler.withPolicy twoLanes Config.default .allAcked)
      [.admitChunks [(Bytes.replicate 32 1, 4096)], .next 0 [], .next 3000 []]
    s.hedgesUsed = 1 ∧
      s.hedgesUsed ≤ max 8 (F64.toNat (F64.ceil (F64.ofNat s.chunks.length * (Config.default (F := ℚ)).hedgeFraction))) :=
  ⟨by decide +kernel, (dispatch_limits twoLanes Config.default .allAcked _).2.1⟩

namespace Scheduler

theorem pickLoop_length (want : Nat → Bool) (take : Nat) (xs picked : List Nat) (room : picked.length < take) :
    (pickLoop want take xs picked).length ≤ take := by
  induction xs generalizing picked with
  | nil => exact Nat.le_of_lt room
  | cons ci rest ih =>
    unfold pickLoop
    have grown : (picked ++ [ci]).length = picked.length + 1 := List.length_append
    split
    · split
      · rename_i full
        exact full.le
      · rename_i left
        exact ih _ (by omega)
    · exact ih _ room

theorem pickLoop_zero (want : Nat → Bool) (xs picked : List Nat) :
    pickLoop want 0 xs picked = picked ++ xs.filter want := by
  induction xs generalizing picked with
  | nil => simp [pickLoop]
  | cons ci rest ih =>
    unfold pickLoop
    rw [List.filter_cons]
    split
    · rw [if_neg (by simp), ih, List.append_assoc]
      rfl
    · exact ih picked

variable [F64 F]

def waitingFor (s : Scheduler F) (nowMs lane : Nat) : List Nat :=
  s.pending.filter fun ci => s.isPending ci && s.rankLane ci (s.eligibleLanes nowMs) == some lane

theorem next_nonempty {s : Scheduler F} {nowMs : Nat} {iter : List Nat} {a : Assignment}
    (handed : (s.next nowMs iter).2 = some a) : a.chunks ≠ [] := by
  rcases next_selected handed with ⟨_, selected⟩ | ⟨_, chosen⟩
  · obtain ⟨_, _, _, _, some_, out⟩ := nextHedge_taken selected
    obtain rfl : a = _ := congrArg Prod.snd out
    exact some_
  · exact (choose_cases chosen).2.1

end Scheduler

/-- A batch is never empty, and it is within the lane's own limit exactly if that limit is not zero or at most one
chunk waits for the lane: the loop over the first choices does not see a limit of zero. -/
theorem assignment_size_iff [F64 F] {s : Scheduler F} {nowMs : Nat} {iter : List Nat} {a : Assignment}
    (handed : (s.next nowMs iter).2 = some a) :
    let e := s.expireBackoffs nowMs
    1 ≤ a.chunks.length ∧ (a.chunks.length ≤ max 1 (e.batchSizeOf a.lane) ↔
      1 ≤ e.batchSizeOf a.lane ∨ (e.waitingFor nowMs a.lane).length ≤ 1) := by
  intro e
  have some_ : 1 ≤ a.chunks.length := List.length_pos_iff.mpr (Scheduler.next_nonempty handed)
  refine ⟨some_, ?_⟩
  rcases Scheduler.next_selected handed with ⟨hedge, _⟩ | ⟨_, chosen⟩
  · have within : a.chunks.length ≤ e.batchSizeOf a.lane := (Scheduler.hedge_within handed hedge).1
    omega
  · obtain ⟨_, _, first | oldest⟩ := Scheduler.choose_cases chosen
    · by_cases limit : e.batchSizeOf a.lane = 0
      · have all : a.chunks = e.waitingFor nowMs a.lane := by
          rw [first, Scheduler.firstChoice, limit]
          exact Scheduler.pickLoop_zero ..
        rw [all, limit]
        omega
      · have within : a.chunks.length ≤ e.batchSizeOf a.lane := by
          rw [first]
          exact Scheduler.pickLoop_length _ _ _ _ (Nat.pos_of_ne_zero limit)
        omega
    · have within : a.chunks.length ≤ e.batchSizeOf a.lane := by
        rw [oldest]
        exact List.length_take_le ..
      omega

theorem assignment_size_probe :
    let s := run Call.apply (Scheduler.new lane Config.default)
      [.admitChunks [(Bytes.replicate 32 0, 4096), (Bytes.replicate 32 1, 4096)]]
    (s.next 0 []).2 = some { batch := 1, lane := 0, chunks := [0, 1], hedge := false } ∧
      2 ≤ max 1 ((s.expireBackoffs 0).batchSizeOf 0) := by
  have handed : ((run Call.apply (Scheduler.new lane Config.default)
      [.admitChunks [(Bytes.replicate 32 0, 4096), (Bytes.replicate 32 1, 4096)]]).next 0 []).2 =
      some { batch := 1, lane := 0, chunks := [0, 1], hedge := false } := by decide +kernel
  exact ⟨handed, (assignment_size_iff handed).2.mpr (.inl (by decide +kernel))⟩

/-- A relay that advertises a batch of zero is handed everything that ranks it first. -/
theorem batchMax_zero_unbounded :
    let s := run Call.apply (Scheduler.new [{ batchMax := some 0 }] (Config.default (F := ℚ)))
      [.admitChunks [(Bytes.replicate 32 0, 4096), (Bytes.replicate 32 1, 4096)]]
    (s.expireBackoffs 0).batchSizeOf 0 = 0 ∧
      (s.next 0 []).2 = some { batch := 1, lane := 0, chunks := [0, 1], hedge := false } := by
  decide +kernel

end Hoverfly.Sched
