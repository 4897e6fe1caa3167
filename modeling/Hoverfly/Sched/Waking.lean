import Hoverfly.Sched.Limits

/-! When `next` has nothing to hand out, and when the driver is told to come back. -/
namespace Hoverfly.Sched
open Lib

variable {F : Type}

theorem lastMaxBy_isSome {A : Type} (key : A → Nat) {xs : List A} (some_ : xs ≠ []) :
    (lastMaxBy key xs).isSome = true := by
  obtain ⟨x, member⟩ := List.exists_mem_of_ne_nil _ some_
  refine foldl_isSome (fun y z => ?_) (fun best => ?_) member none
  · dsimp only
    split <;> rfl
  · cases best with
    | none => rfl
    | some y =>
      dsimp only
      split <;> rfl

namespace Scheduler

theorem pushTo_ne_nil (entries : List (Nat × List Nat)) (lane ci : Nat) : pushTo entries lane ci ≠ [] := by
  unfold pushTo
  split
  · rename_i known
    obtain ⟨e, member, _⟩ := List.any_eq_true.mp known
    exact fun none_ => List.ne_nil_of_mem member (List.map_eq_nil_iff.mp none_)
  · simp

theorem inOrder_ne_nil (iter : List Nat) {entries : List (Nat × List Nat)} (some_ : entries ≠ []) :
    inOrder iter entries ≠ [] := by
  obtain ⟨e, member⟩ := List.exists_mem_of_ne_nil _ some_
  unfold inOrder
  by_cases listed : e.1 ∈ iter
  · have known : (entries.find? (·.1 = e.1)).isSome = true :=
      List.find?_isSome.mpr ⟨e, member, decide_eq_true rfl⟩
    obtain ⟨found, at_lane⟩ := Option.isSome_iff_exists.mp known
    exact List.append_ne_nil_of_right_ne_nil _
      (List.ne_nil_of_mem (List.mem_filterMap.mpr ⟨e.1, listed, at_lane⟩))
  · refine List.append_ne_nil_of_left_ne_nil (List.ne_nil_of_mem (List.mem_filter.mpr ⟨member, ?_⟩)) _
    simpa using listed

variable {ci nowMs : Nat} {s : Scheduler F} {eligible : List Nat}

theorem pickLoop_ne_nil {want : Nat → Bool} {xs : List Nat} (member : ci ∈ xs) (wanted : want ci = true)
    (take : Nat) : pickLoop want take xs [] ≠ [] := by
  induction xs with
  | nil => cases member
  | cons x rest ih =>
    unfold pickLoop
    split
    · split
      · exact List.cons_ne_nil x []
      · obtain ⟨ys, out, _⟩ := pickLoop_sublist want take rest ([] ++ [x])
        rw [out]
        exact List.cons_ne_nil x ys
    · rename_i other
      rcases List.mem_cons.mp member with rfl | member
      · exact absurd wanted other
      · exact ih member

variable [F64 F]

theorem hedgeTarget_range {alt : Nat}
    (aimed : s.hedgeTarget eligible nowMs ci = some alt) : ci < s.chunks.length ∧ 2 ≤ eligible.length := by
  have ranked : ∃ l, s.rankNth ci eligible 1 = some l := by
    unfold hedgeTarget at aimed
    simp only [Option.bind_eq_bind, Option.bind_eq_some_iff] at aimed
    obtain ⟨_, _, _, _, _, _, _, _, _, _, l, second, _⟩ := aimed
    exact ⟨l, second⟩
  obtain ⟨l, second⟩ := ranked
  obtain ⟨_, _, c, _, _, found, _⟩ := hedgeTarget_spec aimed
  refine ⟨(List.getElem?_eq_some_iff.mp found).1, ?_⟩
  unfold rankNth at second
  obtain ⟨p, at_one, _⟩ := Option.map_eq_some_iff.mp second
  have inside := (List.getElem?_eq_some_iff.mp at_one).1
  rwa [List.length_insertionSort, List.length_map] at inside

theorem hedgesByLane_eq_nil :
    s.hedgesByLane eligible nowMs = [] ↔ ∀ ci, s.hedgeTarget eligible nowMs ci = none := by
  have loop : s.hedgesByLane eligible nowMs = [] ↔
      ∀ ci ∈ List.range s.chunks.length, s.hedgeTarget eligible nowMs ci = none := by
    apply foldl_invariant fun seen (entries : List (Nat × List Nat)) =>
      entries = [] ↔ ∀ ci ∈ seen, s.hedgeTarget eligible nowMs ci = none
    · simp
    · intro seen ci entries _ known
      cases aimed : s.hedgeTarget eligible nowMs ci with
      | none => simp [known, or_imp, forall_and, aimed]
      | some alt =>
        have listed := pushTo_ne_nil entries alt ci
        simp [listed, or_imp, forall_and, aimed]
  rw [loop]
  refine ⟨fun none_ ci => ?_, fun none_ ci _ => none_ ci⟩
  cases aimed : s.hedgeTarget eligible nowMs ci with
  | none => rfl
  | some alt =>
    have none_ := none_ ci (List.mem_range.mpr (hedgeTarget_range aimed).1)
    cases aimed.symm.trans none_

theorem hedgesByLane_nonempty (s : Scheduler F) (eligible : List Nat) (nowMs : Nat) :
    ∀ e ∈ s.hedgesByLane eligible nowMs, e.2 ≠ [] := by
  apply foldl_invariant fun _ (entries : List (Nat × List Nat)) => ∀ e ∈ entries, e.2 ≠ []
  · simp
  · intro seen ci entries _ known e member
    split at member
    · rcases mem_pushTo member with member | rfl | ⟨old, _, rfl⟩
      · exact known e member
      · exact List.cons_ne_nil ci []
      · exact List.append_ne_nil_of_right_ne_nil old (List.cons_ne_nil ci [])
    · exact known e member

theorem nextHedge_eq_none {iter : List Nat} (sizes : ∀ i ∈ s.eligibleLanes nowMs, 1 ≤ s.batchSizeOf i) :
    s.nextHedge nowMs iter = none ↔ s.hedgeBudget ≤ s.hedgesUsed ∨
      ∀ ci, s.hedgeTarget (s.eligibleLanes nowMs) nowMs ci = none := by
  rw [← hedgesByLane_eq_nil]
  constructor
  · intro idle
    by_contra both
    obtain ⟨left, some_⟩ := not_or.mp both
    obtain ⟨⟨lane, all⟩, best⟩ := Option.isSome_iff_exists.mp
      (lastMaxBy_isSome (·.2.length) (inOrder_ne_nil iter some_))
    have entry := mem_of_mem_inOrder (lastMaxBy_mem _ _ _ best)
    obtain ⟨ci, member⟩ := List.exists_mem_of_ne_nil all (hedgesByLane_nonempty s _ _ _ entry)
    have aimed := (hedgesByLane_spec s _ _ _ entry).2 ci member
    have size := sizes lane (hedgeTarget_spec aimed).1
    unfold nextHedge at idle
    rw [if_neg left] at idle
    dsimp only at idle
    rw [if_neg (Nat.not_lt.mpr (hedgeTarget_range aimed).2), best] at idle
    simp only [Option.bind_eq_bind, Option.bind_some, Option.bind_eq_none_iff, Option.guard_eq_some', Option.pure_def,
      reduceCtorEq, ne_eq, List.take_eq_nil_iff, imp_false, not_not] at idle
    rcases idle () with limit | none_
    · omega
    · exact List.ne_nil_of_mem member none_
  · intro none_
    cases selected : s.nextHedge nowMs iter with
    | none => rfl
    | some out =>
      obtain ⟨lane, all, left, entry, _⟩ := nextHedge_taken selected
      rcases none_ with spent | none_
      · exact absurd spent (Nat.not_le.mpr left)
      · rw [none_] at entry
        cases entry

theorem heaviestFree_isSome (s : Scheduler F) {free : List Nat} (some_ : free ≠ []) :
    (s.heaviestFree free).isSome = true := by
  obtain ⟨l, member⟩ := List.exists_mem_of_ne_nil _ some_
  refine foldl_isSome (fun b y => ?_) (fun best => ?_) member none
  · dsimp only
    split <;> rfl
  · cases best with
    | none => rfl
    | some b =>
      dsimp only
      split <;> rfl

theorem choose_eq_none (sizes : ∀ i ∈ s.eligibleLanes nowMs, 1 ≤ s.batchSizeOf i) :
    s.choose nowMs = none ↔ s.freeLanes nowMs = [] ∨ s.pending.filter s.isPending = [] := by
  constructor
  · intro idle
    by_contra both
    obtain ⟨free, waiting⟩ := not_or.mp both
    unfold choose at idle
    dsimp only at idle
    split at idle
    · cases idle
    · obtain ⟨l, heaviest⟩ := Option.isSome_iff_exists.mp (s.heaviestFree_isSome free)
      have size := sizes l (mem_freeLanes.mp (heaviestFree_mem heaviest)).1
      rw [heaviest] at idle
      simp only [Option.bind_eq_bind, Option.bind_some, Option.bind_eq_none_iff, Option.guard_eq_some',
        Option.pure_def, reduceCtorEq, ne_eq, List.take_eq_nil_iff, imp_false, not_not] at idle
      rcases idle () with limit | none_
      · omega
      · exact waiting none_
  · intro none_
    cases chosen : s.choose nowMs with
    | none => rfl
    | some best =>
      obtain ⟨lane, picked⟩ := best
      obtain ⟨free, some_, sub⟩ := choose_spec chosen
      rcases none_ with none_ | none_
      · rw [none_] at free
        cases free
      · rw [none_] at sub
        exact absurd (List.sublist_nil.mp sub) some_

theorem choose_isSome {lane : Nat} (free : lane ∈ s.freeLanes nowMs)
    (member : ci ∈ s.pending) (waits : s.isPending ci = true)
    (first : s.rankLane ci (s.eligibleLanes nowMs) = some lane) : (s.choose nowMs).isSome = true := by
  have wanted : (s.firstChoice (s.eligibleLanes nowMs) lane).isEmpty = false := by
    rw [List.isEmpty_eq_false_iff]
    exact pickLoop_ne_nil member (by simp [waits, first]) _
  have best : (s.bestFree (s.eligibleLanes nowMs) (s.freeLanes nowMs)).isSome = true := by
    refine foldl_isSome (fun b y => ?_) (fun best => ?_) free none
    · dsimp only
      split
      · rfl
      · split <;> rfl
    · dsimp only
      rw [wanted, if_neg Bool.false_ne_true]
      cases best with
      | none => rfl
      | some b =>
        dsimp only
        split <;> rfl
  obtain ⟨b, found⟩ := Option.isSome_iff_exists.mp best
  unfold choose
  dsimp only
  rw [found]
  rfl

theorem rankLane_isSome (s : Scheduler F) (ci : Nat) (some_ : eligible ≠ []) :
    (s.rankLane ci eligible).isSome = true := by
  have ranked : 0 < ((eligible.map fun l => (s.score ci l, l)).insertionSort fun a b => rankBefore a b = true).length := by
    rw [List.length_insertionSort, List.length_map]
    exact List.length_pos_iff.mpr some_
  unfold rankLane rankNth
  rw [Option.isSome_map, List.getElem?_eq_getElem ranked]
  rfl

end Scheduler

/-- The lane's own limit, once the backoffs that are over have been ended. -/
def Scheduler.Sized [F64 F] (s : Scheduler F) (nowMs : Nat) : Prop :=
  ∀ l ∈ (s.expireBackoffs nowMs).lanes, 1 ≤ l.batchSize s.cfg

variable {s : Scheduler F} {nowMs : Nat}

theorem Scheduler.Sized.batchSizeOf [F64 F] (sized : s.Sized nowMs) :
    ∀ i ∈ (s.expireBackoffs nowMs).eligibleLanes nowMs, 1 ≤ (s.expireBackoffs nowMs).batchSizeOf i := by
  intro i eligible
  obtain ⟨l, found, _⟩ := Scheduler.mem_eligibleLanes.mp eligible
  unfold Scheduler.batchSizeOf
  rw [found]
  exact sized l (List.mem_of_getElem? found)

def Scheduler.HasWork [F64 F] (s : Scheduler F) (nowMs : Nat) : Prop :=
  (s.hedgesUsed < s.hedgeBudget ∧ ∃ ci alt, s.hedgeTarget (s.eligibleLanes nowMs) nowMs ci = some alt) ∨
    (s.freeLanes nowMs ≠ [] ∧ ∃ ci, s.isPending ci = true)

theorem Scheduler.next_idle [F64 F] {iter : List Nat}
    (idle : (s.next nowMs iter).2 = none) : (s.next nowMs iter).1 = s.expireBackoffs nowMs := by
  rcases next_cases s nowMs iter with out | ⟨_, _, out, _⟩ | ⟨_, _, out, _⟩
  · rw [out]
  · rw [out] at idle
    cases idle
  · rw [out] at idle
    cases idle

/-- Where no lane's limit is zero, `next` is idle exactly if there is nothing to hand out. -/
theorem Scheduler.next_idle_iff [F64 F] (inv : Inv s) (sized : s.Sized nowMs)
    (iter : List Nat) : (s.next nowMs iter).2 = none ↔ ¬(s.expireBackoffs nowMs).HasWork nowMs := by
  have waiting : (s.expireBackoffs nowMs).pending.filter (s.expireBackoffs nowMs).isPending = [] ↔
      ¬∃ ci, (s.expireBackoffs nowMs).isPending ci = true := by
    rw [List.filter_eq_nil_iff]
    constructor
    · rintro none_ ⟨ci, waits⟩
      obtain ⟨c, found, pending⟩ := isPending_iff.mp waits
      exact none_ ci (inv.queued ci c found pending) waits
    · exact fun none_ ci _ waits => none_ ⟨ci, waits⟩
  have aimless : (∀ ci, (s.expireBackoffs nowMs).hedgeTarget
      ((s.expireBackoffs nowMs).eligibleLanes nowMs) nowMs ci = none) ↔
      ¬∃ ci alt, (s.expireBackoffs nowMs).hedgeTarget
        ((s.expireBackoffs nowMs).eligibleLanes nowMs) nowMs ci = some alt := by
    simp only [Option.eq_none_iff_forall_ne_some, not_exists, ne_eq]
  rw [next_none_iff, nextHedge_eq_none sized.batchSizeOf, choose_eq_none sized.batchSizeOf, waiting, aimless,
    ← Nat.not_lt, HasWork, not_or, not_and_or, not_and_or, not_ne_iff]

theorem Scheduler.capacity_pos (l : Lane F) (cfg : Config F) : 1 ≤ l.capacity cfg := by
  unfold Lane.capacity
  split
  · exact Nat.le_refl 1
  · exact Nat.le_max_right ..

theorem Scheduler.freeLanes_idle [F64 F] (counts : s.Counts) (none_ : s.inFlight = 0) (nowMs : Nat) :
    (s.expireBackoffs nowMs).freeLanes nowMs = (s.expireBackoffs nowMs).eligibleLanes nowMs := by
  rw [freeLanes, List.filter_eq_self]
  intro i eligible
  obtain ⟨l, found, _⟩ := mem_eligibleLanes.mp eligible
  rw [hasRoom, found]
  rw [expireBackoffs_lanes, List.getElem?_map] at found
  obtain ⟨old, at_i, rfl⟩ := Option.map_eq_some_iff.mp found
  have entries : s.outstanding.entries = [] := List.map_eq_nil_iff.mp (List.length_eq_zero_iff.mp none_)
  have idle : (old.expired nowMs).inflight = 0 := by
    rw [Lane.inflight_expired, counts i old at_i, outstandingOn, entries]
    rfl
  rw [Option.any_some, idle]
  exact decide_eq_true (capacity_pos ..)

/-- `next` hands out nothing only if nothing waits or every eligible lane is full, provided no lane's limit is zero
once the expired backoffs are ended. With nothing in flight one eligible lane is enough, whatever the limits. -/
theorem work_conserved [F64 F] (lanes : List (LaneInfo F)) (cfg : Config F) (policy : CompletionPolicy)
    (calls : List (Call F)) (nowMs : Nat) (iter : List Nat) :
    let s := run Call.apply (Scheduler.withPolicy lanes cfg policy) calls
    (s.Sized nowMs → (s.next nowMs iter).2 = none → (∃ ci, s.isPending ci = true) →
      ∀ (i : Nat) (l : Lane F), (s.next nowMs iter).1.lanes[i]? = some l → l.eligible nowMs = true →
        l.capacity s.cfg ≤ l.inflight) ∧
    (s.done = false → s.inFlight = 0 → (∃ l ∈ s.lanes, l.eligible nowMs = true) →
      (s.next nowMs iter).2.isSome = true) := by
  intro s
  have inv : Inv s := inv_run lanes cfg policy calls
  constructor
  · rintro sized idle ⟨ci, waits⟩ i l found eligible
    rw [Scheduler.next_idle idle] at found
    have full : (s.expireBackoffs nowMs).freeLanes nowMs = [] := by
      by_contra free
      exact (Scheduler.next_idle_iff inv sized iter).mp idle (.inr ⟨free, ci, waits⟩)
    have none_ : i ∉ (s.expireBackoffs nowMs).freeLanes nowMs := by
      rw [full]
      exact List.not_mem_nil
    rw [Scheduler.mem_freeLanes, not_and] at none_
    have room := none_ (Scheduler.mem_eligibleLanes.mpr ⟨l, found, eligible⟩)
    rw [Scheduler.hasRoom, found] at room
    exact Nat.not_lt.mp fun less => room (decide_eq_true less)
  · rintro left none_ ⟨l, member, eligible⟩
    obtain ⟨ci, queued, waits⟩ := Scheduler.exists_pending inv left none_
    obtain ⟨i, found⟩ := List.mem_iff_getElem?.mp member
    have some_ : (s.expireBackoffs nowMs).eligibleLanes nowMs ≠ [] := by
      refine List.ne_nil_of_mem (a := i) (Scheduler.mem_eligibleLanes.mpr ⟨l.expired nowMs, ?_, ?_⟩)
      · rw [Scheduler.expireBackoffs_lanes, List.getElem?_map, found]
        rfl
      · rw [Lane.eligible_expired]
        exact eligible
    obtain ⟨lane, first⟩ := Option.isSome_iff_exists.mp
      ((s.expireBackoffs nowMs).rankLane_isSome ci some_)
    have free : lane ∈ (s.expireBackoffs nowMs).freeLanes nowMs := by
      rw [Scheduler.freeLanes_idle (counts_run lanes cfg policy calls) none_]
      exact Scheduler.rankNth_mem first
    have chosen := Scheduler.choose_isSome free queued waits first
    rw [Option.isSome_iff_ne_none]
    intro idle
    rw [(Scheduler.next_none_iff.mp idle).2] at chosen
    cases chosen

theorem work_conserved_queue :
    let s := run Call.apply (Scheduler.withPolicy lane (Config.default (F := ℚ)) .allAcked)
      [.admitChunks [(Bytes.replicate 32 0, 4096)], .next 0 [], .admitChunks [(Bytes.replicate 32 1, 4096)]]
    (s.next 5 []).2 = none ∧ s.isPending 1 = true ∧
      (s.next 5 []).1.lanes.all (fun l => l.capacity s.cfg ≤ l.inflight) = true := by
  refine ⟨by decide +kernel, by decide +kernel, List.all_eq_true.mpr fun l member => decide_eq_true ?_⟩
  obtain ⟨i, found⟩ := List.mem_iff_getElem?.mp member
  have warming : ∀ l ∈ ((run Call.apply (Scheduler.withPolicy lane (Config.default (F := ℚ)) .allAcked)
      [.admitChunks [(Bytes.replicate 32 0, 4096)], .next 0 [],
        .admitChunks [(Bytes.replicate 32 1, 4096)]]).next 5 []).1.lanes, l.eligible 5 = true := by decide +kernel
  exact (work_conserved lane Config.default .allAcked [.admitChunks [(Bytes.replicate 32 0, 4096)], .next 0 [],
    .admitChunks [(Bytes.replicate 32 1, 4096)]] 5 []).1 (by unfold Scheduler.Sized; decide +kernel)
    (by decide +kernel) ⟨1, by decide +kernel⟩ i l found (warming l member)

def noProbe : Config ℚ := { Config.default with probeBatch := 0 }

def oneEach : List (LaneInfo ℚ) := [{ inflightMax := some 1 }, { inflightMax := some 1 }]

def noProbeRun : List (Call ℚ) :=
  [.admitChunks [(Bytes.replicate 32 2, 4096)], .next 0 [], .onBatchResult 1 (.failed "timeout") 0, .next 0 [],
    .onBatchResult 2 (.failed "timeout") 0, .next 0 [], .onBatchResult 3 (.failed "timeout") 0, .next 0 [],
    .onAck 0 (Bytes.replicate 32 2) true, .onBatchResult 4 .answered 0,
    .admitChunks [(Bytes.replicate 32 0, 4096)], .next 0 [], .admitChunks [(Bytes.replicate 32 1, 4096)]]

/-- The backoff of lane 1 is over and it has room, but as a half-open lane it may take nothing, and the chunk waits
for lane 0. -/
theorem noProbeRun_idle :
    let s := run Call.apply (Scheduler.withPolicy oneEach noProbe .allAcked) noProbeRun
    s.lanes.all (fun l => 1 ≤ l.batchSize s.cfg) = true ∧ s.healthOf 1 = some (.backoff 2000) ∧
      (s.next 2000 []).2 = none ∧ s.isPending 2 = true ∧
      (s.next 2000 []).1.lanes.map (fun l => (l.eligible 2000, l.inflight, l.capacity s.cfg)) =
        [(true, 1, 1), (true, 0, 1)] := by
  decide +kernel

namespace Scheduler

variable [F64 F]

/-- A chunk in flight and not hedged is past the deadline its first lane sets. -/
def Overdue (s : Scheduler F) (nowMs : Nat) : Prop :=
  ∃ c ∈ s.chunks, c.phase = .inFlight ∧ c.hedged = false ∧
    ∃ cur l, c.on.head? = some cur ∧ s.lanes[cur]? = some l ∧ wrapAdd 64 c.sinceMs (l.hedgeDeadlineMs s.cfg) ≤ nowMs

theorem nextWakeMs_ahead_iff {s : Scheduler F} {nowMs : Nat} :
    (∀ w, s.nextWakeMs nowMs = some w → nowMs < w) ↔ ¬s.Overdue nowMs := by
  constructor
  · rintro ahead ⟨c, member, flying, unmarked, cur, l, head, at_cur, due⟩
    obtain ⟨xs, wakes, listed⟩ : ∃ xs, s.nextWakeMs nowMs = List.min? xs ∧
        wrapAdd 64 c.sinceMs (l.hedgeDeadlineMs s.cfg) ∈ xs := by
      refine ⟨_, rfl, List.mem_append_right _ (List.mem_filterMap.mpr ⟨c, member, ?_⟩)⟩
      simp [flying, unmarked, head, at_cur]
    cases wake : s.nextWakeMs nowMs with
    | none =>
      rw [wake] at wakes
      exact List.ne_nil_of_mem listed (List.min?_eq_none_iff.mp wakes.symm)
    | some w =>
      have earliest := (List.min?_eq_some_iff.mp (wakes.symm.trans wake)).2 _ listed
      have later := ahead w wake
      omega
  · intro punctual w wake
    unfold nextWakeMs at wake
    obtain ⟨member, _⟩ := List.min?_eq_some_iff.mp wake
    rcases List.mem_append.mp member with expiry | deadline
    · obtain ⟨l, _, until_⟩ := List.mem_filterMap.mp expiry
      split at until_
      · split at until_
        · cases until_
          assumption
        · cases until_
      · cases until_
    · obtain ⟨c, inside, due⟩ := List.mem_filterMap.mp deadline
      split at due
      · rename_i flying
        simp only [Option.bind_eq_bind, Option.bind_eq_some_iff] at due
        obtain ⟨cur, head, l, at_cur, out⟩ := due
        cases out
        exact Nat.not_le.mp fun late => punctual ⟨c, inside, flying.1, flying.2, cur, l, head, at_cur, late⟩
      · cases due

end Scheduler

end Hoverfly.Sched
