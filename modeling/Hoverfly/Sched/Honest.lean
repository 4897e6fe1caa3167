import Hoverfly.Sched.Carriage

/-! What the honest protocol gives a caller, and where it stops giving it. `on_ack` requeues a nacked chunk at once:
it can be out again on the same lane when the batch's result arrives, which then takes the lane off it. -/
namespace Hoverfly.Sched
open Lib

variable {F : Type}

structure NoDouble [F64 F] (t : Tracked F) : Prop where
  pending : t.sched.pending.Nodup
  carried : ∀ batch lane ci, t.Carries batch lane ci → ∃ c, t.sched.chunks[ci]? = some c ∧
    (c.phase = .done ∨ c.phase = .skipped ∨ (c.phase = .inFlight ∧ lane ∈ c.on))
  assigned : ∀ nowMs iter s a, t.sched.next nowMs iter = (s, some a) →
    a.chunks.Nodup ∧ ∀ ci ∈ a.chunks, ∀ batch, ¬t.Carries batch a.lane ci

variable {t : Tracked F}

theorem Carried.noDouble [F64 F] {strict : Prop} (h : Carried strict t) : NoDouble t where
  pending := h.once
  carried := by
    intro batch lane ci carries
    obtain ⟨c, found⟩ : ∃ c, t.sched.chunks[ci]? = some c :=
      ⟨_, List.getElem?_eq_getElem (h.range carries)⟩
    exact ⟨c, found, or_assoc.mp (h.carried batch lane ci carries c found)⟩
  assigned := by
    intro nowMs iter s a out
    obtain ⟨u, carried, unanswered, outstanding, _, fit, _, _⟩ := CarriedX.next_fit h out
    refine ⟨fit.nodup, fun ci member batch carries => ?_⟩
    have same : u.Carries batch a.lane ci := by
      unfold Tracked.Carries
      rw [unanswered, outstanding]
      exact carries
    exact CarriedX.apart fit carried member same

theorem requeueLoop_lane (lane : Nat) (chunks : List Nat) (s : Scheduler F) (i : Nat) (c : ChunkState)
    (found : s.chunks[i]? = some c) (live : ¬Resolved c) (off : i ∈ chunks ∨ lane ∉ c.on) :
    ∃ d, (chunks.foldl (Scheduler.requeue lane) s).chunks[i]? = some d ∧ ¬Resolved d ∧ lane ∉ d.on := by
  induction chunks generalizing s c with
  | nil => exact ⟨c, found, live, off.resolve_left List.not_mem_nil⟩
  | cons ci rest ih =>
    rw [List.foldl_cons]
    by_cases same : ci = i
    · subst same
      obtain ⟨d, chunks, _, _, _, change⟩ := Scheduler.requeue_spec lane found
      obtain ⟨_, still, on, _⟩ := change.resolve_left fun final => live final.1
      refine ih _ d ?_ still (.inr ?_)
      · rw [chunks]
        exact Scheduler.found_updChunk found _
      · rw [on]
        simp
    · have kept : (Scheduler.requeue lane s ci).chunks[i]? = some c := by
        cases at_ci : s.chunks[ci]? with
        | none =>
          unfold Scheduler.requeue
          rw [at_ci]
          exact found
        | some e =>
          obtain ⟨d, chunks, _⟩ := Scheduler.requeue_spec lane at_ci
          rw [chunks, Scheduler.getElem?_updChunk, found]
          simp [same]
      refine ih _ c kept live (off.imp_left fun member => ?_)
      exact (List.mem_cons.mp member).resolve_left fun e => same e.symm

theorem settleLane_view (s : Scheduler F) (lane : Nat) (chunks : List Nat) (outcome : BatchOutcome)
    (nowMs : Nat) : (s.settleLane lane chunks outcome nowMs).outstanding = s.outstanding ∧
      (s.settleLane lane chunks outcome nowMs).chunks.map (fun c => (c.phase, c.on)) =
        s.chunks.map (fun c => (c.phase, c.on)) := by
  unfold Scheduler.settleLane
  cases outcome with
  | answered =>
    dsimp only
    split <;> exact ⟨rfl, rfl⟩
  | failed e => exact ⟨rfl, rfl⟩
  | paymentRequired =>
    constructor
    · have frame := (Scheduler.foldl_updChunk_frame (fun c => if Scheduler.unresolved c then
          { c with attempts := if c.attempts = 0 then 0 else c.attempts - 1 } else c) chunks
        (s.updLane lane fun l => { l with health := .unfunded })).2
      have same := congrArg Scheduler.outstanding frame
      exact same
    apply Scheduler.foldl_updChunk_view
    intro c
    split
    · exact ⟨rfl, rfl⟩
    · exact ⟨rfl, rfl⟩

theorem requeueLoop_outstanding (lane : Nat) (chunks : List Nat) (s : Scheduler F) :
    (chunks.foldl (Scheduler.requeue lane) s).outstanding = s.outstanding := by
  induction chunks generalizing s with
  | nil => rfl
  | cons ci rest ih =>
    rw [List.foldl_cons, ih]
    cases found : s.chunks[ci]? with
    | none =>
      unfold Scheduler.requeue
      rw [found]
    | some c =>
      obtain ⟨_, _, out, _⟩ := Scheduler.requeue_spec lane found
      exact out

theorem not_noDouble_of_dirty [F64 F] {batch lane ci other : Nat} {cs : List Nat}
    {c : ChunkState} {outcome : BatchOutcome} {nowMs : Nat}
    (out : t.sched.outstanding.lookup batch = some (lane, cs)) (member : ci ∈ cs) (ne : other ≠ batch)
    (carries : t.Carries other lane ci) (found : t.sched.chunks[ci]? = some c) (live : ¬Resolved c) :
    ¬NoDouble (Event.apply t (.call (.onBatchResult batch outcome nowMs))) := by
  intro once
  let erased : Scheduler F := ({ t.sched with outstanding := t.sched.outstanding.erase batch }).updLane lane
    fun l => { l with inflight := l.inflight - 1 }
  obtain ⟨same, view⟩ := settleLane_view erased lane cs outcome nowMs
  have result : t.sched.onBatchResult batch outcome nowMs =
      cs.foldl (Scheduler.requeue lane) (erased.settleLane lane cs outcome nowMs) := by
    unfold Scheduler.onBatchResult
    rw [out]
  have at_ci := congrArg (·[ci]?) view
  simp only [List.getElem?_map, show erased.chunks[ci]? = some c from found, Option.map_some] at at_ci
  obtain ⟨c', found', e⟩ := Option.map_eq_some_iff.mp at_ci
  have phase : c'.phase = c.phase := congrArg Prod.fst e
  have live' : ¬Resolved c' := by
    rw [Resolved, phase]
    exact live
  obtain ⟨d, after, still, off⟩ := requeueLoop_lane lane cs _ ci c' found' live' (.inl member)
  have left : Tracked.Carries (Event.apply t (.call (.onBatchResult batch outcome nowMs))) other lane ci := by
    obtain ⟨⟨cs', at_other⟩, open_⟩ := carries
    refine ⟨⟨cs', ?_⟩, Tracked.mem_close.mpr ⟨open_, ne⟩⟩
    dsimp only [Event.apply]
    rw [result, requeueLoop_outstanding, same]
    exact (AList.lookup_erase_ne ne).trans at_other
  obtain ⟨e, at_e, held⟩ := once.carried other lane ci left
  dsimp only [Event.apply] at at_e
  rw [result, after] at at_e
  cases at_e
  rcases held with p | p | ⟨_, on⟩
  · exact still (.inl p)
  · exact still (.inr p)
  · exact off on

theorem Along.clean_of_noDouble [F64 F] (t : Tracked F) (events : List (Event F))
    (once : ∀ pre, pre <+: events → NoDouble (run Event.apply t pre)) :
    Along Clean Event.apply t events := by
  induction events generalizing t with
  | nil => trivial
  | cons event rest ih =>
    refine ⟨?_, ih (event.apply t) fun pre sub => ?_⟩
    · have after := once [event] ⟨rest, rfl⟩
      cases event with
      | ack => trivial
      | call call =>
        cases call with
        | onBatchResult batch outcome nowMs =>
          intro lane cs out ci member _ other ne carries c found
          by_contra live
          exact not_noDouble_of_dirty out member ne carries found live after
        | _ => trivial
    · obtain ⟨post, rfl⟩ := sub
      exact once (event :: pre) ⟨post, rfl⟩

def staleResult : List (Event ℚ) :=
  [.call (.admitChunks [(Bytes.replicate 32 1, 4096)]), .call (.next 0 []), .ack 1 0 true,
    .call (.onBatchResult 1 .answered 0),
    .call (.admitChunks [(Bytes.replicate 32 2, 4096)]), .call (.next 0 []), .ack 2 1 false,
    .call (.next 0 []), .call (.onBatchResult 2 .answered 0), .call (.next 0 []),
    .ack 3 1 false, .ack 4 1 false]

def cleanResult : List (Event ℚ) :=
  [.call (.admitChunks [(Bytes.replicate 32 1, 4096)]), .call (.next 0 []), .ack 1 0 false,
    .call (.onBatchResult 1 .answered 0), .call (.next 0 []), .ack 2 0 true,
    .call (.onBatchResult 2 .answered 0)]

def lane : List (LaneInfo ℚ) := [{}]
def threeTries : Config ℚ := { Config.default with maxAttempts := 3 }

theorem clean_of_lone {batch : Nat} {outcome : BatchOutcome} {nowMs : Nat}
    (lone : t.sched.outstanding.keys = [batch]) : Clean t (.call (.onBatchResult batch outcome nowMs)) := by
  rintro lane cs _ ci _ _ other ne ⟨⟨cs', at_other⟩, _⟩
  have member : other ∈ t.sched.outstanding.keys := by
    rw [← AList.mem_keys, ← AList.lookup_isSome, at_other]
    rfl
  rw [lone, List.mem_singleton] at member
  exact absurd member ne

theorem cleanResult_clean : Along Clean Event.apply (Tracked.start lane threeTries .allAcked) cleanResult := by
  refine ⟨trivial, trivial, trivial, clean_of_lone ?_, trivial, trivial, clean_of_lone ?_, trivial⟩
  · decide +kernel
  · decide +kernel

/-- Under the honest protocol no chunk is carried twice, in any state a run goes through,
exactly if every result in it comes in cleanly. -/
theorem noDouble_iff_clean [F64 F] (lanes : List (LaneInfo F)) (cfg : Config F)
    (policy : CompletionPolicy) (events : List (Event F))
    (honest : Along Honest Event.apply (Tracked.start lanes cfg policy) events) :
    (∀ pre, pre <+: events → NoDouble (run Event.apply (Tracked.start lanes cfg policy) pre)) ↔
      Along Clean Event.apply (Tracked.start lanes cfg policy) events := by
  constructor
  · exact Along.clean_of_noDouble _ events
  · rintro clean pre ⟨post, rfl⟩
    have met := ((along_append ..).mp ((along_and ..).mpr ⟨honest, clean⟩)).1
    have carried := invariant_along (Carried False) _ Event.apply
      (fun t event h ok => CarriedX.apply h event ok.1 ok.2 False.elim) _ pre
      (CarriedX.start lanes cfg policy) met
    exact carried.noDouble

theorem noDouble_cleanResult : NoDouble (run Event.apply (Tracked.start lane threeTries .allAcked) cleanResult) :=
  (noDouble_iff_clean lane threeTries .allAcked cleanResult (by decide +kernel)).mpr cleanResult_clean cleanResult
    List.prefix_rfl

/-- After the result of batch 2 the chunk waits although batch 3 still carries it, and the next
batch takes it to the same lane. -/
theorem staleResult_double :
    let t := run Event.apply (Tracked.start lane threeTries .allAcked) (staleResult.take 9)
    Along Honest Event.apply (Tracked.start lane threeTries .allAcked) (staleResult.take 9) ∧
      t.sched.outstanding.lookup 3 = some (0, [1]) ∧ t.unanswered 3 = [1] ∧
      t.sched.phase? 1 = some .pending ∧
      (t.sched.next 0 []).2 = some { batch := 4, lane := 0, chunks := [1], hedge := false } ∧
      ¬NoDouble t := by
  refine ⟨by decide +kernel, by decide +kernel, by decide +kernel, by decide +kernel,
    by decide +kernel, fun once => ?_⟩
  have carries : Tracked.Carries (run Event.apply (Tracked.start lane threeTries .allAcked)
      (staleResult.take 9)) 3 0 1 := ⟨⟨[1], by decide +kernel⟩, by decide +kernel⟩
  obtain ⟨c, found, held⟩ := once.carried 3 0 1 carries
  have waits : Scheduler.phase? (run Event.apply (Tracked.start lane threeTries .allAcked)
      (staleResult.take 9)).sched 1 = some .pending := by decide +kernel
  rw [Scheduler.phase?, found] at waits
  simp only [Option.map_some, Option.some.injEq] at waits
  simp [waits] at held

/-- The counters are exact, so `done` says that every chunk is terminal and the count of
chunks left does not wrap. -/
structure Counted (s : Scheduler F) : Prop where
  failed : s.failed = s.chunks.countP (·.phase = .failed)
  bounded : s.acked + s.failed + s.skipped ≤ s.total
  done : s.done = true ↔ ∀ c ∈ s.chunks, c.phase = .done ∨ c.phase = .failed ∨ c.phase = .skipped
  left : s.acked ≤ s.total ∧ s.failed ≤ s.total - s.acked

theorem Carried.exactCounts (h : Carried True t) : Counted t.sched := by
  have failed := CarriedX.counted h trivial
  have acked := h.inv.ackedCount
  have skipped := h.inv.skippedCount
  have sum : t.sched.acked + t.sched.failed + t.sched.skipped =
      t.sched.chunks.countP (fun c => decide (c.phase = .done) ||
        (decide (c.phase = .failed) || decide (c.phase = .skipped))) := by
    rw [countP_or, countP_or, acked, failed, skipped, Nat.add_assoc]
    · intro c _ p
      simp [of_decide_eq_true p]
    · intro c _ p
      simp [of_decide_eq_true p]
  have bounded : t.sched.acked + t.sched.failed + t.sched.skipped ≤ t.sched.total := by
    rw [sum]
    exact List.countP_le_length
  refine ⟨failed, bounded, ?_, by omega, by omega⟩
  have full : t.sched.done = true ↔ t.sched.acked + t.sched.failed + t.sched.skipped = t.sched.total := by
    unfold Scheduler.done
    rw [decide_eq_true_iff]
    exact ⟨fun reached => Nat.le_antisymm bounded reached, fun same => same.ge⟩
  rw [full, sum, Scheduler.total, List.countP_eq_length]
  simp

/-- With clean results the honest protocol keeps the counters exact in every state of a run. -/
theorem counted_of_clean [F64 F] (lanes : List (LaneInfo F)) (cfg : Config F)
    (policy : CompletionPolicy) (events : List (Event F))
    (honest : Along Honest Event.apply (Tracked.start lanes cfg policy) events)
    (paid : Along PaidFirst Event.apply (Tracked.start lanes cfg policy) events)
    (clean : Along Clean Event.apply (Tracked.start lanes cfg policy) events) :
    ∀ pre, pre <+: events → Counted (run Event.apply (Tracked.start lanes cfg policy) pre).sched := by
  rintro pre ⟨post, rfl⟩
  have met := ((along_append ..).mp
    ((along_and ..).mpr ⟨honest, (along_and ..).mpr ⟨clean, paid⟩⟩)).1
  have carried := invariant_along (Carried True) _ Event.apply
    (fun t event h ok => CarriedX.apply h event ok.1 ok.2.1 fun _ => ok.2.2) _ pre
    (CarriedX.start lanes cfg policy) met
  exact carried.exactCounts

theorem counted_cleanResult : Counted (run Event.apply (Tracked.start lane threeTries .allAcked) cleanResult).sched :=
  counted_of_clean lane threeTries .allAcked cleanResult (by decide +kernel)
    (by simp [cleanResult, Along, PaidFirst]) cleanResult_clean cleanResult List.prefix_rfl

/-- One chunk fails, and is counted twice: two chunks were admitted, and three are accounted for. -/
theorem staleResult_miscounts :
    let s := (run Event.apply (Tracked.start lane threeTries .allAcked) staleResult).sched
    Along Honest Event.apply (Tracked.start lane threeTries .allAcked) staleResult ∧
      Along PaidFirst Event.apply (Tracked.start lane threeTries .allAcked) staleResult ∧
      s.failed = 2 ∧ s.chunks.countP (·.phase = .failed) = 1 ∧ s.acked = 1 ∧ s.total = 2 ∧
      ¬Counted s := by
  refine ⟨by decide +kernel, by simp [staleResult, Along, PaidFirst], by decide +kernel,
    by decide +kernel, by decide +kernel, by decide +kernel, fun exact_ => ?_⟩
  have more := exact_.failed
  revert more
  decide +kernel

end Hoverfly.Sched
