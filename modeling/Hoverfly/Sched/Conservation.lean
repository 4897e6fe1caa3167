import Hoverfly.Sched.Invariant

/-! Any caller may drive the scheduler in any way: what one call keeps, a whole
run keeps, and a scheduler with work left and nothing in flight has a chunk to hand out. -/
namespace Hoverfly.Sched
open Lib

variable {F : Type}

/-- The mutating entry points, with arbitrary arguments. `next` also takes the order in
which a hash map is iterated. -/
inductive Call (F : Type) where
  | admitChunks (chunks : List (Addr × Nat))
  | admitGroup (chunks : List (Addr × Nat)) (need : UInt16)
  | next (nowMs : Nat) (iter : List Nat)
  | onAck (lane : Nat) (addr : Addr) (ok : Bool)
  | onBatchResult (batch : Nat) (outcome : BatchOutcome) (nowMs : Nat)
  | onBatchTiming (lane acked elapsedMs : Nat)
  | setLaneInfo (lane : Nat) (info : LaneInfo F)
  | setLaneBatchMax (lane max : Nat)
  | fundLane (lane : Nat)
  | retireLane (lane : Nat)

def Call.apply [F64 F] (s : Scheduler F) : Call F → Scheduler F
  | .admitChunks chunks => (s.admitChunks chunks).1
  | .admitGroup chunks need => (s.admitGroup chunks need).1
  | .next nowMs iter => (s.next nowMs iter).1
  | .onAck lane addr ok => s.onAck lane addr ok
  | .onBatchResult batch outcome nowMs => s.onBatchResult batch outcome nowMs
  | .onBatchTiming lane acked elapsedMs => s.onBatchTiming lane acked elapsedMs
  | .setLaneInfo lane info => s.setLaneInfo lane info
  | .setLaneBatchMax lane max => s.setLaneBatchMax lane max
  | .fundLane lane => s.fundLane lane
  | .retireLane lane => s.retireLane lane

theorem Call.apply_kept [F64 F] (s : Scheduler F) (call : Call F) : s.Kept (call.apply s) := by
  cases call with
  | admitChunks chunks => exact s.admitChunks_kept chunks
  | admitGroup chunks need => exact s.admitGroup_kept chunks need
  | next nowMs iter => exact s.next_kept nowMs iter
  | onAck lane addr ok => exact s.onAck_kept lane addr ok
  | onBatchResult batch outcome nowMs => exact s.onBatchResult_kept batch outcome nowMs
  | onBatchTiming lane acked elapsedMs => exact s.updLane_kept lane _
  | setLaneInfo lane info => exact s.updLane_kept lane _
  | setLaneBatchMax lane max => exact s.updLane_kept lane _
  | fundLane lane => exact s.updLane_kept lane _
  | retireLane lane => exact s.updLane_kept lane _

theorem inv_withPolicy [F64 F] (lanes : List (LaneInfo F)) (cfg : Config F) (policy : CompletionPolicy) :
    Inv (Scheduler.withPolicy lanes cfg policy) := by
  constructor <;> simp [Scheduler.withPolicy]

theorem inv_run [F64 F] (lanes : List (LaneInfo F)) (cfg : Config F) (policy : CompletionPolicy)
    (calls : List (Call F)) : Inv (run Call.apply (Scheduler.withPolicy lanes cfg policy) calls) := by
  apply run_invariant Inv
  · exact fun s call inv => (call.apply_kept s inv).1
  · exact inv_withPolicy lanes cfg policy

theorem settled_run [F64 F] (s : Scheduler F) (inv : Inv s) (calls : List (Call F)) :
    Settled s (run Call.apply s calls) := by
  apply run_related Settled Inv Call.apply Settled.refl fun s t u => Settled.trans
  · exact fun s call inv => (call.apply_kept s inv).1
  · exact fun s call inv => (call.apply_kept s inv).2
  · exact inv

namespace Scheduler

variable {s : Scheduler F}

theorem exists_open (inv : Inv s) (left : s.done = false) :
    ∃ (i : Nat) (c : ChunkState), s.chunks[i]? = some c ∧
      (c.phase = .pending ∨ c.phase = .inFlight) := by
  by_contra none_
  have terminal : ∀ c ∈ s.chunks, c.phase = .done ∨ c.phase = .skipped ∨ c.phase = .failed := by
    intro c member
    obtain ⟨i, found⟩ := List.mem_iff_getElem?.mp member
    have shut := fun h => none_ ⟨i, c, found, h⟩
    cases phase : c.phase with
    | pending => exact absurd (.inl phase) shut
    | inFlight => exact absurd (.inr phase) shut
    | done => exact .inl rfl
    | skipped => exact .inr (.inl rfl)
    | failed => exact .inr (.inr rfl)
  have all : s.chunks.countP (fun c => decide (c.phase = .done) ||
      (decide (c.phase = .skipped) || decide (c.phase = .failed))) = s.chunks.length := by
    rw [List.countP_eq_length]
    intro c member
    simpa using terminal c member
  rw [countP_or, countP_or] at all
  · have acked := inv.ackedCount
    have skipped := inv.skippedCount
    have failed := inv.failedCount
    simp only [done, decide_eq_false_iff_not] at left
    omega
  · intro c _ p
    simp [of_decide_eq_true p]
  · intro c _ p
    simp [of_decide_eq_true p]

theorem outstanding_empty (none_ : s.inFlight = 0) (b : Nat) :
    s.outstanding.lookup b = none := by
  have keys : s.outstanding.keys = [] := List.length_eq_zero_iff.mp none_
  apply AList.lookup_eq_none.mpr
  intro member
  rw [AList.mem_keys, keys] at member
  exact List.not_mem_nil member

theorem exists_pending (inv : Inv s) (left : s.done = false)
    (none_ : s.inFlight = 0) : ∃ i ∈ s.pending, s.isPending i = true := by
  obtain ⟨i, c, found, p | p⟩ := exists_open inv left
  · exact ⟨i, inv.queued i c found p, isPending_iff.mpr ⟨c, found, p⟩⟩
  · obtain ⟨l, hl⟩ := List.exists_mem_of_ne_nil _ (inv.flying i c found p)
    rcases inv.traced i c l found hl with no | ⟨b, cs, at_b, _⟩
    · exact no.elim
    · rw [outstanding_empty none_ b] at at_b
      cases at_b

theorem stalled_exhausted {nowMs : Nat} (h : s.stalled nowMs = some .chunksExhausted) :
    s.done = false ∧ s.inFlight = 0 ∧ s.pending = [] := by
  unfold stalled at h
  split at h
  · cases h
  rename_i open_
  simp only [Bool.or_eq_true, decide_eq_true_eq, not_or, Bool.not_eq_true, not_not] at open_
  split at h
  · split at h
    · cases h
    split at h <;> cases h
  split at h
  · rename_i empty
    exact ⟨open_.1, open_.2, List.isEmpty_iff.mp empty⟩
  · cases h

end Scheduler

/-- What the scheduler accounts for at any moment. -/
structure Conserved (s : Scheduler F) : Prop where
  pending : ∀ (i : Nat) (c : ChunkState), s.chunks[i]? = some c → c.phase = .pending →
    i ∈ s.pending ∧ c.on = []
  inFlight : ∀ (i : Nat) (c : ChunkState), s.chunks[i]? = some c → c.phase = .inFlight →
    c.on ≠ [] ∧ ∀ l ∈ c.on, ∃ b cs, s.outstanding.lookup b = some (l, cs) ∧ i ∈ cs
  acked : s.acked = s.chunks.countP (·.phase = .done)
  skipped : s.skipped = s.chunks.countP (·.phase = .skipped)
  failed : s.chunks.countP (·.phase = .failed) ≤ s.failed
  waiting : s.done = false → s.inFlight = 0 → ∃ i ∈ s.pending, s.isPending i = true
  stalled : ∀ nowMs, s.stalled nowMs ≠ some .chunksExhausted

theorem Inv.conserved {s : Scheduler F} (inv : Inv s) : Conserved s where
  pending i c found p := ⟨inv.queued i c found p, inv.idle i c found (by rw [p]; decide)⟩
  inFlight i c found p :=
    ⟨inv.flying i c found p, fun l hl => (inv.traced i c l found hl).resolve_left id⟩
  acked := inv.ackedCount
  skipped := inv.skippedCount
  failed := inv.failedCount
  waiting := Scheduler.exists_pending inv
  stalled nowMs h := by
    obtain ⟨left, none_, empty⟩ := Scheduler.stalled_exhausted h
    obtain ⟨i, hi, _⟩ := Scheduler.exists_pending inv left none_
    rw [empty] at hi
    cases hi

/-- Conservation under arbitrary callers: after any calls everything is accounted for, and
whatever calls follow, a chunk that is done or skipped keeps its phase. -/
theorem scheduler_conserves [F64 F] (lanes : List (LaneInfo F)) (cfg : Config F)
    (policy : CompletionPolicy) (calls : List (Call F)) :
    Conserved (run Call.apply (Scheduler.withPolicy lanes cfg policy) calls) ∧
      ∀ more, Settled (run Call.apply (Scheduler.withPolicy lanes cfg policy) calls)
        (run Call.apply (Scheduler.withPolicy lanes cfg policy) (calls ++ more)) := by
  have inv := inv_run lanes cfg policy calls
  refine ⟨inv.conserved, fun more => ?_⟩
  rw [run_append]
  exact settled_run _ inv more

end Hoverfly.Sched
