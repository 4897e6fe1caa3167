import Hoverfly.Drive.Moves
import Hoverfly.Sched.Acknowledged

/-! An upload that is reported complete is complete: the producer had run dry, and every
chunk it yielded was admitted and acked under its own address. -/
namespace Hoverfly.Drive
open Lib Payer Push Sched

variable {F : Type}

def AckedIn (log : List Seen) (a : Addr) : Prop := ∃ lane, .event (.ack lane a true) ∈ log

structure Calm (d e : Driver F) : Prop where
  log : e.log = d.log
  exhausted : e.exhausted = d.exhausted
  kept : d.sched.Kept e.sched
  quiet : Quiet d.sched e.sched

namespace Calm

theorem refl (d : Driver F) : Calm d d := ⟨rfl, rfl, .refl _ _, .refl _⟩

variable {d e : Driver F}

theorem trans {f : Driver F} (de : Calm d e) (ef : Calm e f) : Calm d f :=
  ⟨ef.log.trans de.log, ef.exhausted.trans de.exhausted, de.kept.trans ef.kept, de.quiet.trans ef.quiet⟩

theorem frame (log : e.log = d.log) (exhausted : e.exhausted = d.exhausted) (sched : e.sched = d.sched) : Calm d e :=
  ⟨log, exhausted, sched ▸ .refl _ _, sched ▸ .refl _⟩

theorem updLane (log : e.log = d.log) (exhausted : e.exhausted = d.exhausted)
    (lane : Nat) (f : Lane F → Lane F) (sched : e.sched = d.sched.updLane lane f) : Calm d e :=
  ⟨log, exhausted, sched ▸ Scheduler.updLane_kept _ lane f, sched ▸ .frame rfl rfl⟩

theorem handBack (w : World F) (d : Driver F) (batch : Nat) : Calm d (d.handBack w batch) :=
  ⟨rfl, rfl, Scheduler.onBatchResult_kept _ _ _ _, .onBatchResult _ _ _ _⟩

theorem bill (w : World F) (pc : PaymentConfig) (d : Driver F) (a : Assignment) (p : LanePayer) (bodyBytes : Nat) :
    Calm d (Driver.bill w pc d a p bodyBytes) := by
  unfold Driver.bill
  split
  · rename_i p _ _
    exact (frame rfl rfl rfl : Calm d (d.tick.setPayer a.lane p)).trans (handBack w _ a.batch)
  · exact frame rfl rfl rfl

variable [F64 F] {w : World F} {payment : Option PaymentConfig}

theorem of_turns (turns : d.Turns w payment e) : Calm d e := by
  refine turns.related .refl .trans fun move => ?_
  cases move with
  | next => exact ⟨rfl, rfl, Scheduler.next_kept _ _ _, .next _ _ _⟩
  | size => exact updLane rfl rfl _ _ rfl
  | fund => exact updLane rfl rfl _ _ rfl
  | handBack => exact handBack w _ _
  | settle => exact frame rfl rfl rfl
  | settleCleared => exact frame rfl rfl rfl
  | reconcile => exact frame rfl rfl rfl
  | bill => exact bill w _ _ _ _ _

omit [F64 F] in
theorem answer (d : Driver F) (batch lane : Nat) (outcome : BatchOutcome) (dedupBytes : Nat) :
    Calm d (d.answer batch lane outcome dedupBytes) := by
  unfold Driver.answer
  dsimp only
  split <;> exact frame rfl rfl rfl

theorem onDone (d : Driver F) (batch lane acked elapsedMs : Nat) (outcome : BatchOutcome) (dedupBytes : Nat) :
    Calm d (d.onDone w payment batch lane acked elapsedMs outcome dedupBytes) := by
  have timed : Calm d { d with sched := d.sched.onBatchTiming lane acked elapsedMs } :=
    updLane rfl rfl lane _ rfl
  have answered := timed.trans (answer _ batch lane outcome dedupBytes)
  have booked : Calm d (d.booked w batch lane acked elapsedMs outcome dedupBytes) :=
    answered.trans ⟨rfl, rfl, Scheduler.onBatchResult_kept _ _ _ _, .onBatchResult _ _ _ _⟩
  exact booked.trans (.of_turns (Driver.onDone_moves d batch lane acked elapsedMs outcome dedupBytes).turns)

end Calm

/-- What the driver has been told, against what its scheduler has made of it. -/
structure Sound (d : Driver F) : Prop where
  vouched : Vouched (AckedIn d.log) d.sched
  admitted : ∀ batch, .produced batch ∈ d.log → ∀ c ∈ batch, (d.sched.index.lookup c.addr).isSome
  ended : d.exhausted = true → .produced [] ∈ d.log

namespace Sound

variable {d e : Driver F}

theorem calm (h : Sound d) (calm : Calm d e) : Sound e where
  vouched := calm.log ▸ h.vouched.quiet calm.kept calm.quiet
  admitted batch told c member := by
    rw [calm.quiet.index]
    exact h.admitted batch (calm.log ▸ told) c member
  ended gone := calm.log ▸ h.ended (calm.exhausted ▸ gone)

theorem refill (w : World F) (h : Sound d) (out : d.refill w = .ok e) : Sound e := by
  unfold Driver.refill at out
  split at out
  · cases out
    exact h
  split at out
  · cases out
  rename_i batch _
  have grown : ∀ a, AckedIn d.log a → AckedIn (d.log ++ [.produced batch]) a :=
    fun a ⟨lane, told⟩ => ⟨lane, List.mem_append_left _ told⟩
  dsimp only at out
  split at out
  · rename_i dry
    cases out
    refine ⟨h.vouched.mono grown, ?_, fun _ => ?_⟩
    · intro other told c member
      rcases List.mem_append.mp told with told | told
      · exact h.admitted other told c member
      · cases List.mem_singleton.mp told
        rw [List.isEmpty_iff.mp dry] at member
        cases member
    · rw [← List.isEmpty_iff.mp dry]
      exact List.mem_append_right _ (List.mem_singleton_self _)
  · cases out
    refine ⟨(h.vouched.mono grown).admitChunks _, ?_, fun gone => ?_⟩
    · intro other told c member
      apply isSome_admitChunks
      rcases List.mem_append.mp told with told | told
      · exact .inl (h.admitted other told c member)
      · cases List.mem_singleton.mp told
        right
        simp only [List.map_map]
        exact List.mem_map.mpr ⟨c, member, rfl⟩
    · exact List.mem_append_left _ (h.ended gone)

theorem refillLoop (w : World F) (fuel : Nat) (h : Sound d) (out : d.refillLoop w fuel = some (.ok e)) : Sound e :=
  (Driver.refillLoop_induct (fun sound filled => sound.refill w filled) h out).1 e rfl

theorem onEvent [F64 F] (w : World F) (payment : Option PaymentConfig) (h : Sound d) (ev : LaneEv) :
    Sound (d.onEvent w payment ev) := by
  have told : Sound { d with log := d.log ++ [.event ev] } := by
    refine ⟨h.vouched.mono ?_, ?_, fun gone => List.mem_append_left _ (h.ended gone)⟩
    · exact fun a ⟨lane, old⟩ => ⟨lane, List.mem_append_left _ old⟩
    · intro batch member
      rcases List.mem_append.mp member with old | new
      · exact h.admitted batch old
      · cases List.mem_singleton.mp new
  unfold Driver.onEvent
  cases ev with
  | done batch lane acked elapsedMs outcome dedupBytes => exact told.calm (.onDone _ ..)
  | ack lane addr ok =>
    refine ⟨told.vouched.onAck lane addr ok ?_, ?_, told.ended⟩
    · rintro rfl
      exact ⟨lane, List.mem_append_right _ (List.mem_singleton_self _)⟩
    · intro batch member c inBatch
      dsimp only [Driver.onAck]
      rw [onAck_index]
      exact told.admitted batch member c inBatch

theorem start [F64 F] (w : World F) (store : ChequeStore) (opened : List (Opened F)) :
    Sound (start w store opened) := by
  refine ⟨?_, (fun _ told => nomatch told), (fun gone => nomatch gone)⟩
  unfold Drive.start
  dsimp only
  apply foldl_invariant fun _ => Vouched (AckedIn [])
  · exact Vouched.withPolicy _ _ _
  · intro _ lane sched _ vouched
    split
    · exact vouched.quiet (Scheduler.updLane_kept _ _ _) (.frame rfl rfl)
    · exact vouched

end Sound

def Driver.Flow.Kept : Driver.Flow F → Prop
  | .again e => Sound e
  | .leave e => Sound e ∧ (e.sched.done = true → e.exhausted = true)
  | .fail _ => True

variable {d : Driver F} (w : World F) (payment : Option PaymentConfig)

theorem await_sound [F64 F] (h : Sound d) : Sound (d.await w payment) := by
  have ticked : Sound d.tick := h.calm (.frame rfl rfl rfl)
  unfold Driver.await
  split
  · exact ticked
  · exact ticked.onEvent w payment _

theorem pass_kept [F64 F] (fuel : Nat)
    (h : Sound d) {flow : Driver.Flow F} (out : d.pass w payment fuel = some flow) : flow.Kept := by
  unfold Driver.pass at out
  split at out
  · cases out
  · cases out
    trivial
  · rename_i e refilled
    obtain ⟨sent, dispatched, rfl⟩ := Option.map_eq_some_iff.mp out
    have fed := h.refillLoop w fuel refilled
    have ready := fed.calm (.of_turns ((Driver.settleLanes_turns w payment e).trans
      (Driver.dispatchLoop_turns dispatched)))
    have spec := Driver.settleDown_spec w payment sent
    generalize sent.settleDown w payment = flow at spec
    cases spec with
    | leave beyond => exact ⟨ready, beyond⟩
    | fail => trivial
    | more => exact ready
    | sleep => exact ready.calm (.frame rfl rfl rfl)
    | event => exact await_sound w payment ready

theorem loop_sound [F64 F] (fuel : Nat) {e : Driver F} (h : Sound d) (out : d.loop w payment fuel = some (.ok e)) :
    Sound e ∧ (e.sched.done = true → e.exhausted = true) := by
  induction fuel generalizing d with
  | zero => cases out
  | succ fuel ih =>
    unfold Driver.loop at out
    split at out
    · cases out
    · cases out
    · rename_i passed
      cases out
      exact pass_kept w payment fuel h passed
    · rename_i passed
      exact ih (pass_kept w payment fuel h passed) out

theorem settleRest_frame (d : Driver F) :
    (d.settleRest w payment).log = d.log ∧ (d.settleRest w payment).exhausted = d.exhausted ∧
      (d.settleRest w payment).sched = d.sched := by
  cases payment with
  | none => exact ⟨rfl, rfl, rfl⟩
  | some pc =>
    unfold Driver.settleRest
    dsimp only
    apply foldl_invariant fun _ (e : Driver F) => e.log = d.log ∧ e.exhausted = d.exhausted ∧ e.sched = d.sched
    · apply foldl_invariant fun _ (e : Driver F) => e.log = d.log ∧ e.exhausted = d.exhausted ∧ e.sched = d.sched
      · exact ⟨rfl, rfl, rfl⟩
      · intro _ sent e _ same
        unfold Driver.strand
        split <;> exact same
    · intro _ lane e _ same
      split <;> exact same

theorem done_of_acked {s : Scheduler F} (all : s.total ≤ s.acked) : s.done = true := by
  unfold Scheduler.total at all
  simp only [Scheduler.done, decide_eq_true_eq]
  omega

/-- An upload that returns success: the producer had run dry, and each chunk it ever yielded
is in the scheduler and was acked ok under its address. -/
theorem drivePushers_sound [F64 F] (w : World F) (fuel : Nat) (lanes : List (String × LaneInfo F))
    (totalHint : Nat) (payment : Option PaymentConfig) (store : ChequeStore) (pushing : 0 < totalHint)
    (final : Option (Driver F))
    (returned : drivePushers w fuel lanes totalHint payment store = some (.ok final)) :
    ∃ d, final = some d ∧ .produced [] ∈ d.log ∧
      ∀ batch, .produced batch ∈ d.log → ∀ c ∈ batch,
        (d.sched.index.lookup c.addr).isSome ∧ ∃ lane, .event (.ack lane c.addr true) ∈ d.log := by
  unfold drivePushers at returned
  split at returned
  · cases returned
  rw [if_neg (Nat.pos_iff_ne_zero.mp pushing)] at returned
  dsimp only at returned
  split at returned
  · cases returned
  split at returned
  · cases returned
  rename_i first refilled
  split at returned
  · cases returned
  · cases returned
  rename_i last looped
  obtain ⟨books, beyond⟩ := loop_sound w payment fuel ((Sound.start w store _).refill w refilled) looped
  obtain ⟨log, exhausted, sched⟩ := settleRest_frame w payment last
  have settled := books.calm (.frame log exhausted sched)
  unfold Driver.verdict at returned
  split at returned
  · cases returned
  rename_i all
  cases returned
  have all := Nat.le_of_not_lt all
  refine ⟨_, rfl, ?_, ?_⟩
  · apply settled.ended
    rw [exhausted]
    exact beyond (done_of_acked (sched ▸ all))
  · intro batch told c member
    have known := settled.admitted batch told c member
    obtain ⟨i, found⟩ := Option.isSome_iff_exists.mp known
    exact ⟨known, settled.vouched.of_all_acked all found⟩

def oneChunk : StampedChunk :=
  { addr := Bytes.replicate 32 7, wire := List.replicate 8 0, stamp := List.replicate 113 0 }

def oneAck : World ℚ where
  produce tick := .ok (if tick = 2 then [oneChunk] else [])
  nowMs tick := tick
  iter _ := []
  recv _ := some (.ack 0 oneChunk.addr true)
  replies _ :=
    { nowUnix := fun _ => 0, challenge := fun _ => .error "", sign := fun _ => .error "",
      pay := fun _ => .error "", account := .error "" }
  proximity := none

def pushOneChunk : Option (Except String (Option (Driver ℚ))) :=
  drivePushers oneAck 8 [("a", {})] 1 none { payouts := ∅ }

def chunksPushed : Option (Except String (Option (Driver ℚ))) → Option Nat
  | some (.ok (some d)) => some d.total
  | _ => none

theorem drivePushers_sound_oneChunk : chunksPushed pushOneChunk = some 1 ∧
    ∃ d, pushOneChunk = some (.ok (some d)) ∧ .produced [] ∈ d.log ∧
      ∀ batch, .produced batch ∈ d.log → ∀ c ∈ batch,
        (d.sched.index.lookup c.addr).isSome ∧ ∃ lane, .event (.ack lane c.addr true) ∈ d.log := by
  have pushed : chunksPushed pushOneChunk = some 1 := by decide +kernel
  refine ⟨pushed, ?_⟩
  generalize returned : pushOneChunk = out at pushed ⊢
  unfold chunksPushed at pushed
  split at pushed
  · rename_i d
    obtain ⟨e, same, facts⟩ :=
      drivePushers_sound oneAck 8 [("a", {})] 1 none { payouts := ∅ } (by decide) _ returned
    cases same
    exact ⟨d, rfl, facts⟩
  · cases pushed

end Hoverfly.Drive
