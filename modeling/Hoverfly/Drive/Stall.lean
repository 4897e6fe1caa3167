import Hoverfly.Drive.Paying
import Hoverfly.Drive.Soundness
import Hoverfly.Sched.Funding

/-! When the driver gives up with every lane down, and whether a lane is then held back although its line has room.
-/
namespace Hoverfly.Drive
open Lib Payer Push Sched

variable {F : Type}

namespace Driver

def fits (d : Driver F) (lane : Nat) : Bool := (d.payer lane).any LanePayer.hasHeadroom

def stranded (d : Driver F) (lane : Nat) : Bool := d.sched.paused lane && d.fits lane

def Clear (d : Driver F) : Prop := ∀ lane, d.stranded lane = false

structure Spares (on : Nat → Prop) (d e : Driver F) : Prop where
  payer : ∀ lane, on lane → e.payer lane = d.payer lane
  eased : d.sched.Eased on e.sched

namespace Spares

variable {on : Nat → Prop} {d e f : Driver F}

theorem refl (d : Driver F) : Spares on d d := ⟨fun _ _ => rfl, .refl _⟩

theorem trans (de : Spares on d e) (ef : Spares on e f) : Spares on d f where
  payer lane selected := (ef.payer lane selected).trans (de.payer lane selected)
  eased := de.eased.trans ef.eased

theorem sched (payers : e.payers = d.payers) (eased : d.sched.Eased on e.sched) : Spares on d e where
  payer lane _ := by rw [Driver.payer, payers, Driver.payer]
  eased := eased

theorem set {lane : Nat} {p : Option LanePayer} (payers : e.payers = d.payers.set lane p) (sched : e.sched = d.sched) :
    Spares (· ≠ lane) d e where
  payer other ne := by rw [Driver.payer, Driver.payer, payers, List.getElem?_set_ne (Ne.symm ne)]
  eased := sched ▸ .refl _

end Spares

variable {on : Nat → Prop} {d e : Driver F} {lane fuel batch : Nat} {error : String} {a : Assignment}

theorem Clear.spares (clear : Clear d) (spares : Spares on d e)
    (rest : ∀ lane, ¬on lane → e.stranded lane = false) : Clear e := by
  intro lane
  by_cases selected : on lane
  · have was := clear lane
    simp only [stranded, fits, Bool.and_eq_false_iff] at was ⊢
    rw [spares.payer lane selected]
    refine was.imp_left fun free => ?_
    cases paused : e.sched.paused lane with
    | false => rfl
    | true => exact (spares.eased lane selected paused).symm.trans free
  · exact rest lane selected

theorem Clear.all (clear : Clear d) (spares : Spares (fun _ => True) d e) : Clear e :=
  clear.spares spares fun _ none_ => absurd trivial none_

theorem Clear.but (clear : Clear d) (spares : Spares (· ≠ lane) d e) (here : e.stranded lane = false) : Clear e :=
  clear.spares spares fun _ same => (not_not.mp same).symm ▸ here

theorem not_stranded (free : d.sched.paused lane = false) : d.stranded lane = false := by
  rw [stranded, free, Bool.false_and]

variable (w : World F) (pc : PaymentConfig)

theorem refill_error (out : d.refill w = .error error) :
    w.produce d.ticks = .error error := by
  unfold refill at out
  split at out
  · cases out
  · split at out
    · rename_i produced
      cases out
      exact produced
    · dsimp only at out
      split at out <;> cases out

theorem refillLoop_error
    (out : d.refillLoop w fuel = some (.error error)) : ∃ tick, w.produce tick = .error error := by
  obtain ⟨e, failed⟩ := (refillLoop_induct (fun _ _ => trivial) trivial out).2 error rfl
  exact ⟨e.ticks, refill_error w failed⟩

theorem answer_spares (d : Driver F) (batch lane : Nat) (outcome : BatchOutcome) (dedupBytes : Nat) :
    Spares (· ≠ lane) d (d.answer batch lane outcome dedupBytes) := by
  unfold answer
  dsimp only
  split
  · exact .set rfl rfl
  · exact .sched rfl (.refl _)

def reconcileFunds (d : Driver F) (lane : Nat) (p : LanePayer) : Bool :=
  let (p, moved) := p.reconcile pc (w.replies d.ticks)
  match moved with
  | .error _ => false
  | .ok false => p.account.pending > 0
  | .ok true =>
    let (d, paid) := settle w pc (d.tick.setPayer lane p) lane p
    match paid with
    | .ok (some _) => true
    | .ok none => (d.payer lane).any fun p => p.account.pending > 0
    | .error _ => false

def funds (d : Driver F) (lane : Nat) (p : LanePayer) (needsPayment : Bool) : Bool :=
  let (d, paid) := settle w pc d lane (if needsPayment then p.clearHeader else p)
  match paid with
  | .ok (some _) => true
  | .ok none => needsPayment && (d.payer lane).any (reconcileFunds w pc d lane)
  | .error _ => false

variable [F64 F]

theorem refill_spares (out : d.refill w = .ok e) : Spares on d e := by
  unfold refill at out
  split at out
  · cases out
    exact .refl d
  · split at out
    · cases out
    · dsimp only at out
      split at out
      · cases out
        exact .sched rfl (.refl _)
      · cases out
        exact .sched rfl (Call.eased _ (.admitChunks _) fun _ _ => id)

theorem refillLoop_spares (out : d.refillLoop w fuel = some (.ok e)) : Spares on d e :=
  (refillLoop_induct (fun spares filled => spares.trans (refill_spares w filled)) (.refl d) out).1 e rfl

theorem handBack_spares (carried : d.Carries lane batch) : Spares (· ≠ lane) d (d.handBack w batch) :=
  .sched rfl (Scheduler.onBatchResult_eased .paymentRequired _ carried)

theorem bill_spares (carried : d.Carries a.lane a.batch) (p : LanePayer) (bodyBytes : Nat) :
    Spares (· ≠ a.lane) d (bill w pc d a p bodyBytes) := by
  unfold bill
  generalize p.useHeader pc (w.replies d.ticks) 0 = used
  obtain ⟨q, answer⟩ := used
  have asked : Spares (· ≠ a.lane) d (d.tick.setPayer a.lane q) := .set rfl rfl
  cases answer with
  | error error => exact asked.trans (handBack_spares w carried)
  | ok _ => exact .set rfl rfl

theorem Spares.of_moves {w : World F} {payment : Option PaymentConfig} (moves : d.Moves w payment lane e) :
    Spares (· ≠ lane) d e := by
  induction moves with
  | refl => exact .refl d
  | tail _ move ih =>
    refine ih.trans ?_
    cases move with
    | next => exact .sched rfl (Call.eased _ (.next _ _) fun _ _ => id)
    | size => exact .sched rfl (Call.eased _ (.setLaneBatchMax lane _) fun _ _ => id)
    | fund => exact .sched rfl (Call.eased _ (.fundLane lane) fun _ _ => id)
    | handBack carried => exact handBack_spares w carried
    | settle => exact .set rfl rfl
    | settleCleared => exact .set rfl rfl
    | reconcile => exact .set rfl rfl
    | bill _ _ carried => exact bill_spares w _ carried _ _

theorem reconcileAndPay_funds {p : LanePayer}
    (funded : reconcileFunds w pc d lane p = true) : (reconcileAndPay w pc d lane p).sched.paused lane = false := by
  unfold reconcileFunds at funded
  unfold reconcileAndPay
  generalize p.reconcile pc (w.replies d.ticks) = reconciled at funded ⊢
  obtain ⟨q, moved⟩ := reconciled
  dsimp only at funded ⊢
  match moved with
  | .error _ => cases funded
  | .ok false =>
    rw [unpayable402, if_pos (by simpa using funded)]
    exact Scheduler.fundLane_paused _ lane
  | .ok true =>
    dsimp only at funded ⊢
    generalize settle w pc _ lane q = out at funded ⊢
    obtain ⟨e, paid⟩ := out
    match paid with
    | .ok (some _) => exact Scheduler.fundLane_paused _ lane
    | .ok none =>
      dsimp only at funded ⊢
      cases found : e.payer lane with
      | none => simp [found] at funded
      | some q =>
        simp only [Option.map_some, Option.getD_some]
        rw [unpayable402, if_pos (by simpa [found] using funded)]
        exact Scheduler.fundLane_paused _ lane
    | .error _ => cases funded

theorem payAfter_funds {p : LanePayer} {needsPayment : Bool} (funded : funds w pc d lane p needsPayment = true) :
    (payAfter w pc d lane p needsPayment).sched.paused lane = false := by
  unfold funds at funded
  unfold payAfter
  generalize settle w pc d lane _ = out at funded ⊢
  obtain ⟨e, paid⟩ := out
  match paid with
  | .ok (some _) => exact Scheduler.fundLane_paused _ lane
  | .ok none =>
    dsimp only at funded ⊢
    obtain ⟨refused, funded⟩ := Bool.and_eq_true_iff.mp funded
    rw [if_pos refused]
    cases found : e.payer lane with
    | none => simp [found] at funded
    | some q =>
      rw [Option.map_some, Option.getD_some]
      exact reconcileAndPay_funds w pc (by simpa [found] using funded)
  | .error _ => cases funded

def doneClear (d : Driver F) (batch lane acked elapsedMs : Nat) (outcome : BatchOutcome) (dedupBytes : Nat) : Bool :=
  let e := d.booked w batch lane acked elapsedMs outcome dedupBytes
  let needsPayment : Bool := outcome = .paymentRequired
  (d.sched.outstanding.lookup batch).all (·.1 = lane) &&
    ((e.payer lane).any (fun p => (needsPayment || p.account.shouldSettle) && funds w pc e lane p needsPayment) ||
      !(d.onDone w (some pc) batch lane acked elapsedMs outcome dedupBytes).stranded lane)

theorem booked_spares (acked elapsedMs : Nat) (outcome : BatchOutcome)
    (dedupBytes : Nat) (carried : d.Carries lane batch) :
    Spares (· ≠ lane) d (d.booked w batch lane acked elapsedMs outcome dedupBytes) := by
  unfold booked
  have timed : Spares (· ≠ lane) d { d with sched := d.sched.onBatchTiming lane acked elapsedMs } :=
    .sched rfl (Call.eased _ (.onBatchTiming lane acked elapsedMs) fun _ _ => id)
  have answered := timed.trans (answer_spares _ batch lane outcome dedupBytes)
  refine answered.trans (.sched rfl (Scheduler.onBatchResult_eased outcome _ fun entry found => carried entry ?_))
  rw [← found]
  unfold answer
  dsimp only
  split <;> rfl

theorem onDone_eq (d : Driver F) (batch lane acked elapsedMs : Nat) (outcome : BatchOutcome) (dedupBytes : Nat) :
    d.onDone w (some pc) batch lane acked elapsedMs outcome dedupBytes =
      let e := d.booked w batch lane acked elapsedMs outcome dedupBytes
      let needsPayment : Bool := outcome = .paymentRequired
      (e.payer lane).elim e fun p =>
        if needsPayment ∨ p.account.shouldSettle then payAfter w pc e lane p needsPayment else e := by
  dsimp only
  cases found : (d.booked w batch lane acked elapsedMs outcome dedupBytes).payer lane <;>
    simp only [onDone, booked] at found ⊢ <;> simp only [found, Option.elim_none, Option.elim_some]

theorem onDone_clear {acked elapsedMs : Nat} {outcome : BatchOutcome} {dedupBytes : Nat}
    (clear : Clear d) (met : d.doneClear w pc batch lane acked elapsedMs outcome dedupBytes = true) :
    Clear (d.onDone w (some pc) batch lane acked elapsedMs outcome dedupBytes) := by
  obtain ⟨carried, paid⟩ := Bool.and_eq_true_iff.mp met
  have own : d.Carries lane batch := by
    intro entry found
    simpa [found] using carried
  have books := booked_spares w acked elapsedMs outcome dedupBytes own
  rw [onDone_eq] at paid ⊢
  generalize d.booked w batch lane acked elapsedMs outcome dedupBytes = e at books paid ⊢
  dsimp only at paid ⊢
  cases found : e.payer lane with
  | none =>
    refine clear.but books ?_
    simpa [found] using paid
  | some p =>
    simp only [found, Option.elim_some, Option.any_some] at paid ⊢
    split
    · refine clear.but (books.trans (.of_moves (payAfter_moves found _))) ?_
      rename_i due
      rw [if_pos due] at paid
      rcases Bool.or_eq_true_iff.mp paid with funded | left
      · exact not_stranded (payAfter_funds w pc (Bool.and_eq_true_iff.mp funded).2)
      · simpa using left
    · refine clear.but books ?_
      rename_i quiet
      have off : (decide (outcome = .paymentRequired) || p.account.shouldSettle) = false := by simpa using quiet
      rw [if_neg quiet, off] at paid
      simpa using paid

def settlesClear (d : Driver F) (lane : Nat) : Bool := !(settleLane w pc d lane).stranded lane

def sendsClear (d : Driver F) (a : Assignment) : Bool := !(d.dispatchOne w (some pc) a).1.stranded a.lane

def dispatchClear : Nat → Driver F → Bool
  | 0, _ => true
  | fuel + 1, d =>
    match takeWork w (some pc) d with
    | (_, none) => true
    | (d, some a) =>
      sendsClear w pc d a &&
        match dispatchOne w (some pc) d a with
        | (d, true) => dispatchClear fuel d
        | (_, false) => true

def awaitClear (d : Driver F) : Bool :=
  (d.sched.done ∧ d.exhausted) || d.sched.inFlight = 0 ||
    match w.recv d.ticks with
    | some (.done batch lane acked elapsedMs outcome dedupBytes) =>
      doneClear w pc { d.tick with log := d.log ++ [.event (.done batch lane acked elapsedMs outcome dedupBytes)] }
        batch lane acked elapsedMs outcome dedupBytes
    | _ => true

def handed (fuel : Nat) (d : Driver F) : Option (Driver F) :=
  match refillLoop w fuel d with
  | some (.ok d) => dispatchLoop w (some pc) fuel (settleLanes w (some pc) d)
  | _ => none

/-- No settlement, no batch handed back and no answer in this pass leaves its lane stranded. -/
def passClear (fuel : Nat) (d : Driver F) : Bool :=
  match refillLoop w fuel d with
  | some (.ok d) =>
    decide (Along (fun d lane => settlesClear w pc d lane = true) (settleLane w pc) d (List.range d.payers.length)) &&
      dispatchClear w pc fuel (settleLanes w (some pc) d) &&
      (dispatchLoop w (some pc) fuel (settleLanes w (some pc) d)).all (awaitClear w pc)
  | _ => true

def loopClear : Nat → Driver F → Bool
  | 0, _ => true
  | fuel + 1, d =>
    passClear w pc fuel d &&
      match pass w (some pc) fuel d with
      | some (.again d) => loopClear fuel d
      | _ => true

def stallsAt : Nat → Driver F → Option (Driver F × StallReason)
  | 0, _ => none
  | fuel + 1, d =>
    match handed w pc fuel d with
    | none => none
    | some e =>
      match settleDown w (some pc) e with
      | .again d => stallsAt fuel d
      | .leave _ => none
      | .fail _ => (e.sched.stalled (w.nowMs e.ticks)).map (e, ·)

theorem settleLanes_clear (clear : Clear d) (lanes : List Nat)
    (met : Along (fun d lane => settlesClear w pc d lane = true) (settleLane w pc) d lanes) :
    Clear (lanes.foldl (settleLane w pc) d) := by
  induction lanes generalizing d with
  | nil => exact clear
  | cons lane rest ih =>
    obtain ⟨here, met⟩ := met
    exact ih (clear.but (.of_moves (settleLane_moves w pc d lane)) (by simpa [settlesClear] using here)) met

theorem takeWork_spares (d : Driver F) : Spares on d (d.takeWork w (some pc)).1 := by
  have sized : Spares on d ((List.range d.payers.length).foldl sizeLane d) := by
    refine foldl_related .refl .trans (fun e lane => ?_) _ d
    unfold sizeLane
    split
    · exact .refl e
    · split
      · exact .sched rfl (Call.eased _ (.setLaneBatchMax lane _) fun _ _ => id)
      · exact .refl e
  unfold takeWork
  simp only [Option.isSome_some, if_true]
  split
  · exact sized.trans (.sched rfl (Call.eased _ (.next _ _) fun _ _ => id))
  · exact sized

theorem dispatchLoop_clear (clear : Clear d) (met : dispatchClear w pc fuel d = true)
    (out : dispatchLoop w (some pc) fuel d = some e) : Clear e := by
  induction fuel generalizing d with
  | zero => cases out
  | succ fuel ih =>
    have taken := clear.all (takeWork_spares w pc d)
    unfold dispatchLoop at out
    unfold dispatchClear at met
    cases work : d.takeWork w (some pc) with
    | mk d' assigned =>
    rw [work] at out met taken
    cases assigned with
    | none =>
      cases out
      exact taken
    | some a =>
      dsimp only at out met
      obtain ⟨sends, met⟩ := Bool.and_eq_true_iff.mp met
      have sent : Clear (d'.dispatchOne w (some pc) a).1 :=
        taken.but (.of_moves (dispatchOne_moves (takeWork_carries work))) (by simpa [sendsClear] using sends)
      cases more : d'.dispatchOne w (some pc) a with
      | mk d'' again =>
      rw [more] at out met sent
      cases again with
      | true => exact ih sent met out
      | false =>
        cases out
        exact sent

theorem await_clear (clear : Clear d) (met : awaitClear w pc d = true)
    (open_ : ¬(d.sched.done ∧ d.exhausted)) (waiting : d.sched.inFlight ≠ 0) : Clear (d.await w (some pc)) := by
  unfold await
  unfold awaitClear at met
  simp only [open_, waiting, decide_false, Bool.false_or] at met
  cases event : w.recv d.ticks with
  | none => exact clear.all (.sched rfl (.refl _))
  | some ev =>
    rw [event] at met
    cases ev with
    | ack lane addr ok => exact clear.all (.sched rfl (Call.eased _ (.onAck lane addr ok) fun _ _ => id))
    | done batch lane acked elapsedMs outcome dedupBytes =>
      exact onDone_clear w pc (clear.all (.sched rfl (.refl _))) met

theorem settleDown_clear (clear : Clear d) (met : awaitClear w pc d = true)
    (out : d.settleDown w (some pc) = .again e) : Clear e := by
  have spec := settleDown_spec w (some pc) d
  rw [out] at spec
  cases spec with
  | more => exact clear
  | sleep => exact clear.all (.sched rfl (.refl _))
  | event unfinished waiting => exact await_clear w pc clear met unfinished waiting

theorem handed_clear (clear : Clear d) (met : passClear w pc fuel d = true)
    (out : d.handed w pc fuel = some e) : Clear e ∧ awaitClear w pc e = true := by
  unfold handed at out
  unfold passClear at met
  cases filled : d.refillLoop w fuel with
  | none =>
    rw [filled] at out
    cases out
  | some filledTo =>
    rw [filled] at out met
    cases filledTo with
    | error error => cases out
    | ok d' =>
      dsimp only at out met
      rw [out] at met
      simp only [Bool.and_eq_true, decide_eq_true_eq, Option.all_some] at met
      obtain ⟨⟨settles, sends⟩, awaits⟩ := met
      have settled := settleLanes_clear w pc (clear.all (refillLoop_spares w filled)) _ settles
      exact ⟨dispatchLoop_clear w pc settled sends out, awaits⟩

theorem pass_eq (out : d.handed w pc fuel = some e) :
    d.pass w (some pc) fuel = some (e.settleDown w (some pc)) := by
  unfold handed at out
  unfold pass
  cases filled : d.refillLoop w fuel with
  | none =>
    rw [filled] at out
    cases out
  | some filledTo =>
    rw [filled] at out
    cases filledTo with
    | error error => cases out
    | ok d' =>
      dsimp only at out ⊢
      rw [out, Option.map_some]

theorem stallsAt_clear {reason : StallReason} (clear : Clear d)
    (met : loopClear w pc fuel d = true) (stall : d.stallsAt w pc fuel = some (e, reason)) : Clear e := by
  induction fuel generalizing d with
  | zero => cases stall
  | succ fuel ih =>
    unfold stallsAt at stall
    unfold loopClear at met
    obtain ⟨passes, met⟩ := Bool.and_eq_true_iff.mp met
    cases out : d.handed w pc fuel with
    | none =>
      rw [out] at stall
      cases stall
    | some handedOut =>
      obtain ⟨kept, awaits⟩ := handed_clear w pc clear passes out
      rw [out] at stall
      rw [pass_eq w pc out] at met
      dsimp only at stall met
      cases flow : handedOut.settleDown w (some pc) with
      | again d' =>
        rw [flow] at stall met
        exact ih (settleDown_clear w pc kept awaits flow) met stall
      | leave d' =>
        rw [flow] at stall
        cases stall
      | fail error =>
        rw [flow] at stall
        obtain ⟨_, _, same⟩ := Option.map_eq_some_iff.mp stall
        cases same
        exact kept

theorem settleDown_fail (out : d.settleDown w (some pc) = .fail error) :
    ∃ reason, d.sched.stalled (w.nowMs d.ticks) = some reason ∧ error = d.stallMessage reason := by
  have spec := settleDown_spec w (some pc) d
  rw [out] at spec
  cases spec with
  | fail stalled => exact ⟨_, stalled, rfl⟩

theorem loop_of_stallsAt {reason : StallReason} (stall : d.stallsAt w pc fuel = some (e, reason)) :
    d.loop w (some pc) fuel = some (.error (e.stallMessage reason)) := by
  induction fuel generalizing d with
  | zero => cases stall
  | succ fuel ih =>
    unfold stallsAt at stall
    unfold loop
    cases out : d.handed w pc fuel with
    | none =>
      rw [out] at stall
      cases stall
    | some handedOut =>
      rw [out] at stall
      rw [pass_eq w pc out]
      dsimp only at stall ⊢
      cases flow : handedOut.settleDown w (some pc) with
      | again d' =>
        rw [flow] at stall
        exact ih stall
      | leave d' =>
        rw [flow] at stall
        cases stall
      | fail error =>
        rw [flow] at stall
        obtain ⟨reason, stalled, rfl⟩ := settleDown_fail w pc flow
        rw [stalled] at stall
        cases stall
        rfl

theorem loop_error (out : d.loop w (some pc) fuel = some (.error error)) :
    (∃ tick, w.produce tick = .error error) ∨
      ∃ e reason, d.stallsAt w pc fuel = some (e, reason) ∧ error = e.stallMessage reason := by
  induction fuel generalizing d with
  | zero => cases out
  | succ fuel ih =>
    unfold loop at out
    unfold stallsAt
    cases handedOut : d.handed w pc fuel with
    | none =>
      refine .inl ?_
      unfold handed at handedOut
      unfold pass at out
      cases filled : d.refillLoop w fuel with
      | none =>
        rw [filled] at out
        cases out
      | some filledTo =>
        rw [filled] at out handedOut
        cases filledTo with
        | error e =>
          cases out
          exact refillLoop_error w filled
        | ok d' =>
          dsimp only at out handedOut
          rw [handedOut] at out
          cases out
    | some e =>
      rw [pass_eq w pc handedOut] at out
      dsimp only at out ⊢
      cases flow : e.settleDown w (some pc) with
      | again d' =>
        rw [flow] at out
        exact ih out
      | leave d' =>
        rw [flow] at out
        cases out
      | fail error =>
        rw [flow] at out
        cases out
        obtain ⟨reason, stalled, rfl⟩ := settleDown_fail w pc flow
        exact .inr ⟨e, reason, by rw [stalled]; rfl, rfl⟩

end Driver

def begun [F64 F] (w : World F) (lanes : List (String × LaneInfo F)) (totalHint : Nat) (pc : PaymentConfig)
    (store : ChequeStore) : Option (Driver F) :=
  let opened := lanes.mapIdx fun lane l => openLane w (some pc) store lane l.1 l.2
  if lanes.isEmpty ∨ totalHint = 0 ∨ opened.all unusable then none
  else ((start w store opened).refill w).toOption

def stallOf [F64 F] (w : World F) (fuel : Nat) (lanes : List (String × LaneInfo F)) (totalHint : Nat)
    (pc : PaymentConfig) (store : ChequeStore) : Option (Driver F × StallReason) :=
  (begun w lanes totalHint pc store).bind (Driver.stallsAt w pc fuel)

/-- In every pass of the run, no settlement before the work is handed out, no batch handed back and no
answer to a POST leaves its lane paused with room on its line. -/
def runClear [F64 F] (w : World F) (fuel : Nat) (lanes : List (String × LaneInfo F)) (totalHint : Nat)
    (pc : PaymentConfig) (store : ChequeStore) : Bool :=
  (begun w lanes totalHint pc store).all (Driver.loopClear w pc fuel)

section Runs

variable [F64 F] (w : World F) (fuel : Nat) (lanes : List (String × LaneInfo F)) (totalHint : Nat)
  (pc : PaymentConfig) (store : ChequeStore)

theorem start_clear (opened : List (Opened F)) : (start w store opened).Clear := by
  intro lane
  apply Driver.not_stranded
  have retired : ∀ on, Scheduler.Eased on (Scheduler.new (opened.map (·.info)) _) (start w store opened).sched :=
    fun on => foldl_related .refl .trans (fun s lane => by
      split
      · exact Call.eased s (.retireLane lane) fun _ _ => id
      · exact .refl s) (List.range opened.length) _
  cases paused : (start w store opened).sched.paused lane with
  | false => rfl
  | true => exact (retired (fun _ => True) lane trivial paused).symm.trans (Scheduler.new_paused _ _ lane)

variable {d : Driver F}

theorem begun_clear (out : begun w lanes totalHint pc store = some d) : d.Clear := by
  unfold begun at out
  dsimp only at out
  split at out
  · cases out
  · cases filled : (start w store (lanes.mapIdx fun lane l => openLane w (some pc) store lane l.1 l.2)).refill w with
    | error error =>
      rw [filled] at out
      cases out
    | ok d' =>
      rw [filled] at out
      cases out
      exact (start_clear w store _).all (Driver.refill_spares w filled)

theorem drivePushers_eq (out : begun w lanes totalHint pc store = some d) :
    drivePushers w fuel lanes totalHint (some pc) store =
      match d.loop w (some pc) fuel with
      | none => none
      | some (.error e) => some (.error e)
      | some (.ok d) => some (((d.settleRest w (some pc)).verdict lanes.length).map some) := by
  unfold begun at out
  dsimp only at out
  split at out
  · cases out
  · rename_i none_
    simp only [not_or] at none_
    unfold drivePushers
    rw [if_neg none_.1, if_neg none_.2.1]
    dsimp only
    rw [if_neg none_.2.2]
    cases filled : (start w store (lanes.mapIdx fun lane l => openLane w (some pc) store lane l.1 l.2)).refill w with
    | error error =>
      rw [filled] at out
      cases out
    | ok d' =>
      rw [filled] at out
      cases out
      rfl

theorem drivePushers_error {error : String} (begins : begun w lanes totalHint pc store = some d)
    (returned : drivePushers w fuel lanes totalHint (some pc) store = some (.error error)) :
    (∃ tick, w.produce tick = .error error) ∨
      (∃ e reason, stallOf w fuel lanes totalHint pc store = some (e, reason) ∧ error = e.stallMessage reason) ∨
      ∃ last : Driver F, last.verdict lanes.length = .error error := by
  rw [drivePushers_eq w fuel lanes totalHint pc store begins] at returned
  unfold stallOf
  rw [begins, Option.bind_some]
  cases looped : d.loop w (some pc) fuel with
  | none =>
    rw [looped] at returned
    cases returned
  | some ended =>
    rw [looped] at returned
    cases ended with
    | error e =>
      cases returned
      exact (Driver.loop_error w pc looped).imp_right .inl
    | ok last =>
      refine .inr (.inr ⟨last.settleRest w (some pc), ?_⟩)
      cases verdict : (last.settleRest w (some pc)).verdict lanes.length with
      | error e => simpa [verdict, Except.map] using returned
      | ok d' => simp [verdict, Except.map] at returned

theorem drivePushers_of_stallOf {e : Driver F} {reason : StallReason}
    (stall : stallOf w fuel lanes totalHint pc store = some (e, reason)) :
    drivePushers w fuel lanes totalHint (some pc) store = some (.error (e.stallMessage reason)) := by
  obtain ⟨d, begins, stall⟩ := Option.bind_eq_some_iff.mp stall
  rw [drivePushers_eq w fuel lanes totalHint pc store begins, Driver.loop_of_stallsAt w pc stall]

end Runs

def refusing (owed : Nat) : World ℚ where
  produce tick := .ok (if tick = 2 then [oneChunk] else [])
  nowMs tick := tick
  iter _ := []
  recv _ := some (.done 1 0 0 5 .paymentRequired 0)
  replies tick :=
    { nowUnix := fun _ => 0, challenge := fun _ => .ok { capPlur := 100, expiryUnix := 100, sign := .ok () },
      sign := fun _ => .ok (), pay := fun _ => .error "unreachable", account := .ok (if tick < 2 then 0 else owed) }
  proximity := none

def meteredLane : List (String × LaneInfo ℚ) := [("relay", { quote := some Tally.hundred })]

def firstLane (stall : Driver ℚ × StallReason) : StallReason × Bool × Option (Bool × Nat) :=
  (stall.2, stall.1.sched.unfundedLanes = [0], (stall.1.payer 0).map fun p => (p.hasHeadroom, p.account.pending))

theorem exists_of_firstLane {out : Option (Driver ℚ × StallReason)} {fits : Bool} {pending : Nat}
    (view : out.map firstLane = some (.allLanesDown, true, some (fits, pending))) :
    ∃ e p, out = some (e, .allLanesDown) ∧ 0 ∈ e.sched.unfundedLanes ∧ e.payer 0 = some p ∧
      p.hasHeadroom = fits ∧ p.account.pending = pending := by
  obtain ⟨⟨e, reason⟩, rfl, same⟩ := Option.map_eq_some_iff.mp view
  simp only [firstLane, Prod.mk.injEq, decide_eq_true_eq, Option.map_eq_some_iff] at same
  obtain ⟨rfl, lanes, p, found, room, bytes⟩ := same
  exact ⟨e, p, rfl, by simp [lanes], found, room, bytes⟩

end Hoverfly.Drive
