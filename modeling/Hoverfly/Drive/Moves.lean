import Mathlib.Logic.Relation
import Hoverfly.Drive.Pushers
import Hoverfly.Payer.Inflation
import Hoverfly.Sched.Funding

/-! What the driver can do about a lane between two events, said once. -/
namespace Hoverfly.Drive
open Lib Payer Push Sched

variable {F : Type}

namespace Driver

def Carries (d : Driver F) (lane batch : Nat) : Prop :=
  ∀ entry, d.sched.outstanding.lookup batch = some entry → entry.1 = lane

inductive Move [F64 F] (w : World F) : Option PaymentConfig → Nat → Driver F → Driver F → Prop
  | next (payment lane d) :
    Move w payment lane d { d.tick with sched := (d.sched.next (w.nowMs d.ticks) (w.iter d.ticks)).1 }
  | size (payment lane d n) : Move w payment lane d { d with sched := d.sched.setLaneBatchMax lane n }
  | fund (payment lane d) : Move w payment lane d (d.fundLane lane)
  | handBack {payment lane d batch} (carried : d.Carries lane batch) : Move w payment lane d (d.handBack w batch)
  | settle {pc lane d p} (found : d.payer lane = some p) : Move w (some pc) lane d (settle w pc d lane p).1
  | settleCleared {pc lane d p} (found : d.payer lane = some p) :
    Move w (some pc) lane d (settle w pc d lane p.clearHeader).1
  | reconcile {pc lane d p} (found : d.payer lane = some p) :
    Move w (some pc) lane d (d.tick.setPayer lane (p.reconcile pc (w.replies d.ticks)).1)
  | bill {pc d p bodyBytes} {a : Assignment} (found : d.payer a.lane = some p)
    (free : p.wouldExceed bodyBytes = false) (carried : d.Carries a.lane a.batch) :
    Move w (some pc) a.lane d (bill w pc d a p bodyBytes)

variable {d e : Driver F} {lane : Nat} {p : LanePayer}

theorem payer_setPayer (found : d.payer lane = some p) (q : LanePayer) : (d.setPayer lane q).payer lane = some q := by
  have set := Purse.payer_setPayer (s := ⟨d.payers, d.store, d.inFlightBytes⟩) found q lane
  rwa [if_pos rfl] at set

section Moves

variable [F64 F] (w : World F) {pc : PaymentConfig} (payment : Option PaymentConfig) {a : Assignment}

def Moves (lane : Nat) : Driver F → Driver F → Prop := Relation.ReflTransGen (Move w payment lane)

def Turns : Driver F → Driver F → Prop := Relation.ReflTransGen fun d e => ∃ lane, Move w payment lane d e

variable {w payment}

theorem Moves.turns (moves : Moves w payment lane d e) : Turns w payment d e :=
  Relation.ReflTransGen.mono (fun _ _ move => ⟨lane, move⟩) _ _ moves

/-- The rule by which a property of single moves becomes one of the driver's functions. -/
theorem Turns.related {rel : Driver F → Driver F → Prop} (refl : ∀ d, rel d d)
    (trans : ∀ {d e f}, rel d e → rel e f → rel d f) (one : ∀ {lane d e}, Move w payment lane d e → rel d e)
    (turns : Turns w payment d e) : rel d e := by
  induction turns with
  | refl => exact refl d
  | tail _ last ih => exact trans ih (one last.choose_spec)

variable (w payment)

theorem settleLane_moves (pc : PaymentConfig) (d : Driver F) (lane : Nat) :
    Moves w (some pc) lane d (settleLane w pc d lane) := by
  unfold settleLane
  cases found : d.payer lane with
  | none => exact .refl
  | some p =>
    dsimp only
    split
    · exact .single (.settle found)
    · exact .refl

theorem settleLanes_turns (d : Driver F) : Turns w payment d (d.settleLanes w payment) := by
  cases payment with
  | none => exact .refl
  | some pc => exact foldl_related (fun _ => .refl) .trans (fun d lane => (settleLane_moves w pc d lane).turns) _ d

theorem sizeLane_moves (d : Driver F) (lane : Nat) : Moves w payment lane d (d.sizeLane lane) := by
  unfold sizeLane
  split
  · exact .refl
  · split
    · exact .single (.size ..)
    · exact .refl

theorem takeWork_turns (d : Driver F) : Turns w payment d (d.takeWork w payment).1 := by
  have sized : Turns w payment d (if payment.isSome then (List.range d.payers.length).foldl sizeLane d else d) := by
    split
    · exact foldl_related (fun _ => .refl) .trans (fun d lane => (sizeLane_moves w payment d lane).turns) _ d
    · exact .refl
  unfold takeWork
  dsimp only
  generalize (if payment.isSome then _ else d) = e at sized ⊢
  split
  · exact sized.tail ⟨0, .next ..⟩
  · exact sized

variable {w payment}

theorem takeWork_carries (out : d.takeWork w payment = (e, some a)) : e.Carries a.lane a.batch := by
  unfold takeWork at out
  dsimp only at out
  generalize (if payment.isSome then _ else d) = sized at out
  split at out
  · obtain ⟨rfl, assigned⟩ := Prod.mk.inj out
    intro entry found
    cases (Scheduler.next_entered (Prod.ext rfl assigned)).symm.trans found
    rfl
  · cases (Prod.mk.inj out).2

theorem sendMetered_moves (found : d.payer a.lane = some p) (carried : d.Carries a.lane a.batch) :
    Moves w (some pc) a.lane d (sendMetered w pc d a p) := by
  have paid : Move w (some pc) a.lane d (settle w pc d a.lane p).1 := .settle found
  have still : (settle w pc d a.lane p).1.Carries a.lane a.batch := carried
  unfold sendMetered
  dsimp only
  cases free : p.wouldExceed ((d.framesOf a).map StampedChunk.frameBytes).sum with
  | false => exact .single (.bill found free carried)
  | true =>
    simp only [if_true]
    cases found : (settle w pc d a.lane p).1.payer a.lane with
    | none => exact .single paid
    | some q =>
      dsimp only
      cases free : q.wouldExceed ((d.framesOf a).map StampedChunk.frameBytes).sum with
      | true => exact .tail (.single paid) (.handBack still)
      | false => exact .tail (.single paid) (.bill found free still)

theorem dispatchOne_moves (carried : d.Carries a.lane a.batch) :
    Moves w payment a.lane d (d.dispatchOne w payment a).1 := by
  unfold dispatchOne
  cases payment with
  | none => exact .refl
  | some pc =>
    cases found : d.payer a.lane with
    | none => exact .refl
    | some p =>
      dsimp only
      split
      · exact .single (.handBack carried)
      · exact sendMetered_moves found carried

theorem dispatchLoop_turns {fuel : Nat} (out : dispatchLoop w payment fuel d = some e) : Turns w payment d e := by
  induction fuel generalizing d with
  | zero => cases out
  | succ fuel ih =>
    have taken := takeWork_turns w payment d
    unfold dispatchLoop at out
    split at out
    · rename_i work
      rw [work] at taken
      cases Option.some.inj out
      exact taken
    · rename_i d' a work
      rw [work] at taken
      have sent := taken.trans (dispatchOne_moves (takeWork_carries work)).turns
      split at out
      · rename_i more
        rw [more] at sent
        exact sent.trans (ih out)
      · rename_i stop
        rw [stop] at sent
        cases Option.some.inj out
        exact sent

theorem unpayable402_moves (d : Driver F) (lane : Nat) (p : LanePayer) :
    Moves w payment lane d (d.unpayable402 lane p) := by
  unfold unpayable402
  split
  · exact .single (.fund ..)
  · exact .refl

theorem reconcileAndPay_moves (found : d.payer lane = some p) :
    Moves w (some pc) lane d (reconcileAndPay w pc d lane p) := by
  have asked : Moves w (some pc) lane d _ := .single (.reconcile found)
  have present := payer_setPayer (d := d.tick) found (p.reconcile pc (w.replies d.ticks)).1
  unfold reconcileAndPay
  dsimp only
  split
  · exact asked
  · exact asked.trans (unpayable402_moves _ lane _)
  · have paid := asked.tail (.settle present)
    split
    · exact paid.tail (.fund ..)
    · generalize settle w pc _ lane _ = out at paid ⊢
      cases out.1.payer lane with
      | none => exact paid
      | some q => exact paid.trans (unpayable402_moves _ lane q)
    · exact paid

theorem payAfter_moves (found : d.payer lane = some p) (needsPayment : Bool) :
    Moves w (some pc) lane d (payAfter w pc d lane p needsPayment) := by
  have paid : Moves w (some pc) lane d (settle w pc d lane (if needsPayment then p.clearHeader else p)).1 := by
    cases needsPayment with
    | false => exact .single (.settle found)
    | true => exact .single (.settleCleared found)
  unfold payAfter
  dsimp only
  generalize settle w pc d lane _ = out at paid ⊢
  split
  · exact paid.tail (.fund ..)
  · split
    · cases found : out.1.payer lane with
      | none => exact paid
      | some q => exact paid.trans (reconcileAndPay_moves found)
    · exact paid
  · exact paid

variable (w) in
def booked (d : Driver F) (batch lane acked elapsedMs : Nat) (outcome : BatchOutcome) (dedupBytes : Nat) : Driver F :=
  let d := { d with sched := d.sched.onBatchTiming lane acked elapsedMs }
  let d := d.answer batch lane outcome dedupBytes
  { d.tick with sched := d.sched.onBatchResult batch outcome (w.nowMs d.ticks) }

theorem onDone_moves (d : Driver F) (batch lane acked elapsedMs : Nat) (outcome : BatchOutcome) (dedupBytes : Nat) :
    Moves w payment lane (d.booked w batch lane acked elapsedMs outcome dedupBytes)
      (d.onDone w payment batch lane acked elapsedMs outcome dedupBytes) := by
  unfold onDone
  generalize books : d.booked w batch lane acked elapsedMs outcome dedupBytes = e
  unfold booked at books
  dsimp only at books ⊢
  rw [books]
  cases payment with
  | none => exact .refl
  | some pc =>
    cases found : e.payer lane with
    | none => exact .refl
    | some p =>
      dsimp only
      split
      · exact payAfter_moves found _
      · exact .refl

inductive SettledDown (w : World F) (payment : Option PaymentConfig) (d : Driver F) : Flow F → Prop
  | leave (beyond : d.sched.done = true → d.exhausted = true) : SettledDown w payment d (.leave d)
  | fail {reason} (stalled : d.sched.stalled (w.nowMs d.ticks) = some reason) :
    SettledDown w payment d (.fail (d.stallMessage reason))
  | more : SettledDown w payment d (.again d)
  | sleep : SettledDown w payment d (.again d.tick.tick.tick)
  | event (unfinished : ¬(d.sched.done ∧ d.exhausted)) (waiting : d.sched.inFlight ≠ 0) :
    SettledDown w payment d (.again (d.await w payment))

variable (w payment) in
theorem settleDown_spec (d : Driver F) : SettledDown w payment d (d.settleDown w payment) := by
  unfold settleDown idle
  split
  · exact .leave fun _ => (‹_ ∧ _›).2
  · split
    · split
      · exact .more
      · rename_i left
        split
        · exact .fail ‹_›
        · split
          · split
            · exact .sleep
            · exact .leave fun done => absurd done left
          · exact .leave fun done => absurd done left
    · exact .event ‹_› ‹_›

end Moves

/-- The rule for the loop over the producer. -/
theorem refillLoop_induct {w : World F} {P : Driver F → Prop} (keep : ∀ {d e}, P d → d.refill w = .ok e → P e)
    {fuel : Nat} {d : Driver F} (start : P d) {out : Except String (Driver F)} (ran : d.refillLoop w fuel = some out) :
    (∀ e, out = .ok e → P e) ∧ ∀ error, out = .error error → ∃ e : Driver F, e.refill w = .error error := by
  induction fuel generalizing d with
  | zero => cases ran
  | succ fuel ih =>
    unfold refillLoop at ran
    split at ran
    · split at ran
      · rename_i failed
        cases ran
        exact ⟨(fun _ => nofun), fun _ same => by cases same; exact ⟨d, failed⟩⟩
      · rename_i filled
        exact ih (keep start filled) ran
    · cases ran
      exact ⟨fun _ same => by cases same; exact start, fun _ => nofun⟩

end Driver

end Hoverfly.Drive
