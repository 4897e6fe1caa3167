import Hoverfly.Drive.Moves

/-! Whatever the driver does about payment is a run of the lanes' acts, from the lanes as it opens them. -/
namespace Hoverfly.Drive
open Lib Payer Push Sched

variable {F : Type}

def Driver.purse (d : Driver F) : Purse where
  payers := d.payers
  store := d.store
  inFlight := d.inFlightBytes

def Pays (pc : PaymentConfig) (d e : Driver F) : Prop := ∃ acts, e.purse = run (Purse.step pc) d.purse acts

namespace Pays

variable {pc : PaymentConfig}

theorem refl (d : Driver F) : Pays pc d d := ⟨[], rfl⟩

variable {d e : Driver F} {lane fuel : Nat} {p : LanePayer}

theorem same (purse : e.purse = d.purse) : Pays pc d e := ⟨[], purse⟩

theorem one (act : Act) (purse : e.purse = d.purse.step pc act) : Pays pc d e := ⟨[act], purse⟩

theorem trans {f : Driver F} (de : Pays pc d e) (ef : Pays pc e f) : Pays pc d f := by
  obtain ⟨first, toE⟩ := de
  obtain ⟨second, toF⟩ := ef
  exact ⟨first ++ second, by rw [toF, toE, run_append]⟩

variable (w : World F)

theorem settle (found : d.payer lane = some p) :
    Pays pc d (Driver.settle w pc d lane p).1 := by
  refine .one (.settle lane (w.replies d.ticks) fun _ => true) ?_
  have found : d.purse.payer lane = some p := found
  simp only [Purse.step, found]
  rfl

theorem bill {a : Assignment} {bodyBytes : Nat} (found : d.payer a.lane = some p)
    (free : p.wouldExceed bodyBytes = false) : Pays pc d (Driver.bill w pc d a p bodyBytes) := by
  refine .one (.send a.lane a.batch bodyBytes (w.replies d.ticks)) ?_
  have found : d.purse.payer a.lane = some p := found
  simp only [Purse.step, found, Option.map_some, Option.getD_some, Purse.send, free, Bool.false_eq_true, if_false]
  unfold Driver.bill
  cases p.useHeader pc (w.replies d.ticks) 0 with
  | mk q answer =>
  cases answer with
  | error e => rfl
  | ok _ => rfl

theorem reconcile (found : d.payer lane = some p) :
    Pays pc d (d.tick.setPayer lane (p.reconcile pc (w.replies d.ticks)).1) := by
  refine .one (.reconcile lane (w.replies d.ticks)) ?_
  have found : d.purse.payer lane = some p := found
  simp only [Purse.step, found]
  rfl

theorem clearAndSettle (found : d.payer lane = some p) :
    Pays pc d (Driver.settle w pc d lane p.clearHeader).1 := by
  have cleared : Pays pc d (d.setPayer lane p.clearHeader) := by
    refine .one (.clearHeader lane) ?_
    have found : d.purse.payer lane = some p := found
    simp only [Purse.step, found]
    rfl
  refine cleared.trans ((settle w (Driver.payer_setPayer found p.clearHeader)).trans (.same ?_))
  simp only [Driver.settle, Driver.setPayer, Driver.tick, Driver.purse, List.set_set]

theorem of_turns [F64 F] {w : World F} (turns : d.Turns w (some pc) e) : Pays pc d e := by
  refine turns.related .refl .trans fun move => ?_
  cases move with
  | next => exact .same rfl
  | size => exact .same rfl
  | fund => exact .same rfl
  | handBack => exact .same rfl
  | settle found => exact settle w found
  | settleCleared found => exact clearAndSettle w found
  | reconcile found => exact reconcile w found
  | bill found free => exact bill w found free

theorem answer (d : Driver F) (batch lane : Nat) (outcome : BatchOutcome) (dedupBytes : Nat) :
    Pays pc d (d.answer batch lane outcome dedupBytes) := by
  refine .one (.answer lane batch (outcome ≠ .paymentRequired) dedupBytes) ?_
  have known : d.purse.inFlight.lookup batch = d.inFlightBytes.lookup batch := rfl
  simp only [Purse.step, Purse.answer, Driver.answer, known]
  cases d.inFlightBytes.lookup batch with
  | none => rfl
  | some sent =>
    obtain ⟨origin, sent⟩ := sent
    have same : ({ d.purse with inFlight := d.purse.inFlight.erase batch } : Purse).payer lane =
        ({ d with inFlightBytes := d.inFlightBytes.erase batch } : Driver F).payer lane := rfl
    rw [same]
    cases ({ d with inFlightBytes := d.inFlightBytes.erase batch } : Driver F).payer lane with
    | none => rfl
    | some p => rfl

theorem onDone (d : Driver F) (batch lane acked elapsedMs : Nat) (outcome : BatchOutcome) (dedupBytes : Nat) [F64 F] :
    Pays pc d (d.onDone w (some pc) batch lane acked elapsedMs outcome dedupBytes) := by
  have timed : Pays pc d { d with sched := d.sched.onBatchTiming lane acked elapsedMs } := .same rfl
  have answered := timed.trans (answer _ batch lane outcome dedupBytes)
  have booked : Pays pc d (d.booked w batch lane acked elapsedMs outcome dedupBytes) := answered.trans (.same rfl)
  exact booked.trans (.of_turns (Driver.onDone_moves d batch lane acked elapsedMs outcome dedupBytes).turns)

theorem refill (out : d.refill w = .ok e) : Pays pc d e := by
  unfold Driver.refill at out
  split at out
  · cases out
    exact .refl d
  · split at out
    · cases out
    · dsimp only at out
      split at out <;> cases out <;> exact .same rfl

theorem refillLoop (out : d.refillLoop w fuel = some (.ok e)) : Pays pc d e :=
  (Driver.refillLoop_induct (fun pays filled => pays.trans (refill w filled)) (.refl d) out).1 e rfl

variable [F64 F]

theorem await (d : Driver F) : Pays pc d (d.await w (some pc)) := by
  unfold Driver.await
  split
  · exact .same rfl
  · rename_i ev _
    cases ev with
    | ack lane addr ok => exact .same rfl
    | done batch lane acked elapsedMs outcome dedupBytes =>
      exact Pays.trans (.same rfl) (onDone w _ batch lane acked elapsedMs outcome dedupBytes)

theorem settleDown (out : d.settleDown w (some pc) = .again e ∨ d.settleDown w (some pc) = .leave e) :
    Pays pc d e := by
  have spec := Driver.settleDown_spec w (some pc) d
  rcases out with out | out <;> rw [out] at spec
  · cases spec with
    | more => exact .refl d
    | sleep => exact .same rfl
    | event => exact await w d
  · cases spec
    exact .refl d

theorem pass
    (out : d.pass w (some pc) fuel = some (.again e) ∨ d.pass w (some pc) fuel = some (.leave e)) : Pays pc d e := by
  unfold Driver.pass at out
  cases filled : d.refillLoop w fuel with
  | none =>
    rw [filled] at out
    rcases out with out | out <;> cases out
  | some filledTo =>
    rw [filled] at out
    cases filledTo with
    | error e => rcases out with out | out <;> cases out
    | ok d' =>
      dsimp only at out
      cases dispatched : Driver.dispatchLoop w (some pc) fuel (d'.settleLanes w (some pc)) with
      | none =>
        rw [dispatched] at out
        rcases out with out | out <;> cases out
      | some d'' =>
        rw [dispatched] at out
        have left : d''.settleDown w (some pc) = .again e ∨ d''.settleDown w (some pc) = .leave e := by
          simpa using out
        have turns := (Driver.settleLanes_turns w (some pc) d').trans (Driver.dispatchLoop_turns dispatched)
        exact ((refillLoop w filled).trans (.of_turns turns)).trans (settleDown w left)

theorem loop (out : d.loop w (some pc) fuel = some (.ok e)) : Pays pc d e := by
  induction fuel generalizing d with
  | zero => cases out
  | succ fuel ih =>
    unfold Driver.loop at out
    cases passed : d.pass w (some pc) fuel with
    | none =>
      rw [passed] at out
      cases out
    | some flow =>
      rw [passed] at out
      cases flow with
      | fail error => cases out
      | leave d' =>
        cases out
        exact pass w (.inr passed)
      | again d' => exact (pass w (.inl passed)).trans (ih out)

omit [F64 F] in
theorem strand_eq (pc : PaymentConfig) (s : Purse) (d : Driver F) (batch : Nat) (sent : Nat × Nat)
    (rest : List (Sigma fun _ : Nat => Nat × Nat)) (entries : s.inFlight.entries = ⟨batch, sent⟩ :: rest)
    (payers : d.payers = s.payers) (store : d.store = s.store) :
    let s' := s.step pc (.answer sent.1 batch true 0)
    s'.inFlight.entries = rest ∧ (d.strand sent).payers = s'.payers ∧ (d.strand sent).store = s'.store := by
  have known : s.inFlight.lookup batch = some sent := by
    rw [AList.lookup, entries]
    exact List.dlookup_cons_eq ..
  have erased : (s.inFlight.erase batch).entries = rest := by
    show List.kerase batch s.inFlight.entries = rest
    rw [entries]
    exact List.kerase_cons_eq rfl
  have same : d.payer sent.1 = ({ s with inFlight := s.inFlight.erase batch } : Purse).payer sent.1 := by
    simp only [Driver.payer, Purse.payer, payers]
  simp only [Purse.step, Purse.answer, known, Driver.strand, same]
  cases ({ s with inFlight := s.inFlight.erase batch } : Purse).payer sent.1 with
  | none => exact ⟨erased, payers, store⟩
  | some p => exact ⟨erased, by simp [Driver.setPayer, Purse.setPayer, Purse.answered, payers], store⟩

omit [F64 F] in
theorem strands (d : Driver F) :
    Pays pc d { (d.inFlightBytes.entries.map (·.2)).foldl Driver.strand d with inFlightBytes := ∅ } := by
  have each : ∀ (es : List (Sigma fun _ : Nat => Nat × Nat)) (s : Purse) (e : Driver F), s.inFlight.entries = es →
      e.payers = s.payers → e.store = s.store → ∃ acts,
        ({ (es.map (·.2)).foldl Driver.strand e with inFlightBytes := ∅ } : Driver F).purse =
          run (Purse.step pc) s acts := by
    intro es
    induction es with
    | nil =>
      intro s e entries payers store
      refine ⟨[], ?_⟩
      have empty : s.inFlight = ∅ := AList.ext entries
      obtain ⟨sPayers, sStore, sFlight⟩ := s
      simp only at payers store empty
      simp [Driver.purse, payers, store, empty]
    | cons x es ih =>
      intro s e entries payers store
      obtain ⟨batch, sent⟩ := x
      obtain ⟨entries, payers, store⟩ := strand_eq pc s e batch sent es entries payers store
      obtain ⟨acts, out⟩ := ih _ (e.strand sent) entries payers store
      exact ⟨.answer sent.1 batch true 0 :: acts, out⟩
  exact each _ d.purse d rfl rfl rfl

omit [F64 F] in
theorem settleRest (d : Driver F) : Pays pc d (d.settleRest w (some pc)) := by
  refine (strands d).trans (foldl_related .refl .trans (fun e lane => ?_) _ _)
  cases found : e.payer lane with
  | none => exact .refl e
  | some p => exact settle w found

end Pays

def quotes (lanes : List (String × LaneInfo F)) : List (Option (String × PaymentQuote)) :=
  lanes.map fun l => l.2.quote.map fun quote => (l.1, quote)

theorem openLane_acts (w : World F) (pc : PaymentConfig) (store : ChequeStore) (url : String) (info : LaneInfo F)
    (before after : List (Option LanePayer)) : ∃ acts,
      run (Purse.step pc) { payers := before ++ lanePayer (some pc) store url info :: after, store } acts =
        { payers := before ++ (openLane w (some pc) store before.length url info).payer :: after, store } := by
  have set : ∀ p q : LanePayer, ({ payers := before ++ some p :: after, store } : Purse).setPayer before.length q =
      { payers := before ++ some q :: after, store } := by
    intro p q
    simp [Purse.setPayer]
  have get : ∀ p : LanePayer, ({ payers := before ++ some p :: after, store } : Purse).payer before.length = some p := by
    intro p
    simp [Purse.payer]
  unfold openLane
  cases lanePayer (some pc) store url info with
  | none => exact ⟨[], rfl⟩
  | some p =>
    dsimp only
    cases used : p.useHeader pc (w.replies (2 * before.length)) 0 with
    | mk q answer =>
    cases answer with
    | error e =>
      refine ⟨[.header before.length (w.replies (2 * before.length))], ?_⟩
      simp only [run_cons, run_nil, Purse.step, get, used, Option.map_some, Option.getD_some, set]
    | ok _ =>
      refine ⟨[.header before.length (w.replies (2 * before.length)),
        .reconcile before.length (w.replies (2 * before.length + 1))], ?_⟩
      simp only [run_cons, run_nil, Purse.step, get, used, Option.map_some, Option.getD_some, set]

theorem openLanes_acts (w : World F) (pc : PaymentConfig) (store : ChequeStore) (lanes : List (String × LaneInfo F))
    (before : List (Option LanePayer)) : ∃ acts,
      run (Purse.step pc) { payers := before ++ lanes.map fun l => lanePayer (some pc) store l.1 l.2, store } acts =
        { payers := before ++ (lanes.mapIdx fun lane l =>
            openLane w (some pc) store (before.length + lane) l.1 l.2).map (·.payer), store } := by
  induction lanes generalizing before with
  | nil => exact ⟨[], rfl⟩
  | cons l lanes ih =>
    obtain ⟨first, opened⟩ := openLane_acts w pc store l.1 l.2 before
      (lanes.map fun l => lanePayer (some pc) store l.1 l.2)
    obtain ⟨second, rest⟩ := ih (before ++ [(openLane w (some pc) store before.length l.1 l.2).payer])
    refine ⟨first ++ second, ?_⟩
    rw [List.map_cons, run_append, opened]
    simp only [List.append_assoc, List.cons_append, List.nil_append, List.length_append, List.length_cons,
      List.length_nil] at rest
    rw [rest, List.mapIdx_cons, List.map_cons]
    simp only [Nat.add_zero, Nat.add_comm, Nat.add_left_comm]

theorem drivePushers_acts [F64 F] (w : World F) (fuel : Nat) (lanes : List (String × LaneInfo F)) (totalHint : Nat)
    (pc : PaymentConfig) (store : ChequeStore) (d : Driver F)
    (out : drivePushers w fuel lanes totalHint (some pc) store = some (.ok (some d))) :
    ∃ acts, d.purse = (run (Tally.step pc) (Tally.opening store (quotes lanes)) acts).purse := by
  have fresh : (Tally.opening store (quotes lanes)).purse =
      { payers := lanes.map fun l => lanePayer (some pc) store l.1 l.2, store } := by
    simp only [Tally.opening, quotes, List.map_map]
    congr 1
    refine List.map_congr_left fun l _ => ?_
    cases quote : l.2.quote <;> simp [lanePayer, quote]
  obtain ⟨opening, opened⟩ := openLanes_acts w pc store lanes []
  simp only [List.nil_append, List.length_nil, Nat.zero_add] at opened
  unfold drivePushers at out
  split at out
  · cases out
  split at out
  · cases out
  dsimp only at out
  split at out
  · cases out
  generalize (lanes.mapIdx fun lane l => openLane w (some pc) store lane l.1 l.2) = lanesOpened at out opened
  cases filled : (start w store lanesOpened).refill w with
  | error e =>
    rw [filled] at out
    cases out
  | ok d₁ =>
    rw [filled] at out
    dsimp only at out
    cases looped : d₁.loop w (some pc) fuel with
    | none =>
      rw [looped] at out
      cases out
    | some ended =>
      rw [looped] at out
      cases ended with
      | error e => cases out
      | ok d₂ =>
        have same : d₂.settleRest w (some pc) = d := by
          simp only [Driver.verdict, Option.some.injEq] at out
          split at out
          · cases out
          · simpa [Except.map] using out
        obtain ⟨acts, ended⟩ := ((Pays.refill w filled).trans (Pays.loop w looped)).trans (Pays.settleRest w d₂)
        refine ⟨opening ++ acts, ?_⟩
        rw [Tally.purse_run, fresh, run_append, opened, ← same, ended]
        rfl

end Hoverfly.Drive
