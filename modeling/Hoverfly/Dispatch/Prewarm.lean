import Mathlib.Logic.Function.Basic
import Hoverfly.Dispatch.Resolution

/-! Background dials of the push dispatcher: a sweep raises the flag of an entry and dials it, and the loop lowers
the flag when it polls the dial. The flags belong to the pool and outlive the call. -/
namespace Hoverfly.Dispatch
open Lib Push

def ghostBalanceLimitPlur : Nat := 12000000

def prewarmGhostBalancePlur : Nat := ghostBalanceLimitPlur * 1 / 2

structure EntryView where
  id : Nat
  isDead : Bool
  ghostBalancePlur : Nat
  isAlive : Bool
  failureStrikes : Nat

def EntryView.trigger (v : EntryView) : Bool :=
  if v.isDead then false
  else prewarmGhostBalancePlur ≤ v.ghostBalancePlur ∨ (v.isAlive = false ∧ v.failureStrikes = 0)

inductive Owner where
  | here
  | elsewhere
deriving DecidableEq

structure Upload where
  dispatcher : Dispatcher
  /-- `prewarm_inflight` of every entry; a raised flag with the upload that raised it. -/
  flags : Nat → Option Owner
  dials : List Nat

namespace Upload

def maybePrewarm (u : Upload) (v : EntryView) : Upload :=
  if v.trigger = true ∧ u.flags v.id = none then
    { u with flags := Function.update u.flags v.id (some .here), dials := u.dials ++ [v.id] }
  else u

def sweep (u : Upload) (entries : List EntryView) : Upload := entries.foldl maybePrewarm u

end Upload

inductive PoolEvent where
  | push (pick : Nat) (world : World) (entries : List EntryView)
  | dial (entry : Nat) (res : Except TransportError Unit)
  | heartbeat (entries : List EntryView)
  | otherRaises (entry : Nat)
  | otherLowers (entry : Nat)

namespace PoolEvent

def entries : PoolEvent → List EntryView
  | .push _ _ entries => entries
  | .heartbeat entries => entries
  | _ => []

def wants (event : PoolEvent) (e : Nat) : Bool := event.entries.any fun v => v.id = e ∧ v.trigger = true

def answers : PoolEvent → Nat → Bool
  | .dial entry _, e => entry = e
  | _, _ => false

end PoolEvent

namespace Upload

def enabled (u : Upload) : PoolEvent → Prop
  | .push .. => u.dispatcher.result = none ∧ u.dispatcher.inflight.isEmpty = false
  | .dial entry _ => u.dispatcher.result = none ∧ u.dispatcher.moreChunks = true ∧ entry ∈ u.dials
  | .heartbeat _ => u.dispatcher.result = none
  | .otherRaises entry => u.flags entry = none
  | .otherLowers entry => u.flags entry = some .elsewhere

def step (maxRetries : Nat) (u : Upload) : PoolEvent → Upload
  | .push pick world entries =>
    { u.sweep entries with dispatcher := u.dispatcher.step maxRetries (.push pick world) }
  | .dial entry _ => { u with flags := Function.update u.flags entry none, dials := u.dials.erase entry }
  | .heartbeat entries => u.sweep entries
  | .otherRaises entry => { u with flags := Function.update u.flags entry (some .elsewhere) }
  | .otherLowers entry => { u with flags := Function.update u.flags entry none }

def start (flags : Nat → Bool) (poolLen mult : Nat) (work : List StampedChunk) : Upload :=
  { dispatcher := .start poolLen mult work, flags := fun e => if flags e then some .elsewhere else none, dials := [] }

end Upload

def PoolEvent.holds (e : Nat) (held : Bool) : PoolEvent → Bool
  | .otherRaises entry => if entry = e then true else held
  | .otherLowers entry => if entry = e then false else held
  | _ => held

def foreign (flags : Nat → Bool) (events : List PoolEvent) (e : Nat) : Bool :=
  events.foldl (PoolEvent.holds e) (flags e)

/-- Some sweep found `e` to prewarm, its flag free or already up for this call, and no dial of it was polled after. -/
def Unanswered (flags : Nat → Bool) (events : List PoolEvent) (e : Nat) : Prop :=
  ∃ before event after, events = before ++ event :: after ∧ event.wants e = true ∧
    foreign flags before e = false ∧ after.any (·.answers e) = false

theorem unanswered_append {flags : Nat → Bool} {events : List PoolEvent} {event : PoolEvent} {e : Nat} :
    Unanswered flags (events ++ [event]) e ↔ event.answers e = false ∧
      (Unanswered flags events e ∨ event.wants e = true ∧ foreign flags events e = false) := by
  constructor
  · rintro ⟨before, event', after, split, wanted, free, none_⟩
    rcases List.eq_nil_or_concat after with rfl | ⟨init, last, rfl⟩
    · obtain ⟨rfl, same⟩ := List.append_inj' split rfl
      cases same
      refine ⟨?_, .inr ⟨wanted, free⟩⟩
      cases event <;> first | rfl | exact absurd wanted (by simp [PoolEvent.wants, PoolEvent.entries])
    · rw [List.concat_eq_append, ← List.cons_append, ← List.append_assoc] at split
      obtain ⟨rfl, same⟩ := List.append_inj' split rfl
      cases same
      rw [List.concat_eq_append, List.any_append, Bool.or_eq_false_iff] at none_
      exact ⟨by simpa using none_.2, .inl ⟨before, event', init, rfl, wanted, free, none_.1⟩⟩
  · rintro ⟨silent, ⟨before, event', after, rfl, wanted, free, none_⟩ | ⟨wanted, free⟩⟩
    · exact ⟨before, event', after ++ [event], by simp, wanted, free, by simp [none_, silent]⟩
    · exact ⟨events, event, [], rfl, wanted, free, rfl⟩

namespace Upload

theorem flags_maybePrewarm (u : Upload) (v : EntryView) (e : Nat) :
    (u.maybePrewarm v).flags e = if (v.id = e ∧ v.trigger = true) ∧ u.flags e = none then some .here else u.flags e := by
  unfold maybePrewarm
  by_cases same : v.id = e
  · subst same
    split <;> simp_all
  · split
    · simp [same, Function.update_of_ne (Ne.symm same)]
    · simp [same]

theorem flags_sweep (u : Upload) (entries : List EntryView) (e : Nat) :
    (u.sweep entries).flags e =
      if (entries.any fun v => v.id = e ∧ v.trigger = true) = true ∧ u.flags e = none then some .here else u.flags e := by
  unfold sweep
  induction entries generalizing u with
  | nil => simp
  | cons v rest ih =>
    rw [List.foldl_cons, ih, flags_maybePrewarm]
    by_cases wanted : v.id = e ∧ v.trigger = true
    · by_cases free : u.flags e = none
      · simp [wanted, free]
      · simp [free]
    · simp [wanted]

structure Held (u : Upload) : Prop where
  mine : ∀ e, e ∈ u.dials ↔ u.flags e = some .here
  nodup : u.dials.Nodup

namespace Held

variable {u : Upload}

theorem maybePrewarm (held : Held u) (v : EntryView) : Held (u.maybePrewarm v) := by
  unfold Upload.maybePrewarm
  split
  next raised =>
    have fresh : v.id ∉ u.dials := by
      rw [held.mine, raised.2]
      exact nofun
    constructor
    · intro e
      by_cases same : e = v.id
      · subst same
        simp
      · simp [same, held.mine]
    · simpa using held.nodup.concat fresh
  next => exact held

theorem sweep (held : Held u) (entries : List EntryView) : Held (u.sweep entries) := by
  unfold Upload.sweep
  induction entries generalizing u with
  | nil => exact held
  | cons v rest ih => exact ih (held.maybePrewarm v)

theorem aside (held : Held u) {entry : Nat} {flag : Option Owner} (before : u.flags entry ≠ some .here)
    (after : flag ≠ some .here) : Held { u with flags := Function.update u.flags entry flag } := by
  refine ⟨fun e => ?_, held.nodup⟩
  change e ∈ u.dials ↔ Function.update u.flags entry flag e = some .here
  rw [held.mine]
  by_cases same : e = entry
  · subst same
    simp [before, after]
  · simp [same]

theorem step (held : Held u) (maxRetries : Nat) {event : PoolEvent} (on : u.enabled event) :
    Held (u.step maxRetries event) := by
  cases event with
  | push pick world entries => exact ⟨(held.sweep entries).mine, (held.sweep entries).nodup⟩
  | heartbeat entries => exact held.sweep entries
  | dial entry res =>
    refine ⟨fun e => ?_, held.nodup.erase entry⟩
    change e ∈ u.dials.erase entry ↔ Function.update u.flags entry none e = some .here
    rw [held.nodup.mem_erase_iff, held.mine]
    by_cases same : e = entry
    · simp [same]
    · simp [same]
  | otherRaises entry => exact held.aside (by rw [show u.flags entry = none from on]; exact nofun) nofun
  | otherLowers entry => exact held.aside (by rw [show u.flags entry = some .elsewhere from on]; exact nofun) nofun

end Held

theorem flags_here {u : Upload} (maxRetries : Nat) {event : PoolEvent} (on : u.enabled event) (e : Nat) :
    (u.step maxRetries event).flags e = some .here ↔ event.answers e = false ∧
      (u.flags e = some .here ∨ event.wants e = true ∧ u.flags e ≠ some .elsewhere) := by
  have swept : ∀ entries, (u.sweep entries).flags e = some .here ↔ u.flags e = some .here ∨
      (entries.any fun v => v.id = e ∧ v.trigger = true) = true ∧ u.flags e ≠ some .elsewhere := by
    intro entries
    rw [flags_sweep]
    cases flag : u.flags e with
    | none => simp
    | some owner => cases owner <;> simp
  cases event with
  | push pick world entries => exact (swept entries).trans ⟨fun now => ⟨rfl, now⟩, And.right⟩
  | heartbeat entries => exact (swept entries).trans ⟨fun now => ⟨rfl, now⟩, And.right⟩
  | dial entry res =>
    by_cases same : e = entry
    · simp [step, PoolEvent.answers, same]
    · simp [step, PoolEvent.answers, PoolEvent.wants, PoolEvent.entries, same, Ne.symm same]
  | otherRaises entry =>
    by_cases same : e = entry
    · subst same
      simp [step, PoolEvent.wants, PoolEvent.entries, show u.flags e = none from on]
    · simp [step, PoolEvent.answers, PoolEvent.wants, PoolEvent.entries, same]
  | otherLowers entry =>
    by_cases same : e = entry
    · subst same
      simp [step, PoolEvent.wants, PoolEvent.entries, show u.flags e = some .elsewhere from on]
    · simp [step, PoolEvent.answers, PoolEvent.wants, PoolEvent.entries, same]

theorem flags_elsewhere {u : Upload} (held : Held u) (maxRetries : Nat) {event : PoolEvent} (on : u.enabled event)
    {e : Nat} {other : Bool} (now : u.flags e = some .elsewhere ↔ other = true) :
    (u.step maxRetries event).flags e = some .elsewhere ↔ event.holds e other = true := by
  have swept : ∀ entries, (u.sweep entries).flags e = some .elsewhere ↔ u.flags e = some .elsewhere := by
    intro entries
    rw [flags_sweep]
    cases flag : u.flags e with
    | none => simp
    | some owner => simp
  cases event with
  | push pick world entries => exact (swept entries).trans now
  | heartbeat entries => exact (swept entries).trans now
  | dial entry res =>
    by_cases same : e = entry
    · subst same
      have mine := (held.mine e).mp on.2.2
      rw [mine] at now
      simpa [step, PoolEvent.holds] using now
    · simpa [step, PoolEvent.holds, same] using now
  | otherRaises entry =>
    by_cases same : e = entry
    · simp [step, PoolEvent.holds, same]
    · simpa [step, PoolEvent.holds, same, Ne.symm same] using now
  | otherLowers entry =>
    by_cases same : e = entry
    · simp [step, PoolEvent.holds, same]
    · simpa [step, PoolEvent.holds, same, Ne.symm same] using now

section

variable (flags : Nat → Bool) (poolLen mult maxRetries : Nat) (work : List StampedChunk)

theorem start_held : Held (start flags poolLen mult work) := by
  refine ⟨fun e => ?_, List.nodup_nil⟩
  unfold start
  dsimp only
  split <;> simp

theorem start_elsewhere (e : Nat) : (start flags poolLen mult work).flags e = some .elsewhere ↔ flags e = true := by
  unfold start
  dsimp only
  split <;> simp_all

theorem run_flags (events : List PoolEvent)
    (on : Along enabled (step maxRetries) (start flags poolLen mult work) events) :
    let u := run (step maxRetries) (start flags poolLen mult work) events
    Held u ∧ ∀ e, (u.flags e = some .elsewhere ↔ foreign flags events e = true) ∧
      (u.flags e = some .here ↔ Unanswered flags events e) := by
  induction events using List.reverseRecOn with
  | nil =>
    refine ⟨start_held .., fun e => ⟨start_elsewhere .., ?_⟩⟩
    rw [run_nil, ← (start_held flags poolLen mult work).mine]
    refine iff_of_false nofun ?_
    rintro ⟨before, event, after, split, -⟩
    cases before <;> cases split
  | append_singleton events event ih =>
    obtain ⟨before, here, -⟩ := (along_append ..).mp on
    obtain ⟨held, told⟩ := ih before
    rw [run_append]
    refine ⟨held.step maxRetries here, fun e => ⟨?_, ?_⟩⟩
    · rw [foreign, List.foldl_append]
      exact flags_elsewhere held maxRetries here (told e).1
    · rw [unanswered_append, ← (told e).2, ← Bool.not_eq_true (foreign flags events e), ← (told e).1]
      exact flags_here maxRetries here e

end

/-- No flag that this call raised is left up exactly if every sweep that wanted an entry nobody else was dialling
was followed by a poll of its dial. -/
theorem prewarm_released_iff (flags : Nat → Bool) (poolLen mult maxRetries : Nat) (work : List StampedChunk)
    (events : List PoolEvent) (on : Along enabled (step maxRetries) (start flags poolLen mult work) events) :
    (∀ e, (run (step maxRetries) (start flags poolLen mult work) events).flags e ≠ some .here) ↔
      ∀ before event after e, events = before ++ event :: after → event.wants e = true →
        foreign flags before e = false → after.any (·.answers e) = true := by
  have told := (run_flags flags poolLen mult maxRetries work events on).2
  constructor
  · intro released before event after e split wanted free
    by_contra unpolled
    exact released e ((told e).2.mpr ⟨before, event, after, split, wanted, free, Bool.not_eq_true _ ▸ unpolled⟩)
  · intro polled e left
    obtain ⟨before, event, after, split, wanted, free, none_⟩ := (told e).2.mp left
    rw [polled before event after e split wanted free] at none_
    cases none_

def lostSession : EntryView := ⟨7, false, 0, false, 0⟩

/-- The heartbeat finds the session gone, its dial is polled before a chunk is done, and later sweeps find it alive. -/
theorem prewarm_released_iff_polled :
    let events : List PoolEvent := [.heartbeat [lostSession], .dial 7 (.ok ()),
      .push 1 (answering (.ok .receipt)) [{ lostSession with isAlive := true }],
      .push 0 (answering (.ok .receipt)) [{ lostSession with isAlive := true }]]
    let u := run (step 20) (start (fun _ => false) 1 1 twoChunks) events
    u.dispatcher.result = some (.ok ()) ∧ ∀ e, u.flags e ≠ some .here := by
  intro events u
  have on : Along enabled (step 20) (start (fun _ => false) 1 1 twoChunks) events :=
    ⟨rfl, ⟨rfl, rfl, by decide⟩, ⟨rfl, rfl⟩, ⟨rfl, rfl⟩, trivial⟩
  refine ⟨rfl, (prewarm_released_iff _ 1 1 20 twoChunks events on).mpr ?_⟩
  intro before event after e split wanted _
  have quiet : EntryView.trigger { lostSession with isAlive := true } = false := by decide
  dsimp only [events] at split
  rcases before with _ | ⟨_, _ | ⟨_, _ | ⟨_, _ | ⟨_, rest⟩⟩⟩⟩
  · cases split
    simp only [PoolEvent.wants, PoolEvent.entries, List.any_cons, List.any_nil, Bool.or_false, decide_eq_true_eq] at wanted
    rw [← wanted.1]
    rfl
  · cases split
    cases wanted
  · cases split
    simp [PoolEvent.wants, PoolEvent.entries, quiet] at wanted
  · cases split
    simp [PoolEvent.wants, PoolEvent.entries, quiet] at wanted
  · simp at split

/-- The session is gone when the only chunk is done: its flag stays up, and the next upload cannot dial it. -/
theorem prewarm_leaks :
    let u := run (step 20) (start (fun _ => false) 1 1 (twoChunks.take 1))
      [.push 0 (answering (.ok .receipt)) [lostSession]]
    (enabled (start (fun _ => false) 1 1 (twoChunks.take 1)) (.push 0 (answering (.ok .receipt)) [lostSession]) ∧
      u.dispatcher.result = some (.ok ()) ∧ u.flags 7 = some .here) ∧
    ((start (fun e => (u.flags e).isSome) 1 1 twoChunks).sweep [lostSession]).dials = [] ∧
    ((start (fun _ => false) 1 1 twoChunks).sweep [lostSession]).dials = [7] :=
  ⟨⟨⟨rfl, rfl⟩, rfl, rfl⟩, rfl, rfl⟩

end Upload

end Hoverfly.Dispatch
