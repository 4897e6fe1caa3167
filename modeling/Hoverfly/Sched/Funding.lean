import Hoverfly.Sched.Health

/-! Which lanes the scheduler holds back for want of payment. A lane is paused by the
result of one of its own batches and by nothing else. -/
namespace Hoverfly.Sched
open Lib

variable {F : Type}

namespace Scheduler

def paused (s : Scheduler F) (lane : Nat) : Bool := (s.lanes[lane]?).any (·.health = .unfunded)

def Eased (on : Nat → Prop) (s t : Scheduler F) : Prop :=
  ∀ lane, on lane → t.paused lane = true → s.paused lane = true

namespace Eased

variable {on : Nat → Prop} {s t u : Scheduler F}

theorem refl (s : Scheduler F) : Eased on s s := fun _ _ paused => paused

theorem trans (st : Eased on s t) (tu : Eased on t u) : Eased on s u :=
  fun lane selected paused => st lane selected (tu lane selected paused)

end Eased

end Scheduler

def Call.Pauses (s : Scheduler F) (lane : Nat) : Call F → Prop
  | .onBatchResult batch outcome _ =>
    outcome = .paymentRequired ∧ ∃ chunks, s.outstanding.lookup batch = some (lane, chunks)
  | _ => False

namespace Lane

variable {nowMs : Nat} {l : Lane F}

theorem expired_unfunded (unfunded : (l.expired nowMs).health = .unfunded) :
    l.health = .unfunded := by
  unfold expired at unfunded
  split at unfunded
  · split at unfunded
    · cases unfunded
    · exact unfunded
  · exact unfunded

theorem laneFault_unfunded (unfunded : (Scheduler.laneFault nowMs l).health = .unfunded) :
    l.health = .unfunded := by
  unfold Scheduler.laneFault at unfunded
  dsimp only at unfunded
  split at unfunded
  · split at unfunded <;> cases unfunded
  · exact unfunded

theorem settled_unfunded {acked : Nat} {outcome : BatchOutcome}
    (unfunded : (l.settled acked outcome nowMs).health = .unfunded) :
    l.health = .unfunded ∨ outcome = .paymentRequired := by
  unfold settled at unfunded
  split at unfunded
  · exact .inr rfl
  · split at unfunded
    · cases unfunded
    · exact .inl (laneFault_unfunded unfunded)
  · exact .inl (laneFault_unfunded unfunded)

theorem funded_health (l : Lane F) : l.funded.health ≠ .unfunded := by
  unfold funded
  split
  · dsimp only
    split <;> exact LaneHealth.noConfusion
  · assumption

end Lane

theorem Call.onLane_unfunded [F64 F] {s : Scheduler F} {lane : Nat} {l : Lane F} {call : Call F}
    (unfunded : (call.onLane s lane l).health = .unfunded) : l.health = .unfunded ∨ call.Pauses s lane := by
  cases call with
  | admitChunks | admitGroup => exact .inl unfunded
  | next nowMs iter =>
    rw [Call.onLane] at unfunded
    split at unfunded
    · exact .inl (Lane.expired_unfunded unfunded)
    · exact .inl (Lane.expired_unfunded unfunded)
  | onAck origin addr ok =>
    simp only [Call.onLane, Scheduler.tallied] at unfunded
    left
    repeat' split at unfunded
    all_goals exact unfunded
  | onBatchResult batch outcome nowMs =>
    rw [Call.onLane] at unfunded
    split at unfunded
    · exact .inl unfunded
    · rename_i origin chunks carried
      split at unfunded
      · rename_i here
        subst here
        exact (Lane.settled_unfunded unfunded).imp id fun refused => ⟨refused, chunks, carried⟩
      · exact .inl unfunded
  | onBatchTiming origin acked elapsedMs =>
    simp only [Call.onLane, Lane.timed] at unfunded
    left
    repeat' split at unfunded
    all_goals exact unfunded
  | setLaneInfo origin info | setLaneBatchMax origin max =>
    rw [Call.onLane] at unfunded
    split at unfunded <;> exact .inl unfunded
  | fundLane origin =>
    rw [Call.onLane] at unfunded
    split at unfunded
    · exact absurd unfunded (Lane.funded_health l)
    · exact .inl unfunded
  | retireLane origin =>
    rw [Call.onLane] at unfunded
    split at unfunded
    · cases unfunded
    · exact .inl unfunded

theorem Call.paused_apply [F64 F] (s : Scheduler F) (call : Call F) (lane : Nat) :
    (call.apply s).paused lane = (s.lanes[lane]?).any fun l => (call.onLane s lane l).health = .unfunded := by
  rewrite [Scheduler.paused, call.lanes_apply, Option.any_map]
  rfl

theorem Call.eased [F64 F] {on : Nat → Prop} (s : Scheduler F) (call : Call F)
    (spared : ∀ lane, on lane → ¬call.Pauses s lane) : Scheduler.Eased on s (call.apply s) := by
  intro lane selected paused
  rw [call.paused_apply] at paused
  unfold Scheduler.paused
  cases found : s.lanes[lane]? with
  | none => simp [found] at paused
  | some l =>
    rw [found, Option.any_some, decide_eq_true_eq] at paused
    exact decide_eq_true ((Call.onLane_unfunded paused).resolve_right (spared lane selected))

namespace Scheduler

variable [F64 F]

theorem onBatchResult_eased {s : Scheduler F} {batch lane : Nat} (outcome : BatchOutcome) (nowMs : Nat)
    (carried : ∀ entry, s.outstanding.lookup batch = some entry → entry.1 = lane) :
    Eased (· ≠ lane) s (s.onBatchResult batch outcome nowMs) :=
  Call.eased s (.onBatchResult batch outcome nowMs) fun _ other ⟨_, _, found⟩ => other (carried _ found)

theorem fundLane_paused (s : Scheduler F) (lane : Nat) : (s.fundLane lane).paused lane = false := by
  have paid := Call.paused_apply s (.fundLane lane) lane
  refine paid.trans ?_
  cases s.lanes[lane]? with
  | none => rfl
  | some l => simp [Call.onLane, Lane.funded_health]

theorem new_paused (lanes : List (LaneInfo F)) (cfg : Config F) (lane : Nat) : (new lanes cfg).paused lane = false := by
  unfold paused new withPolicy
  rw [List.getElem?_mapIdx]
  cases lanes[lane]? <;> rfl

theorem next_entered {s t : Scheduler F} {nowMs : Nat} {iter : List Nat} {a : Assignment}
    (out : s.next nowMs iter = (t, some a)) : t.outstanding.lookup a.batch = some (a.lane, a.chunks) := by
  rcases next_cases s nowMs iter with none_ | ⟨lane, picked, handed, _⟩ | ⟨lane, picked, handed, _⟩
  · rw [none_] at out
    cases out
  · rw [handed] at out
    cases out
    exact AList.lookup_insert _
  · rw [handed] at out
    cases out
    exact AList.lookup_insert _

end Scheduler

end Hoverfly.Sched
