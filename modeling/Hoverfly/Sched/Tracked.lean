import Mathlib.Logic.Function.Basic
import Hoverfly.Sched.Conservation

/-! The honest protocol: a batch answers each chunk it carries at most once and only those, and its one result comes
after its answers. Beside the scheduler we track, batch by batch, which chunks are still unanswered. -/
namespace Hoverfly.Sched
open Lib

variable {F : Type}

structure Tracked (F : Type) where
  sched : Scheduler F
  unanswered : Nat → List Nat

def Tracked.answer (t : Tracked F) (batch ci : Nat) : Tracked F :=
  { t with unanswered := Function.update t.unanswered batch ((t.unanswered batch).filter (· ≠ ci)) }

def Tracked.close (t : Tracked F) (batch : Nat) : Tracked F :=
  { t with unanswered := Function.update t.unanswered batch [] }

/-- An answer names the batch that gives it; every other call goes through as it is. -/
inductive Event (F : Type) where
  | call (call : Call F)
  | ack (batch ci : Nat) (ok : Bool)

def Event.apply [F64 F] (t : Tracked F) : Event F → Tracked F
  | .call (.next nowMs iter) =>
    match t.sched.next nowMs iter with
    | (s, some a) => { sched := s, unanswered := Function.update t.unanswered a.batch a.chunks }
    | (s, none) => { t with sched := s }
  | .call (.onBatchResult batch outcome nowMs) =>
    { t.close batch with sched := t.sched.onBatchResult batch outcome nowMs }
  | .call other => { t with sched := other.apply t.sched }
  | .ack batch ci ok =>
    match t.sched.outstanding.lookup batch, t.sched.chunkAddr ci with
    | some (lane, _), some addr => { t.answer batch ci with sched := t.sched.onAck lane addr ok }
    | _, _ => t

def Tracked.start [F64 F] (lanes : List (LaneInfo F)) (cfg : Config F) (policy : CompletionPolicy) :
    Tracked F :=
  { sched := .withPolicy lanes cfg policy, unanswered := fun _ => [] }

def Honest (t : Tracked F) : Event F → Prop
  | .call (.onAck ..) => False
  | .call (.onBatchResult batch ..) => (t.sched.outstanding.lookup batch).isSome
  | .call _ => True
  | .ack batch ci _ => (t.sched.outstanding.lookup batch).isSome ∧ ci ∈ t.unanswered batch

instance (t : Tracked F) : DecidablePred (Honest t)
  | .call (.onBatchResult ..) | .ack .. => by unfold Honest; infer_instance
  | .call (.onAck ..) => .isFalse id
  | .call (.admitChunks _) | .call (.admitGroup ..) | .call (.next ..) | .call (.onBatchTiming ..)
  | .call (.setLaneInfo ..) | .call (.setLaneBatchMax ..) | .call (.fundLane _) | .call (.retireLane _) =>
    .isTrue trivial

/-- A 402 comes before any answer of its batch. -/
def PaidFirst (t : Tracked F) : Event F → Prop
  | .call (.onBatchResult batch .paymentRequired _) =>
    ∀ lane cs, t.sched.outstanding.lookup batch = some (lane, cs) → t.unanswered batch = cs
  | _ => True

abbrev Resolved (c : ChunkState) : Prop := c.phase = .done ∨ c.phase = .skipped

def Tracked.Carries (t : Tracked F) (batch lane ci : Nat) : Prop :=
  (∃ cs, t.sched.outstanding.lookup batch = some (lane, cs)) ∧ ci ∈ t.unanswered batch

theorem Tracked.mem_answer {t : Tracked F} {batch ci b i : Nat} :
    i ∈ (t.answer batch ci).unanswered b ↔ i ∈ t.unanswered b ∧ ¬(b = batch ∧ i = ci) := by
  unfold answer
  by_cases same : b = batch
  · subst same
    simp
  · simp [same]

theorem Tracked.mem_close {t : Tracked F} {batch b i : Nat} :
    i ∈ (t.close batch).unanswered b ↔ i ∈ t.unanswered b ∧ b ≠ batch := by
  unfold close
  by_cases same : b = batch
  · subst same
    simp
  · simp [same]

/-- A result does not come in while a later batch on its lane carries, unanswered, a chunk that
the batch itself has answered. -/
def Clean (t : Tracked F) : Event F → Prop
  | .call (.onBatchResult batch ..) =>
    ∀ lane cs, t.sched.outstanding.lookup batch = some (lane, cs) →
      ∀ ci ∈ cs, ci ∉ t.unanswered batch → ∀ other, other ≠ batch → t.Carries other lane ci →
        ∀ c, t.sched.chunks[ci]? = some c → Resolved c
  | _ => True

/-- Carriage by lane agrees with carriage by batch. While a loop or an answer is half way,
`exempt` lists the lanes on a chunk that no batch stands for. With `strict`, the count of
failures is exact as well. -/
structure CarriedX (strict : Prop) (exempt : Nat → Nat → Prop) (t : Tracked F) : Prop where
  inv : InvX exempt t.sched
  addressed : ∀ (i : Nat) (c : ChunkState), t.sched.chunks[i]? = some c →
    t.sched.index.lookup c.addr = some i
  once : t.sched.pending.Nodup
  waiting : ∀ ci ∈ t.sched.pending, t.sched.isPending ci = true
  within : ∀ batch lane cs, t.sched.outstanding.lookup batch = some (lane, cs) →
    ∀ ci ∈ t.unanswered batch, ci ∈ cs
  carried : ∀ batch lane ci, t.Carries batch lane ci → ∀ c, t.sched.chunks[ci]? = some c →
    Resolved c ∨ (c.phase = .inFlight ∧ lane ∈ c.on)
  single : ∀ b b' lane ci, t.Carries b lane ci → t.Carries b' lane ci → b = b'
  backed : ∀ (i : Nat) (c : ChunkState) (l : Nat), t.sched.chunks[i]? = some c → l ∈ c.on →
    exempt i l ∨ ∃ b, t.Carries b l i
  lone : ∀ (i : Nat) (c : ChunkState), t.sched.chunks[i]? = some c → c.hedged = false →
    c.on.length ≤ 1
  retried : ∀ (i : Nat) (c : ChunkState), t.sched.chunks[i]? = some c → c.phase = .pending →
    (∃ b l cs, t.sched.outstanding.lookup b = some (l, cs) ∧ i ∈ cs) →
      c.attempts < t.sched.cfg.maxAttempts
  counted : strict → t.sched.failed = t.sched.chunks.countP (·.phase = .failed)
  spent : strict → ∀ (i : Nat) (c : ChunkState), t.sched.chunks[i]? = some c → c.phase = .failed →
    c.attempts ≥ t.sched.cfg.maxAttempts

def Carried (strict : Prop) (t : Tracked F) : Prop := CarriedX strict (fun _ _ => False) t

structure Alike (c d : ChunkState) : Prop where
  addr : d.addr = c.addr
  phase : d.phase = c.phase
  on : d.on = c.on
  hedged : d.hedged = false → c.hedged = false
  attempts : d.attempts ≤ c.attempts

theorem Alike.refl (c : ChunkState) : Alike c c := ⟨rfl, rfl, rfl, id, UInt16.le_refl _⟩

namespace CarriedX

variable {strict : Prop} {exempt exempt' : Nat → Nat → Prop} {t : Tracked F}

theorem frame (h : CarriedX strict exempt t) (s : Scheduler F) (inv : InvX exempt s)
    (chunks : s.chunks = t.sched.chunks) (pending : s.pending = t.sched.pending)
    (index : s.index = t.sched.index) (outstanding : s.outstanding = t.sched.outstanding)
    (cfg : s.cfg = t.sched.cfg) (failed : s.failed = t.sched.failed) :
    CarriedX strict exempt { t with sched := s } := by
  obtain ⟨⟩ := s
  dsimp only at *
  subst chunks pending index outstanding cfg failed
  exact { h with inv }

theorem fewer (h : CarriedX strict exempt t) (outstanding : AList (fun _ : Nat => Nat × List Nat))
    (unanswered : Nat → List Nat) (inv : InvX exempt' { t.sched with outstanding })
    (known : ∀ b e, outstanding.lookup b = some e → t.sched.outstanding.lookup b = some e)
    (less : ∀ b, outstanding.lookup b ≠ none → ∀ ci ∈ unanswered b, ci ∈ t.unanswered b)
    (gone : ∀ i l, exempt i l → exempt' i l)
    (left : ∀ b l i, t.Carries b l i → exempt' i l ∨
      Tracked.Carries { sched := { t.sched with outstanding }, unanswered } b l i) :
    CarriedX strict exempt' { sched := { t.sched with outstanding }, unanswered } := by
  have back : ∀ {b l i},
      Tracked.Carries { sched := { t.sched with outstanding }, unanswered } b l i → t.Carries b l i := by
    rintro b l i ⟨⟨cs, found⟩, open_⟩
    exact ⟨⟨cs, known b _ found⟩, less b (fun no => by rw [found] at no; cases no) i open_⟩
  refine { h with inv := inv, within := ?_, carried := ?_, single := ?_, backed := ?_, retried := ?_ }
  · intro b lane cs found ci open_
    exact h.within b lane cs (known b _ found) ci (less b (fun no => by rw [found] at no; cases no) ci open_)
  · exact fun b lane ci carries => h.carried b lane ci (back carries)
  · exact fun b b' lane ci one two => h.single b b' lane ci (back one) (back two)
  · intro i c l found on
    rcases h.backed i c l found on with e | ⟨b, carries⟩
    · exact .inl (gone i l e)
    · rcases left b l i carries with e | carries
      · exact .inl e
      · exact .inr ⟨b, carries⟩
  · rintro i c found p ⟨b, l, cs, at_b, member⟩
    exact h.retried i c found p ⟨b, l, cs, known b _ at_b, member⟩

theorem relabel (h : CarriedX strict exempt t) (chunks : List ChunkState)
    (inv : InvX exempt { t.sched with chunks }) (g : Nat → ChunkState → ChunkState)
    (look : ∀ i, chunks[i]? = (t.sched.chunks[i]?).map (g i))
    (alike : ∀ i c, Alike c (g i c))
    (untouched : strict → ∀ (i : Nat) (c : ChunkState), t.sched.chunks[i]? = some c →
      c.phase = .failed → (g i c).attempts = c.attempts) :
    CarriedX strict exempt { t with sched := { t.sched with chunks } } := by
  have back : ∀ {i d}, chunks[i]? = some d → ∃ c, t.sched.chunks[i]? = some c ∧ d = g i c := by
    intro i d found
    rw [look] at found
    obtain ⟨c, here, rfl⟩ := Option.map_eq_some_iff.mp found
    exact ⟨c, here, rfl⟩
  have phases : chunks.map (·.phase) = t.sched.chunks.map (·.phase) := by
    apply List.ext_getElem?
    intro i
    rw [List.getElem?_map, List.getElem?_map, look, Option.map_map]
    congr 1
    funext c
    exact (alike i c).phase
  refine { h with
    inv := inv, addressed := ?_, waiting := ?_, carried := ?_
    backed := ?_, lone := ?_, retried := ?_, counted := ?_, spent := ?_ }
  · intro i d found
    obtain ⟨c, here, rfl⟩ := back found
    rw [(alike i c).addr]
    exact h.addressed i c here
  · intro ci member
    obtain ⟨c, found, p⟩ := Scheduler.isPending_iff.mp (h.waiting ci member)
    exact Scheduler.isPending_iff.mpr ⟨g ci c, by rw [look, found]; rfl, by rw [(alike ci c).phase, p]⟩
  · intro b lane ci carries d found
    obtain ⟨c, here, rfl⟩ := back found
    rw [Resolved, (alike ci c).phase, (alike ci c).on]
    exact h.carried b lane ci carries c here
  · intro i d l found hl
    obtain ⟨c, here, rfl⟩ := back found
    rw [(alike i c).on] at hl
    exact h.backed i c l here hl
  · intro i d found one
    obtain ⟨c, here, rfl⟩ := back found
    rw [(alike i c).on]
    exact h.lone i c here ((alike i c).hedged one)
  · intro i d found p out
    obtain ⟨c, here, rfl⟩ := back found
    rw [(alike i c).phase] at p
    exact UInt16.lt_of_le_of_lt (alike i c).attempts (h.retried i c here p out)
  · intro exact_
    rw [h.counted exact_]
    have count := congrArg (List.countP fun p => decide (p = .failed)) phases
    simp only [List.countP_map, Function.comp_def] at count
    exact count.symm
  · intro exact_ i d found p
    obtain ⟨c, here, rfl⟩ := back found
    rw [(alike i c).phase] at p
    rw [untouched exact_ i c here p]
    exact h.spent exact_ i c here p

theorem updOne (h : CarriedX strict exempt t) {ci : Nat} {c d : ChunkState}
    (found : t.sched.chunks[ci]? = some c) (pending : List Nat) (acked failed : Nat)
    (inv : InvX exempt' { t.sched.updChunk ci (fun _ => d) with pending, acked, failed })
    (addr : d.addr = c.addr)
    (once : pending.Nodup) (kept : ∀ i ∈ pending, i ≠ ci → i ∈ t.sched.pending)
    (waits : ci ∈ pending → d.phase = .pending)
    (carried : ∀ b l, t.Carries b l ci → Resolved d ∨ (d.phase = .inFlight ∧ l ∈ d.on))
    (backed : ∀ l ∈ d.on, exempt' ci l ∨ ∃ b, t.Carries b l ci)
    (others : ∀ i l, i ≠ ci → exempt i l → exempt' i l)
    (lone : d.hedged = false → d.on.length ≤ 1)
    (retried : d.phase = .pending → d.attempts < t.sched.cfg.maxAttempts)
    (counted : strict → failed + (if c.phase = .failed then 1 else 0) =
      t.sched.failed + (if d.phase = .failed then 1 else 0))
    (spent : strict → d.phase = .failed → d.attempts ≥ t.sched.cfg.maxAttempts) :
    CarriedX strict exempt'
      { t with sched := { t.sched.updChunk ci (fun _ => d) with pending, acked, failed } } := by
  have look : ∀ i e, (t.sched.updChunk ci fun _ => d).chunks[i]? = some e →
      (i = ci ∧ e = d) ∨ (i ≠ ci ∧ t.sched.chunks[i]? = some e) := by
    intro i e at_i
    rw [Scheduler.getElem?_updChunk] at at_i
    by_cases same : ci = i
    · subst same
      rw [found] at at_i
      simp only [if_true, Option.map_some, Option.some.injEq] at at_i
      exact .inl ⟨rfl, at_i.symm⟩
    · simp only [if_neg same, Option.map_id_fun', id_eq] at at_i
      exact .inr ⟨fun e => same e.symm, at_i⟩
  refine { h with
    inv := inv, addressed := ?_, once := once, waiting := ?_, carried := ?_
    backed := ?_, lone := ?_, retried := ?_, counted := ?_, spent := ?_ }
  · intro i e at_i
    rcases look i e at_i with ⟨rfl, rfl⟩ | ⟨_, at_i⟩
    · rw [addr]
      exact h.addressed i c found
    · exact h.addressed i e at_i
  · intro i member
    apply Scheduler.isPending_iff.mpr
    by_cases same : i = ci
    · subst same
      exact ⟨d, Scheduler.found_updChunk found _, waits member⟩
    · obtain ⟨e, at_i, p⟩ := Scheduler.isPending_iff.mp (h.waiting i (kept i member same))
      refine ⟨e, ?_, p⟩
      rw [Scheduler.getElem?_updChunk, at_i]
      simp [Ne.symm same]
  · intro b l i carries e at_i
    rcases look i e at_i with ⟨rfl, rfl⟩ | ⟨_, at_i⟩
    · exact carried b l carries
    · exact h.carried b l i carries e at_i
  · intro i e l at_i hl
    rcases look i e at_i with ⟨rfl, rfl⟩ | ⟨ne, at_i⟩
    · exact backed l hl
    · rcases h.backed i e l at_i hl with x | x
      · exact .inl (others i l ne x)
      · exact .inr x
  · intro i e at_i one
    rcases look i e at_i with ⟨rfl, rfl⟩ | ⟨_, at_i⟩
    · exact lone one
    · exact h.lone i e at_i one
  · intro i e at_i p out
    rcases look i e at_i with ⟨rfl, rfl⟩ | ⟨_, at_i⟩
    · exact retried p
    · exact h.retried i e at_i p out
  · intro exact_
    have count := countP_modify (fun c => decide (c.phase = .failed)) t.sched.chunks ci (fun _ => d) c found
    have before := h.counted exact_
    have change := counted exact_
    simp only [decide_eq_true_eq] at count
    simp only [Scheduler.updChunk]
    omega
  · intro exact_ i e at_i p
    rcases look i e at_i with ⟨rfl, rfl⟩ | ⟨_, at_i⟩
    · exact spent exact_ p
    · exact h.spent exact_ i e at_i p

theorem givenUp (h : CarriedX strict exempt t) {lane ci : Nat} {c : ChunkState} {s : Scheduler F}
    (found : t.sched.chunks[ci]? = some c) (live : ¬Resolved c)
    (out : Scheduler.GivenUp t.sched lane ci c s)
    (less : ∀ i l, exempt i l → (i = ci ∧ l = lane) ∨ exempt' i l)
    (free : ∀ b, ¬t.Carries b lane ci)
    (waits : c.phase = .pending → c.attempts < t.sched.cfg.maxAttempts ∧
      ¬c.on.filter (· ≠ lane) = [])
    (fails : strict → c.phase = .failed → ¬c.on.filter (· ≠ lane) = []) :
    CarriedX strict exempt' { t with sched := s } := by
  have inv := (Scheduler.givenUp_kept found live out less h.inv).1
  have others : ∀ i l, i ≠ ci → exempt i l → exempt' i l :=
    fun i l ne e => (less i l e).resolve_left fun same => ne same.1
  have notDone : c.phase ≠ .done := fun p => live (.inl p)
  have notSkipped : c.phase ≠ .skipped := fun p => live (.inr p)
  -- Whoever still has to answer for the chunk is on another lane, and that lane stays.
  have stays : ∀ {b l}, t.Carries b l ci → c.phase = .inFlight ∧ l ∈ c.on.filter (· ≠ lane) := by
    intro b l carries
    rcases h.carried b l ci carries c found with final | ⟨flying, on⟩
    · exact absurd final live
    · refine ⟨flying, List.mem_filter.mpr ⟨on, decide_eq_true ?_⟩⟩
      rintro rfl
      exact free b carries
  have alone : c.on.filter (· ≠ lane) = [] → ∀ b l, ¬t.Carries b l ci := by
    intro none_ b l carries
    have := (stays carries).2
    rw [none_] at this
    cases this
  have unlisted : c.on.filter (· ≠ lane) = [] → ci ∉ t.sched.pending := by
    intro none_ member
    exact (waits (Scheduler.phase_of_isPending (h.waiting ci member) found)).2 none_
  cases out with
  | carried ne =>
    have flying : c.phase = .inFlight := by
      by_contra no
      rw [h.inv.idle ci c found no] at ne
      exact ne rfl
    apply updOne h found t.sched.pending t.sched.acked t.sched.failed inv rfl h.once
    · exact fun i member _ => member
    · intro member
      change c.phase = .pending
      exact Scheduler.phase_of_isPending (h.waiting ci member) found
    · exact fun b l carries => .inr (stays carries)
    · intro l on
      obtain ⟨on, off⟩ := List.mem_filter.mp on
      rcases h.backed ci c l found on with e | carries
      · exact .inl ((less ci l e).resolve_left fun same => of_decide_eq_true off same.2)
      · exact .inr carries
    · exact others
    · exact fun one => (List.length_filter_le ..).trans (h.lone ci c found one)
    · exact fun p => (waits p).1
    · exact fun _ => rfl
    · exact fun exact_ p => h.spent exact_ ci c found p
  | spent none_ tries =>
    apply updOne h found t.sched.pending t.sched.acked (t.sched.failed + 1) inv rfl h.once
    · exact fun i member _ => member
    · exact fun member => absurd member (unlisted none_)
    · exact fun b l carries => absurd carries (alone none_ b l)
    · exact fun l on => by cases on
    · exact others
    · exact fun _ => Nat.zero_le _
    · exact fun p => by cases p
    · intro exact_
      rw [if_neg fun p => fails exact_ p none_]
      rfl
    · exact fun _ _ => tries
  | queued none_ tries =>
    apply updOne h found (t.sched.pending ++ [ci]) t.sched.acked t.sched.failed inv rfl
    · exact List.nodup_append.mpr ⟨h.once, List.nodup_singleton _, fun i member j single same =>
        unlisted none_ (List.mem_singleton.mp single ▸ same ▸ member)⟩
    · exact fun i member ne => (List.mem_append.mp member).resolve_right
        fun single => ne (List.mem_singleton.mp single)
    · exact fun _ => rfl
    · exact fun b l carries => absurd carries (alone none_ b l)
    · exact fun l on => by cases on
    · exact others
    · exact fun _ => Nat.zero_le _
    · exact fun _ => tries
    · intro exact_
      rw [if_neg fun p => fails exact_ p none_]
      rfl
    · exact fun _ p => by cases p

end CarriedX

end Hoverfly.Sched
