import Hoverfly.Sched.Attempts

/-! What a call does to one chunk. -/
namespace Hoverfly.Sched
open Lib

variable {F : Type}

def ChunkState.judged (outcome : BatchOutcome) (n : Nat) (c : ChunkState) : ChunkState :=
  if outcome = .paymentRequired then Scheduler.refunded^[n] c else c

def Call.GivesBack (s : Scheduler F) (i : Nat) (c : ChunkState) : Call F → Prop
  | .onAck lane addr ok =>
    ok = false ∧ s.index.lookup addr = some i ∧ c.on.filter (· ≠ lane) = [] ∧ c.attempts < s.cfg.maxAttempts
  | .onBatchResult batch outcome _ =>
    ∃ lane cs, s.outstanding.lookup batch = some (lane, cs) ∧ i ∈ cs ∧ c.on.filter (· ≠ lane) = [] ∧
      (c.judged outcome (cs.count i)).attempts < s.cfg.maxAttempts
  | _ => False

def Call.Lands (s : Scheduler F) (i : Nat) (c : ChunkState) : Call F → Prop
  | .onAck _ addr ok => ok = true ∧ s.index.lookup addr = some i ∧ c.phase ≠ .skipped
  | _ => False

structure Turn (back lands : Prop) (c d : ChunkState) : Prop where
  group : d.group = c.group
  hedged : c.hedged = true → d.hedged = true ∨ d.phase = .pending
  waits : d.phase = .pending → c.phase = .pending ∨ back ∧ ¬Resolved c
  landed : d.phase = .done ↔ c.phase = .done ∨ lands

namespace Turn

variable {back lands : Prop} {c d e : ChunkState}

theorem same (group : d.group = c.group) (hedged : c.hedged = true → d.hedged = true) (phase : d.phase = c.phase)
    (none_ : ¬lands) : Turn back lands c d where
  group := group
  hedged marked := .inl (hedged marked)
  waits pending := .inl (phase ▸ pending)
  landed := by simp [phase, none_]

theorem refl (none_ : ¬lands) (c : ChunkState) : Turn back lands c c := same rfl id rfl none_

theorem imp {back' lands' : Prop} (turn : Turn back lands c d) (weaker : back → back') (alike : lands ↔ lands') :
    Turn back' lands' c d where
  group := turn.group
  hedged := turn.hedged
  waits pending := (turn.waits pending).imp id fun ⟨given, live⟩ => ⟨weaker given, live⟩
  landed := turn.landed.trans (or_congr_right alike)

end Turn

namespace Scheduler

theorem admitOne_frame (s : Scheduler F) (chunk : Addr × Nat) :
    ∃ fresh index pending, s.admitOne chunk = { s with chunks := s.chunks ++ fresh, index, pending } ∧
      ∀ c ∈ fresh, c.phase = .pending ∧ c.group = none := by
  unfold admitOne
  split
  · exact ⟨[], s.index, s.pending, by simp, by simp⟩
  · exact ⟨_, _, _, rfl, by simp⟩

theorem admitChunks_frame (s : Scheduler F) (chunks : List (Addr × Nat)) :
    ∃ fresh index pending, (s.admitChunks chunks).1 = { s with chunks := s.chunks ++ fresh, index, pending } ∧
      ∀ c ∈ fresh, c.phase = .pending ∧ c.group = none := by
  unfold admitChunks
  dsimp only
  induction chunks generalizing s with
  | nil => exact ⟨[], s.index, s.pending, by simp, by simp⟩
  | cons chunk rest ih =>
    obtain ⟨first, _, _, grown, new⟩ := s.admitOne_frame chunk
    obtain ⟨more, index, pending, grown', new'⟩ := ih (s.admitOne chunk)
    refine ⟨first ++ more, index, pending, ?_, ?_⟩
    · rw [List.foldl_cons, grown', grown, List.append_assoc]
    · intro c member
      rcases List.mem_append.mp member with member | member
      · exact new c member
      · exact new' c member

theorem mapIdx_marked (gid : Nat) (old fresh : List ChunkState) :
    (old ++ fresh).mapIdx (fun i c =>
      if old.length ≤ i ∧ i < (old ++ fresh).length then { c with group := some gid } else c) =
      old ++ fresh.map fun c => { c with group := some gid } := by
  apply List.ext_getElem?
  intro i
  rw [List.getElem?_mapIdx]
  by_cases before : i < old.length
  · rw [List.getElem?_append_left before, List.getElem?_append_left before]
    simp [Nat.not_le.mpr before]
  · rw [List.getElem?_append_right (by omega), List.getElem?_append_right (by omega), List.getElem?_map]
    apply Option.map_congr
    intro c member
    have inside := (List.getElem?_eq_some_iff.mp (Option.mem_def.mp member)).1
    rw [if_pos]
    rw [List.length_append]
    omega

theorem admitGroup_frame (s : Scheduler F) (chunks : List (Addr × Nat)) (need : UInt16) :
    ∃ fresh index pending, (s.admitGroup chunks need).1 = { s with
        chunks := s.chunks ++ fresh, index, pending, groups := s.groups ++ [{ need, acked := 0 }] } ∧
      ∀ c ∈ fresh, c.phase = .pending ∧ c.group = some (s.groups.length % 2 ^ 32) := by
  obtain ⟨fresh, index, pending, grown, new⟩ :=
    admitChunks_frame { s with groups := s.groups ++ [{ need, acked := 0 }] } chunks
  have admitted : admitChunks { s with groups := s.groups ++ [{ need, acked := 0 }] } chunks =
      ({ s with chunks := s.chunks ++ fresh, index, pending, groups := s.groups ++ [{ need, acked := 0 }] },
        (s.chunks.length, (s.chunks ++ fresh).length)) :=
    Prod.ext grown (congrArg (fun t : Scheduler F => (s.chunks.length, t.chunks.length)) grown)
  refine ⟨fresh.map fun c => { c with group := some (s.groups.length % 2 ^ 32) }, index, pending, ?_, ?_⟩
  · unfold admitGroup
    rw [admitted]
    dsimp only
    rw [mapIdx_marked]
  · intro c member
    obtain ⟨old, inside, rfl⟩ := List.mem_map.mp member
    exact ⟨(new old inside).1, rfl⟩

structure Back (lane : Nat) (max : UInt16) (c d : ChunkState) : Prop where
  group : d.group = c.group
  attempts : d.attempts = c.attempts
  on : d.on.filter (· ≠ lane) = c.on.filter (· ≠ lane)
  phase : d.phase = c.phase ∧ d.hedged = c.hedged ∨ ¬Resolved c ∧ d.hedged = c.hedged ∧ d.phase = .failed ∨
    ¬Resolved c ∧ d.phase = .pending ∧ c.on.filter (· ≠ lane) = [] ∧ c.attempts < max

theorem Back.refl (lane : Nat) (max : UInt16) (c : ChunkState) : Back lane max c c :=
  ⟨rfl, rfl, rfl, .inl ⟨rfl, rfl⟩⟩

variable {lane i : Nat} {c d : ChunkState} {s : Scheduler F}

theorem Back.live {max : UInt16} (back : Back lane max c d) (live : ¬Resolved d) :
    ¬Resolved c := by
  rcases back.phase with ⟨phase, _⟩ | ⟨live', _⟩ | ⟨live', _⟩
  · rwa [Resolved, phase] at live
  · exact live'
  · exact live'

theorem Back.givenUp {t : Scheduler F} (found : s.chunks[i]? = some d)
    (back : Back lane s.cfg.maxAttempts c d) (live : ¬Resolved d) (out : GivenUp s lane i d t) :
    ∃ e, t.chunks[i]? = some e ∧ Back lane s.cfg.maxAttempts c e := by
  cases out with
  | carried some_ =>
    refine ⟨_, found_updChunk found _, back.group, back.attempts, ?_, back.phase⟩
    rw [← back.on, List.filter_filter]
    simp
  | spent none_ spent =>
    refine ⟨_, found_updChunk found _, back.group, back.attempts, (none_.symm.trans back.on), ?_⟩
    rcases back.phase with ⟨_, hedged⟩ | ⟨_, hedged, _⟩ | ⟨_, _, _, left⟩
    · exact .inr (.inl ⟨back.live live, hedged, rfl⟩)
    · exact .inr (.inl ⟨back.live live, hedged, rfl⟩)
    · rw [back.attempts] at spent
      exact absurd left (UInt16.not_lt.mpr spent)
  | queued none_ left =>
    refine ⟨_, found_updChunk found _, back.group, back.attempts, (none_.symm.trans back.on), ?_⟩
    exact .inr (.inr ⟨back.live live, rfl, back.on.symm.trans none_, back.attempts ▸ left⟩)

theorem requeue_other (s : Scheduler F) (lane : Nat) {ci : Nat} (other : ci ≠ i) :
    (requeue lane s ci).chunks[i]? = s.chunks[i]? := by
  cases at_ci : s.chunks[ci]? with
  | none =>
    unfold requeue
    rw [at_ci]
  | some c =>
    obtain ⟨d, chunks, _⟩ := requeue_spec lane at_ci
    rw [chunks, getElem?_updChunk]
    simp [other]

theorem Back.requeue (found : s.chunks[i]? = some d) (back : Back lane s.cfg.maxAttempts c d) (ci : Nat) :
    ∃ e, (requeue lane s ci).chunks[i]? = some e ∧ Back lane s.cfg.maxAttempts c e := by
  by_cases here : ci = i
  · subst here
    rcases requeue_cases lane found with ⟨_, out⟩ | ⟨live, ⟨none_, _, out⟩ | ⟨_, out⟩⟩
    · rw [out]
      exact ⟨d, found, back⟩
    · rw [out]
      exact ⟨_, found_updChunk found _, back.group, back.attempts, none_.symm.trans back.on, back.phase⟩
    · exact back.givenUp found live out
  · exact ⟨d, (requeue_other s lane here).trans found, back⟩

theorem requeue_cfg (s : Scheduler F) (lane ci : Nat) : (requeue lane s ci).cfg = s.cfg := (Steady.requeue lane s ci).cfg

theorem Back.requeueLoop (cs : List Nat) (found : s.chunks[i]? = some d) (back : Back lane s.cfg.maxAttempts c d) :
    ∃ e, (cs.foldl (Scheduler.requeue lane) s).chunks[i]? = some e ∧ Back lane s.cfg.maxAttempts c e := by
  induction cs generalizing s d with
  | nil => exact ⟨d, found, back⟩
  | cons ci rest ih =>
    obtain ⟨e, at_e, more⟩ := back.requeue found ci
    rw [← requeue_cfg s lane ci] at more ⊢
    exact ih at_e more

theorem requeueLoop_other (lane : Nat) (cs : List Nat) (s : Scheduler F) (outside : i ∉ cs) :
    (cs.foldl (requeue lane) s).chunks[i]? = s.chunks[i]? := by
  induction cs generalizing s with
  | nil => rfl
  | cons ci rest ih =>
    have other : ci ≠ i := fun same => outside (same ▸ List.mem_cons_self)
    exact (ih _ fun inside => outside (List.mem_cons_of_mem ci inside)).trans (requeue_other s lane other)

theorem refunded_iterate_eq (c : ChunkState) (n : Nat) :
    refunded^[n] c = { c with attempts := (refunded^[n] c).attempts } := by
  induction n with
  | zero => rfl
  | succ n ih =>
    rw [Function.iterate_succ_apply']
    generalize refunded^[n] c = d at ih
    rw [ih]
    unfold refunded
    split <;> rfl

theorem judged_eq (outcome : BatchOutcome) (n : Nat) (c : ChunkState) :
    c.judged outcome n = { c with attempts := (c.judged outcome n).attempts } := by
  unfold ChunkState.judged
  split
  · exact refunded_iterate_eq c n
  · rfl

theorem settleLane_chunks (s : Scheduler F) (lane : Nat) (cs : List Nat) (outcome : BatchOutcome) (nowMs i : Nat) :
    (s.settleLane lane cs outcome nowMs).cfg = s.cfg ∧
      (s.settleLane lane cs outcome nowMs).chunks[i]? =
        (s.chunks[i]?).map (ChunkState.judged outcome (cs.count i)) := by
  cases outcome with
  | paymentRequired =>
    obtain ⟨cfg, _, _, chunks⟩ := s.settleLane_unpaid lane cs nowMs
    exact ⟨cfg, chunks i⟩
  | answered =>
    unfold settleLane
    dsimp only
    split
    · exact ⟨rfl, (congrFun Option.map_id s.chunks[i]?).symm⟩
    · exact ⟨rfl, (congrFun Option.map_id s.chunks[i]?).symm⟩
  | failed error => exact ⟨rfl, (congrFun Option.map_id s.chunks[i]?).symm⟩

theorem Back.turn {max : UInt16} (back : Back lane max c d) :
    Turn (c.on.filter (· ≠ lane) = [] ∧ c.attempts < max) False c d where
  group := back.group
  hedged marked := by
    rcases back.phase with ⟨_, hedged⟩ | ⟨_, hedged, _⟩ | ⟨_, phase, _⟩
    · exact .inl (hedged.trans marked)
    · exact .inl (hedged.trans marked)
    · exact .inr phase
  waits pending := by
    rcases back.phase with ⟨phase, _⟩ | ⟨_, _, phase⟩ | ⟨live, _, given⟩
    · exact .inl (phase ▸ pending)
    · rw [phase] at pending
      cases pending
    · exact .inr ⟨given, live⟩
  landed := by
    rcases back.phase with ⟨phase, _⟩ | ⟨live, _, phase⟩ | ⟨live, phase, _⟩
    · simp [phase]
    · have open_ : c.phase ≠ .done := fun h => live (.inl h)
      simp [phase, open_]
    · have open_ : c.phase ≠ .done := fun h => live (.inl h)
      simp [phase, open_]

theorem onBatchResult_turn (found : s.chunks[i]? = some c) (batch : Nat) (outcome : BatchOutcome) (nowMs : Nat) :
    ∃ d, (s.onBatchResult batch outcome nowMs).chunks[i]? = some d ∧
      Turn ((Call.onBatchResult (F := F) batch outcome nowMs).GivesBack s i c) False c d := by
  cases carried : s.outstanding.lookup batch with
  | none =>
    refine ⟨c, ?_, .refl id c⟩
    unfold onBatchResult
    rw [carried]
    exact found
  | some entry =>
    obtain ⟨lane, cs⟩ := entry
    rw [onBatchResult_eq carried]
    obtain ⟨cfg, settled⟩ := (s.erased batch lane).settleLane_chunks lane cs outcome nowMs i
    obtain ⟨attempts, same⟩ : ∃ attempts, c.judged outcome (cs.count i) = { c with attempts } := ⟨_, judged_eq ..⟩
    have at_i : ((s.erased batch lane).settleLane lane cs outcome nowMs).chunks[i]? = some { c with attempts } := by
      rw [settled, ← same]
      exact congrArg (Option.map _) found
    by_cases inside : i ∈ cs
    · obtain ⟨d, at_d, back⟩ := Back.requeueLoop cs at_i (Back.refl lane _ { c with attempts })
      rw [cfg] at back
      obtain ⟨group, hedged, waits, landed⟩ := back.turn
      have turn : Turn (c.on.filter (· ≠ lane) = [] ∧ attempts < s.cfg.maxAttempts) False c d :=
        ⟨group, hedged, waits, landed⟩
      refine ⟨d, at_d, turn.imp (fun ⟨none_, left⟩ => ⟨lane, cs, carried, inside, none_, ?_⟩) .rfl⟩
      rw [same]
      exact left
    · exact ⟨_, (requeueLoop_other lane cs _ inside).trans at_i, .same rfl id rfl id⟩

theorem onGroupAck_chunk (found : s.chunks[i]? = some c) (ci : Nat) :
    ∃ d, (s.onGroupAck ci).chunks[i]? = some d ∧
      (d = c ∨ c.phase = .pending ∧ d = { c with phase := .skipped }) := by
  unfold onGroupAck
  split
  · exact ⟨c, found, .inl rfl⟩
  split
  · exact ⟨c, found, .inl rfl⟩
  rename_i gid _
  dsimp only
  split
  · exact ⟨c, found, .inl rfl⟩
  · dsimp only
    rw [List.getElem?_map, found]
    by_cases dropped : c.group = some gid ∧ c.phase = .pending
    · exact ⟨_, rfl, .inr ⟨dropped.2, if_pos (decide_eq_true dropped)⟩⟩
    · exact ⟨_, rfl, .inl (if_neg fun h => dropped (of_decide_eq_true h))⟩

theorem nack_other (s : Scheduler F) (lane : Nat) {ci : Nat} (other : ci ≠ i) :
    (s.nack lane ci).chunks[i]? = s.chunks[i]? := by
  cases at_ci : s.chunks[ci]? with
  | none =>
    unfold nack
    dsimp only
    rw [getElem?_updChunk, at_ci]
    dsimp only [Option.map_none]
    rw [getElem?_updChunk]
    simp [other]
  | some c =>
    have out : GivenUp s lane ci c (s.nack lane ci) := nack_cases at_ci
    generalize s.nack lane ci = t at out
    cases out with
    | carried | spent | queued =>
      change (s.updChunk ci _).chunks[i]? = _
      rw [getElem?_updChunk]
      simp [other]

theorem skip_turn {back lands : Prop} (none_ : ¬lands)
    (skip : d = c ∨ c.phase = .pending ∧ d = { c with phase := .skipped }) : Turn back lands c d := by
  rcases skip with rfl | ⟨pending, rfl⟩
  · exact .refl none_ _
  · exact ⟨rfl, .inl, nofun, by simp [pending, none_]⟩

theorem onAck_turn (found : s.chunks[i]? = some c) (lane : Nat) (addr : Addr) (ok : Bool) :
    ∃ d, (s.onAck lane addr ok).chunks[i]? = some d ∧
      Turn ((Call.onAck (F := F) lane addr ok).GivesBack s i c) ((Call.onAck (F := F) lane addr ok).Lands s i c) c d := by
  cases known : s.index.lookup addr with
  | none =>
    refine ⟨c, ?_, .refl (fun h => by cases known.symm.trans h.2.1) c⟩
    unfold onAck
    rw [known]
    exact found
  | some ci =>
    by_cases here : ci = i
    · subst here
      rcases onAck_cases lane known found ok with ⟨final, out⟩ | ⟨live, f, out⟩
      · rw [out]
        refine ⟨c, found, rfl, .inl, .inl, .inl, fun h => h.elim id fun lands => ?_⟩
        exact final.resolve_right lands.2.2
      · rw [out]
        cases ok with
        | false =>
          rw [if_neg Bool.false_ne_true]
          have dropped := (Back.refl lane (s.updLane lane f).cfg.maxAttempts c).givenUp
            (s := s.updLane lane f) found live (nack_cases found)
          obtain ⟨d, at_d, back⟩ := dropped
          refine ⟨d, at_d, back.turn.imp (fun ⟨none_, left⟩ => ⟨rfl, known, none_, left⟩) ?_⟩
          simp [Call.Lands]
        | true =>
          rw [if_pos rfl]
          have at_done : ((s.settleAck ci c).updLane lane f).chunks[ci]? =
              some { c with phase := .done, on := [] } := found_updChunk found _
          obtain ⟨d, at_d, same | ⟨waits, _⟩⟩ := onGroupAck_chunk at_done ci
          · subst same
            refine ⟨_, at_d, rfl, .inl, nofun, ?_⟩
            have lands : (Call.onAck (F := F) lane addr true).Lands s ci c := ⟨rfl, known, fun h => live (.inr h)⟩
            simp [lands]
          · cases waits
    · have none_ : ¬(Call.onAck (F := F) lane addr ok).Lands s i c :=
        fun h => here (Option.some.inj (known.symm.trans h.2.1))
      cases at_ci : s.chunks[ci]? with
      | none =>
        refine ⟨c, ?_, .refl none_ c⟩
        unfold onAck
        rw [known]
        dsimp only
        rw [at_ci]
        exact found
      | some c' =>
        rcases onAck_cases lane known at_ci ok with ⟨_, out⟩ | ⟨_, f, out⟩
        · rw [out]
          exact ⟨c, found, .refl none_ c⟩
        · rw [out]
          cases ok with
          | false => exact ⟨c, (nack_other _ lane here).trans found, .refl none_ c⟩
          | true =>
            have at_i : ((s.settleAck ci c').updLane lane f).chunks[i]? = some c := by
              change (s.updChunk ci _).chunks[i]? = _
              rw [getElem?_updChunk, found]
              simp [here]
            obtain ⟨d, at_d, skip⟩ := onGroupAck_chunk at_i ci
            exact ⟨d, at_d, skip_turn none_ skip⟩

theorem dispatchChunk_iterate (lane nowMs : Nat) (hedge : Bool) (n : Nat) (c : ChunkState) :
    let d := (dispatchChunk lane hedge nowMs)^[n] c
    d.group = c.group ∧ d.hedged = c.hedged ∧
      (d.phase = c.phase ∨ hedge = false ∧ 0 < n ∧ d.phase = .inFlight) := by
  induction n with
  | zero => exact ⟨rfl, rfl, .inl rfl⟩
  | succ n ih =>
    rw [Function.iterate_succ_apply']
    obtain ⟨group, hedged, phase⟩ := ih
    cases hedge with
    | false => exact ⟨group, hedged, .inr ⟨rfl, Nat.succ_pos n, rfl⟩⟩
    | true => exact ⟨group, hedged, phase.imp id fun ⟨no, _⟩ => nomatch no⟩

theorem markedHedged_iterate (n : Nat) (c : ChunkState) :
    let d := (fun c : ChunkState => { c with hedged := true })^[n] c
    d.group = c.group ∧ d.phase = c.phase ∧ (c.hedged = true → d.hedged = true) := by
  induction n with
  | zero => exact ⟨rfl, rfl, id⟩
  | succ n ih =>
    rw [Function.iterate_succ_apply']
    exact ⟨ih.1, ih.2.1, fun _ => rfl⟩

theorem next_turn [F64 F] (found : s.chunks[i]? = some c) (nowMs : Nat) (iter : List Nat) :
    ∃ d, (s.next nowMs iter).1.chunks[i]? = some d ∧ Turn False False c d := by
  rcases next_cases s nowMs iter with out | ⟨lane, picked, out, _⟩ | ⟨lane, picked, out, _, _, sub⟩
  · rw [out]
    exact ⟨c, found, .refl id c⟩
  · rw [out]
    dsimp only
    rw [(dispatch_view ..).1, foldl_updChunk_iterate, markHedged, foldl_updChunk_iterate]
    change ∃ d, Option.map _ (Option.map _ s.chunks[i]?) = some d ∧ _
    rw [found]
    refine ⟨_, rfl, ?_⟩
    obtain ⟨group, phase, hedged⟩ := markedHedged_iterate (picked.count i) c
    generalize (fun c : ChunkState => { c with hedged := true })^[picked.count i] c = d at group phase hedged ⊢
    obtain ⟨group', hedged', phase'⟩ := dispatchChunk_iterate lane nowMs true (picked.count i) d
    have stays := phase'.resolve_right fun ⟨no, _⟩ => nomatch no
    exact .same (group'.trans group) (fun marked => hedged'.trans (hedged marked)) (stays.trans phase) id
  · rw [out]
    dsimp only
    rw [(dispatch_view ..).1, foldl_updChunk_iterate]
    change ∃ d, Option.map _ s.chunks[i]? = some d ∧ _
    rw [found]
    refine ⟨_, rfl, ?_⟩
    obtain ⟨group, hedged, phase⟩ := dispatchChunk_iterate lane nowMs false (picked.count i) c
    rcases phase with phase | ⟨_, member, phase⟩
    · exact .same group (fun marked => hedged.trans marked) phase id
    · -- Only a waiting chunk is picked, and it flies now.
      have pending := (List.mem_filter.mp (sub.subset (List.count_pos_iff.mp member))).2
      have waits := phase_of_isPending pending found
      exact ⟨group, fun marked => .inl (hedged.trans marked), fun _ => .inl waits, by simp [phase, waits]⟩

end Scheduler

def Scheduler.credited (s : Scheduler F) (gid : Option Nat) : List GroupState :=
  if s.policy = .group then
    gid.elim s.groups fun gid => s.groups.modify gid fun g => { g with acked := g.acked + 1 }
  else s.groups

def Call.credits (s : Scheduler F) : Call F → Option Nat
  | .onAck _ addr true => ((s.index.lookup addr).bind (s.chunks[·]?)).bind fun c => if Resolved c then none else c.group
  | _ => none

namespace Scheduler

variable (s : Scheduler F)

theorem credited_none : s.credited none = s.groups := by
  unfold credited
  split <;> rfl

def fixed (s : Scheduler F) : Config F × CompletionPolicy × Nat × Nat × List GroupState :=
  (s.cfg, s.policy, s.hedgesUsed, s.chunks.length, s.groups)

theorem fixed_updChunk (ci : Nat) (f : ChunkState → ChunkState) : (s.updChunk ci f).fixed = s.fixed := by
  unfold fixed updChunk
  rw [List.length_modify]

theorem nack_fixed (lane ci : Nat) : (s.nack lane ci).fixed = s.fixed := by
  have left := s.fixed_updChunk ci fun c => { c with on := c.on.filter (· ≠ lane) }
  unfold nack
  dsimp only
  split
  · exact left
  · split
    · exact left
    · split
      · exact (fixed_updChunk _ ci _).trans left
      · exact (fixed_updChunk _ ci _).trans left

theorem onGroupAck_fixed (ci : Nat) :
    (s.onGroupAck ci).fixed =
      (s.cfg, s.policy, s.hedgesUsed, s.chunks.length, s.credited ((s.chunks[ci]?).bind (·.group))) := by
  unfold onGroupAck
  split
  · rename_i other
    rw [credited, if_neg other]
    rfl
  · rename_i grouped
    rw [credited, if_pos (not_not.mp grouped)]
    split
    · rename_i none_
      rw [none_]
      rfl
    · rename_i gid some_
      rw [some_]
      dsimp only
      split
      · rfl
      · unfold fixed
        rw [List.length_map]
        rfl

theorem onAck_fixed (lane : Nat) (addr : Addr) (ok : Bool) :
    (s.onAck lane addr ok).fixed = (s.cfg, s.policy, s.hedgesUsed, s.chunks.length,
      s.credited ((Call.onAck (F := F) lane addr ok).credits s)) := by
  have still (none_ : (Call.onAck (F := F) lane addr ok).credits s = none) : s.fixed =
      (s.cfg, s.policy, s.hedgesUsed, s.chunks.length, s.credited ((Call.onAck (F := F) lane addr ok).credits s)) := by
    rw [none_, credited_none]
    rfl
  cases known : s.index.lookup addr with
  | none =>
    rw [onAck, known]
    refine still ?_
    cases ok <;> simp [Call.credits, known]
  | some ci =>
    cases found : s.chunks[ci]? with
    | none =>
      rw [onAck, known]
      dsimp only
      rw [found]
      refine still ?_
      cases ok <;> simp [Call.credits, known, found]
    | some c =>
      rcases onAck_cases lane known found ok with ⟨final, out⟩ | ⟨live, f, out⟩
      · rw [out]
        refine still ?_
        cases ok <;> simp [Call.credits, known, found, final]
      · rw [out]
        cases ok with
        | false => exact (nack_fixed _ lane ci).trans (still rfl)
        | true =>
          have at_done : ((s.settleAck ci c).updLane lane f).chunks[ci]? = some { c with phase := .done, on := [] } :=
            found_updChunk found _
          have length := congrArg (·.2.2.2.1) (s.fixed_updChunk ci fun _ => { c with phase := .done, on := [] })
          refine (onGroupAck_fixed _ ci).trans ?_
          rw [at_done]
          have credits : (Call.onAck (F := F) lane addr true).credits s = c.group := by
            simp [Call.credits, known, found, live]
          rw [credits]
          exact congrArg (fun n => (s.cfg, s.policy, s.hedgesUsed, n, s.credited c.group)) length

theorem requeue_fixed (lane ci : Nat) : (requeue lane s ci).fixed = s.fixed := by
  cases found : s.chunks[ci]? with
  | none =>
    unfold requeue
    rw [found]
  | some c =>
    rcases requeue_cases lane found with ⟨_, out⟩ | ⟨_, ⟨_, _, out⟩ | ⟨_, out⟩⟩
    · rw [out]
    · rw [out, fixed_updChunk]
    · generalize requeue lane s ci = t at out
      cases out with
      | carried | spent | queued => exact fixed_updChunk s ci _

theorem onBatchResult_fixed (batch : Nat) (outcome : BatchOutcome) (nowMs : Nat) :
    (s.onBatchResult batch outcome nowMs).fixed = s.fixed := by
  have loop : ∀ (f : Scheduler F → Nat → Scheduler F), (∀ t ci, (f t ci).fixed = t.fixed) →
      ∀ (cs : List Nat) (t : Scheduler F), (cs.foldl f t).fixed = t.fixed := by
    intro f one cs
    induction cs with
    | nil => exact fun t => rfl
    | cons ci rest ih => exact fun t => (ih (f t ci)).trans (one t ci)
  unfold onBatchResult
  split
  · rfl
  · rename_i lane cs _
    refine (loop _ (fun t ci => requeue_fixed t lane ci) cs _).trans ?_
    unfold settleLane
    cases outcome with
    | paymentRequired => exact loop _ (fun t ci => fixed_updChunk t ci _) cs _
    | answered =>
      dsimp only
      split <;> rfl
    | failed error => rfl

theorem dispatch_fixed (lane : Nat) (picked : List Nat) (hedge : Bool) (nowMs : Nat) :
    (s.dispatch lane picked hedge nowMs).1.fixed = s.fixed := by
  obtain ⟨length, frame⟩ := foldl_updChunk_frame (dispatchChunk lane hedge nowMs) picked s
  unfold dispatch
  dsimp only at length frame ⊢
  generalize picked.foldl (fun t ci => t.updChunk ci (dispatchChunk lane hedge nowMs)) s = t at length frame
  have same : t.fixed = s.fixed := by
    rw [frame, fixed, fixed, length]
  cases hedge with
  | true => exact same
  | false => exact same

theorem next_fixed [F64 F] (nowMs : Nat) (iter : List Nat) :
    (s.next nowMs iter).1.fixed = (s.cfg, s.policy,
      s.hedgesUsed + ((s.next nowMs iter).2.elim 0 fun a => if a.hedge then a.chunks.length else 0),
      s.chunks.length, s.groups) := by
  rcases next_cases s nowMs iter with out | ⟨lane, picked, out, _⟩ | ⟨lane, picked, out, _⟩
  · rw [out]
    rfl
  · rw [out]
    refine (dispatch_fixed ..).trans ?_
    obtain ⟨length, frame⟩ := foldl_updChunk_frame (fun c => { c with hedged := true }) picked
      { s.expireBackoffs nowMs with hedgesUsed := (s.expireBackoffs nowMs).hedgesUsed + picked.length }
    unfold markHedged
    rw [frame, fixed, length]
    rfl
  · rw [out]
    exact dispatch_fixed ..

end Scheduler

def Call.hedges [F64 F] (s : Scheduler F) : Call F → Nat
  | .next nowMs iter => (s.next nowMs iter).2.elim 0 fun a => if a.hedge then a.chunks.length else 0
  | _ => 0

def Call.groups (s : Scheduler F) : Call F → List GroupState
  | .admitGroup _ need => s.groups ++ [{ need, acked := 0 }]
  | .onAck lane addr ok => s.credited ((Call.onAck (F := F) lane addr ok).credits s)
  | _ => s.groups

theorem Call.fixed_apply [F64 F] (s : Scheduler F) (call : Call F) : ∃ admitted, (call.apply s).fixed =
    (s.cfg, s.policy, s.hedgesUsed + call.hedges s, s.chunks.length + admitted, call.groups s) := by
  cases call with
  | admitChunks chunks =>
    obtain ⟨fresh, _, _, out, _⟩ := s.admitChunks_frame chunks
    rw [Call.apply, out, Scheduler.fixed, List.length_append]
    exact ⟨_, rfl⟩
  | admitGroup chunks need =>
    obtain ⟨fresh, _, _, out, _⟩ := s.admitGroup_frame chunks need
    rw [Call.apply, out, Scheduler.fixed, List.length_append]
    exact ⟨_, rfl⟩
  | next nowMs iter => exact ⟨0, s.next_fixed nowMs iter⟩
  | onAck lane addr ok => exact ⟨0, s.onAck_fixed lane addr ok⟩
  | onBatchResult batch outcome nowMs => exact ⟨0, s.onBatchResult_fixed batch outcome nowMs⟩
  | onBatchTiming | setLaneInfo | setLaneBatchMax | fundLane | retireLane => exact ⟨0, rfl⟩

theorem Call.turn [F64 F] {s : Scheduler F} {i : Nat} {c : ChunkState} (found : s.chunks[i]? = some c) (call : Call F) :
    ∃ d, (call.apply s).chunks[i]? = some d ∧ Turn (call.GivesBack s i c) (call.Lands s i c) c d := by
  have inside : i < s.chunks.length := (List.getElem?_eq_some_iff.mp found).1
  cases call with
  | admitChunks chunks =>
    obtain ⟨fresh, _, _, grown, _⟩ := s.admitChunks_frame chunks
    exact ⟨c, by rw [Call.apply, grown, List.getElem?_append_left inside, found], .refl id c⟩
  | admitGroup chunks need =>
    obtain ⟨fresh, _, _, grown, _⟩ := s.admitGroup_frame chunks need
    exact ⟨c, by rw [Call.apply, grown, List.getElem?_append_left inside, found], .refl id c⟩
  | next nowMs iter => exact Scheduler.next_turn found nowMs iter
  | onAck lane addr ok => exact Scheduler.onAck_turn found lane addr ok
  | onBatchResult batch outcome nowMs => exact Scheduler.onBatchResult_turn found batch outcome nowMs
  | onBatchTiming | setLaneInfo | setLaneBatchMax | fundLane | retireLane => exact ⟨c, found, .refl id c⟩

theorem Call.fresh [F64 F] {s : Scheduler F} {call : Call F} {i : Nat} {d : ChunkState} (new : s.chunks.length ≤ i)
    (found : (call.apply s).chunks[i]? = some d) :
    d.phase = .pending ∧ (d.group = none ∨
      ∃ chunks need, call = .admitGroup chunks need ∧ d.group = some (s.groups.length % 2 ^ 32)) := by
  have inside := (List.getElem?_eq_some_iff.mp found).1
  have grows (same : (call.apply s).fixed.2.2.2.1 = s.chunks.length) : False :=
    absurd inside (Nat.not_lt.mpr (same.trans_le new))
  cases call with
  | admitChunks chunks =>
    obtain ⟨fresh, _, _, grown, waits⟩ := s.admitChunks_frame chunks
    rw [Call.apply, grown, List.getElem?_append_right new] at found
    obtain ⟨pending, group⟩ := waits d (List.mem_of_getElem? found)
    exact ⟨pending, .inl group⟩
  | admitGroup chunks need =>
    obtain ⟨fresh, _, _, grown, waits⟩ := s.admitGroup_frame chunks need
    rw [Call.apply, grown, List.getElem?_append_right new] at found
    obtain ⟨pending, group⟩ := waits d (List.mem_of_getElem? found)
    exact ⟨pending, .inr ⟨chunks, need, rfl, group⟩⟩
  | next nowMs iter => exact (grows (congrArg (·.2.2.2.1) (s.next_fixed nowMs iter))).elim
  | onAck lane addr ok => exact (grows (congrArg (·.2.2.2.1) (s.onAck_fixed lane addr ok))).elim
  | onBatchResult batch outcome nowMs =>
    exact (grows (congrArg (·.2.2.2.1) (s.onBatchResult_fixed batch outcome nowMs))).elim
  | onBatchTiming | setLaneInfo | setLaneBatchMax | fundLane | retireLane => exact (grows rfl).elim

end Hoverfly.Sched
