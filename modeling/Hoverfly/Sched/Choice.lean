import Hoverfly.Lib.Fold
import Hoverfly.Sched.Scheduler

/-! What one call of `next` can hand out. Later proofs use these facts and never
unfold the selection loops. -/
namespace Hoverfly.Sched
open Lib

theorem lastMaxBy_mem {A : Type} (key : A → Nat) (xs : List A) (x : A)
    (found : lastMaxBy key xs = some x) : x ∈ xs := by
  unfold lastMaxBy at found
  apply foldl_candidate (· ∈ xs) _ xs none (by simp) _ x found
  intro best y hy prior b hb
  cases best with
  | none => cases hb; exact hy
  | some z =>
    dsimp only at hb
    split at hb
    · cases hb; exact hy
    · exact prior b hb

namespace Scheduler

variable {F : Type} {s : Scheduler F} {nowMs l ci lane : Nat} {c : ChunkState} {eligible iter : List Nat}

theorem mem_eligibleLanes :
    l ∈ s.eligibleLanes nowMs ↔ ∃ lane, s.lanes[l]? = some lane ∧ lane.eligible nowMs = true := by
  unfold eligibleLanes
  rw [List.mem_filter, List.mem_range]
  constructor
  · rintro ⟨_, h⟩
    cases found : s.lanes[l]? with
    | none => simp [found] at h
    | some lane => exact ⟨lane, rfl, by simpa [found] using h⟩
  · rintro ⟨lane, found, e⟩
    exact ⟨(List.getElem?_eq_some_iff.mp found).1, by simpa [found] using e⟩

theorem lt_of_mem_eligibleLanes (h : l ∈ s.eligibleLanes nowMs) :
    l < s.lanes.length := by
  obtain ⟨lane, found, _⟩ := mem_eligibleLanes.mp h
  exact (List.getElem?_eq_some_iff.mp found).1

theorem mem_freeLanes :
    l ∈ s.freeLanes nowMs ↔ l ∈ s.eligibleLanes nowMs ∧ s.hasRoom l = true := by
  unfold freeLanes
  rw [List.mem_filter]

theorem isPending_iff :
    s.isPending ci = true ↔ ∃ c, s.chunks[ci]? = some c ∧ c.phase = .pending := by
  unfold isPending phase?
  rw [decide_eq_true_iff]
  exact Option.map_eq_some_iff

theorem phase_of_isPending (waits : s.isPending ci = true)
    (found : s.chunks[ci]? = some c) : c.phase = .pending := by
  obtain ⟨c', found', pending⟩ := isPending_iff.mp waits
  cases found.symm.trans found'
  exact pending

theorem updChunk_const (found : s.chunks[ci]? = some c)
    (f : ChunkState → ChunkState) : s.updChunk ci f = s.updChunk ci fun _ => f c := by
  unfold updChunk
  congr 1
  apply List.ext_getElem?
  intro i
  rw [List.getElem?_modify, List.getElem?_modify]
  by_cases same : ci = i
  · subst same
    rw [found]
    rfl
  · simp [same]

theorem updChunk_self (found : s.chunks[ci]? = some c) :
    s.updChunk ci (fun _ => c) = s := by
  have same := updChunk_const found id
  rw [updChunk, List.modify_id] at same
  exact same.symm

theorem updChunk_updChunk (s : Scheduler F) (ci : Nat) (f g : ChunkState → ChunkState) :
    (s.updChunk ci f).updChunk ci g = s.updChunk ci fun c => g (f c) := by
  unfold updChunk
  congr 1
  exact List.modify_modify_eq ..

theorem found_updChunk (found : s.chunks[ci]? = some c)
    (f : ChunkState → ChunkState) : (s.updChunk ci f).chunks[ci]? = some (f c) := by
  rw [updChunk, List.getElem?_modify, found]
  simp

/-- A lane gives a chunk up: another lane still carries it, or its attempts are spent, or it
is queued again. -/
inductive GivenUp (s : Scheduler F) (lane ci : Nat) (c : ChunkState) : Scheduler F → Prop where
  | carried : c.on.filter (· ≠ lane) ≠ [] →
      GivenUp s lane ci c (s.updChunk ci fun _ => { c with on := c.on.filter (· ≠ lane) })
  | spent : c.on.filter (· ≠ lane) = [] → c.attempts ≥ s.cfg.maxAttempts →
      GivenUp s lane ci c
        { s.updChunk ci (fun _ => { c with on := [], phase := .failed }) with failed := s.failed + 1 }
  | queued : c.on.filter (· ≠ lane) = [] → c.attempts < s.cfg.maxAttempts →
      GivenUp s lane ci c
        { s.updChunk ci (fun _ => { c with on := [], phase := .pending, hedged := false }) with
          pending := s.pending ++ [ci] }

theorem updChunk_twice (found : s.chunks[ci]? = some c) (f g : ChunkState → ChunkState) :
    (s.updChunk ci f).updChunk ci g = s.updChunk ci fun _ => g (f c) := by
  rw [updChunk_updChunk, updChunk_const found]

theorem nack_cases (found : s.chunks[ci]? = some c) : GivenUp s lane ci c (s.nack lane ci) := by
  unfold nack
  dsimp only
  rw [found_updChunk found]
  dsimp only
  by_cases carried : c.on.filter (· ≠ lane) = []
  · rw [if_neg (not_not.mpr carried)]
    split
    · rename_i spent
      rw [updChunk_twice found, carried]
      exact GivenUp.spent (s := s) carried spent
    · rename_i left
      rw [updChunk_twice found, carried]
      exact GivenUp.queued (s := s) carried (UInt16.not_le.mp left)
  · rw [if_pos carried, updChunk_const found]
    exact .carried carried

theorem requeue_cases (lane : Nat) (found : s.chunks[ci]? = some c) :
    ((c.phase = .done ∨ c.phase = .skipped) ∧ requeue lane s ci = s) ∨
    (¬(c.phase = .done ∨ c.phase = .skipped) ∧
      ((c.on.filter (· ≠ lane) = [] ∧
          (c.phase = .failed ∧ c.attempts ≥ s.cfg.maxAttempts ∨
            c.phase = .pending ∧ c.attempts < s.cfg.maxAttempts) ∧
          requeue lane s ci = s.updChunk ci fun _ => { c with on := [] }) ∨
        ((c.on.filter (· ≠ lane) = [] → (c.phase = .failed → c.attempts < s.cfg.maxAttempts) ∧
            (c.phase = .pending → c.attempts ≥ s.cfg.maxAttempts)) ∧
          GivenUp s lane ci c (requeue lane s ci)))) := by
  unfold requeue
  rw [found]
  dsimp only
  by_cases resolved : c.phase = .done ∨ c.phase = .skipped
  · rw [if_pos (by simp [unresolved, resolved])]
    exact .inl ⟨resolved, rfl⟩
  rw [if_neg (by simp [unresolved, resolved])]
  refine .inr ⟨resolved, ?_⟩
  by_cases carried : c.on.filter (· ≠ lane) = []
  · rw [if_neg (not_not.mpr carried)]
    split
    · rename_i spent
      split
      · rename_i failed
        refine .inr ⟨fun _ => ⟨fun p => absurd p failed, fun _ => spent⟩, ?_⟩
        rw [updChunk_twice found, carried]
        exact GivenUp.spent (s := s) carried spent
      · rename_i failed
        exact .inl ⟨carried, .inl ⟨not_not.mp failed, spent⟩, by rw [updChunk_const found, carried]⟩
    · rename_i left
      split
      · rename_i pending
        refine .inr ⟨fun _ => ⟨fun _ => UInt16.not_le.mp left, fun p => absurd p pending⟩, ?_⟩
        rw [updChunk_twice found, carried]
        exact GivenUp.queued (s := s) carried (UInt16.not_le.mp left)
      · rename_i pending
        exact .inl ⟨carried, .inr ⟨not_not.mp pending, UInt16.not_le.mp left⟩,
          by rw [updChunk_const found, carried]⟩
  · rw [if_pos carried, updChunk_const found]
    exact .inr ⟨fun none_ => absurd none_ carried, .carried carried⟩

theorem requeue_spec (lane : Nat) (found : s.chunks[ci]? = some c) :
    ∃ d, (requeue lane s ci).chunks = (s.updChunk ci fun _ => d).chunks ∧
      (requeue lane s ci).outstanding = s.outstanding ∧ (requeue lane s ci).cfg = s.cfg ∧
      d.attempts = c.attempts ∧
      ((c.phase = .done ∨ c.phase = .skipped) ∧ d = c ∨
        ¬(c.phase = .done ∨ c.phase = .skipped) ∧ ¬(d.phase = .done ∨ d.phase = .skipped) ∧
          d.on = c.on.filter (· ≠ lane) ∧
          (d.phase = .pending → c.phase = .pending ∨ c.attempts < s.cfg.maxAttempts)) := by
  rcases requeue_cases lane found with ⟨final, out⟩ | ⟨live, ⟨none_, _, out⟩ | ⟨_, out⟩⟩
  · rw [out]
    exact ⟨c, by rw [updChunk_self found], rfl, rfl, rfl, .inl ⟨final, rfl⟩⟩
  · rw [out]
    exact ⟨_, rfl, rfl, rfl, rfl, .inr ⟨live, live, none_.symm, .inl⟩⟩
  · generalize requeue lane s ci = t at out
    cases out with
    | carried ne => exact ⟨_, rfl, rfl, rfl, rfl, .inr ⟨live, live, rfl, .inl⟩⟩
    | spent none_ _ =>
      exact ⟨_, rfl, rfl, rfl, rfl, .inr ⟨live, by simp, none_.symm, fun p => by cases p⟩⟩
    | queued none_ left => exact ⟨_, rfl, rfl, rfl, rfl, .inr ⟨live, by simp, none_.symm, fun _ => .inr left⟩⟩

def settleAck (s : Scheduler F) (ci : Nat) (c : ChunkState) : Scheduler F :=
  { s.updChunk ci (fun _ => { c with phase := .done, on := [] }) with acked := s.acked + 1 }

theorem onAck_cases (lane : Nat) {addr : Addr}
    (known : s.index.lookup addr = some ci) (found : s.chunks[ci]? = some c) (ok : Bool) :
    ((c.phase = .done ∨ c.phase = .skipped) ∧ s.onAck lane addr ok = s) ∨
    (¬(c.phase = .done ∨ c.phase = .skipped) ∧ ∃ f, s.onAck lane addr ok =
      if ok then ((s.settleAck ci c).updLane lane f).onGroupAck ci else (s.updLane lane f).nack lane ci) := by
  unfold onAck
  rw [known]
  dsimp only
  rw [found]
  dsimp only
  by_cases final : c.phase = .done ∨ c.phase = .skipped
  · rw [if_pos final]
    exact .inl ⟨final, rfl⟩
  · rw [if_neg final]
    refine .inr ⟨final, ?_⟩
    cases ok with
    | false => exact ⟨_, rfl⟩
    | true =>
      refine ⟨fun l => { l with ackedTotal := l.ackedTotal + 1, bytesTotal := l.bytesTotal + c.size }, ?_⟩
      rw [updChunk_const found]
      rfl

variable [F64 F]

theorem rankNth_mem {n : Nat} (h : s.rankNth ci eligible n = some l) : l ∈ eligible := by
  unfold rankNth at h
  obtain ⟨p, hp, rfl⟩ := Option.map_eq_some_iff.mp h
  have scored := (List.mem_insertionSort _).mp (List.mem_of_getElem? hp)
  obtain ⟨l, hl, rfl⟩ := List.mem_map.mp scored
  exact hl

theorem pickLoop_sublist (want : Nat → Bool) (take : Nat) (xs picked : List Nat) :
    ∃ ys, pickLoop want take xs picked = picked ++ ys ∧ ys.Sublist (xs.filter want) := by
  induction xs generalizing picked with
  | nil => exact ⟨[], by simp [pickLoop], .slnil⟩
  | cons ci rest ih =>
    unfold pickLoop
    by_cases hw : want ci = true
    · rw [if_pos hw, List.filter_cons_of_pos hw]
      split
      · exact ⟨[ci], rfl, .cons_cons ci (List.nil_sublist _)⟩
      · obtain ⟨ys, h, sub⟩ := ih (picked ++ [ci])
        exact ⟨ci :: ys, by rw [h]; simp, .cons_cons ci sub⟩
    · rw [if_neg hw, List.filter_cons_of_neg hw]
      exact ih picked

theorem firstChoice_sublist (s : Scheduler F) (eligible : List Nat) (lane : Nat) :
    (s.firstChoice eligible lane).Sublist (s.pending.filter s.isPending) := by
  unfold firstChoice
  obtain ⟨ys, h, sub⟩ := pickLoop_sublist
    (fun ci => s.isPending ci && s.rankLane ci eligible == some lane) (s.batchSizeOf lane) s.pending []
  rw [h, List.nil_append]
  apply sub.trans
  apply List.monotone_filter_right
  intro ci hci
  exact (Bool.and_eq_true_iff.mp hci).1

theorem bestFree_spec {free : List Nat} {best : Nat × List Nat} (h : s.bestFree eligible free = some best) :
    best.1 ∈ free ∧ best.2 = s.firstChoice eligible best.1 ∧ best.2 ≠ [] := by
  unfold bestFree at h
  apply foldl_candidate
    (fun b : Nat × List Nat => b.1 ∈ free ∧ b.2 = s.firstChoice eligible b.1 ∧ b.2 ≠ [])
    _ free none (by simp) _ best h
  intro prior l hl kept b hb
  dsimp only at hb
  split at hb
  · exact kept b hb
  · rename_i some
    have taken : (l, s.firstChoice eligible l) = b →
        b.1 ∈ free ∧ b.2 = s.firstChoice eligible b.1 ∧ b.2 ≠ [] := by
      rintro rfl
      exact ⟨hl, rfl, by simpa using some⟩
    cases prior with
    | none => exact taken (Option.some.inj hb)
    | some p =>
      dsimp only at hb
      split at hb
      · exact taken (Option.some.inj hb)
      · exact kept b hb

theorem heaviestFree_mem {free : List Nat} (h : s.heaviestFree free = some l) : l ∈ free := by
  unfold heaviestFree at h
  apply foldl_candidate (· ∈ free) _ free none (by simp) _ l h
  intro best x hx prior b hb
  cases best with
  | none => cases hb; exact hx
  | some y =>
    dsimp only at hb
    split at hb
    · exact prior b hb
    · cases hb; exact hx

theorem choose_cases {picked : List Nat} (h : s.choose nowMs = some (lane, picked)) :
    lane ∈ s.freeLanes nowMs ∧ picked ≠ [] ∧
      (picked = s.firstChoice (s.eligibleLanes nowMs) lane ∨
        picked = (s.pending.filter s.isPending).take (s.batchSizeOf lane)) := by
  unfold choose at h
  dsimp only at h
  split at h
  · rename_i best hb
    cases h
    obtain ⟨free, eq, ne⟩ := bestFree_spec hb
    exact ⟨free, ne, .inl eq⟩
  · simp only [Option.bind_eq_bind, Option.bind_eq_some_iff] at h
    obtain ⟨l, hl, _, ne, out⟩ := h
    cases out
    exact ⟨heaviestFree_mem hl, of_guard_eq_some ne, .inr rfl⟩

theorem choose_spec {picked : List Nat} (h : s.choose nowMs = some (lane, picked)) :
    lane ∈ s.freeLanes nowMs ∧ picked ≠ [] ∧ picked.Sublist (s.pending.filter s.isPending) := by
  obtain ⟨free, ne, first | oldest⟩ := choose_cases h
  · exact ⟨free, ne, first ▸ firstChoice_sublist _ _ _⟩
  · exact ⟨free, ne, oldest ▸ List.take_sublist _ _⟩

theorem hedgeTarget_spec {alt : Nat} (h : s.hedgeTarget eligible nowMs ci = some alt) :
    alt ∈ eligible ∧ s.hasRoom alt = true ∧ ∃ c cur rest, s.chunks[ci]? = some c ∧
      c.phase = .inFlight ∧ c.hedged = false ∧ c.on = cur :: rest ∧ alt ≠ cur := by
  unfold hedgeTarget at h
  simp only [Option.bind_eq_bind, Option.bind_eq_some_iff] at h
  obtain ⟨c, hc, _, flying, cur, hcur, carrier, _, _, _, a, ha, _, room, out⟩ := h
  cases out
  have flying := of_guard_eq_some flying
  have room := of_guard_eq_some room
  obtain ⟨rest, on⟩ := List.head?_eq_some_iff.mp hcur
  exact ⟨rankNth_mem ha, room.2, c, cur, rest, hc, flying.1, flying.2, on, room.1⟩

theorem mem_pushTo {entries : List (Nat × List Nat)} {e : Nat × List Nat} (h : e ∈ pushTo entries lane ci) :
    e ∈ entries ∨ e = (lane, [ci]) ∨ ∃ old, (lane, old) ∈ entries ∧ e = (lane, old ++ [ci]) := by
  unfold pushTo at h
  split at h
  · obtain ⟨old, hold, rfl⟩ := List.mem_map.mp h
    by_cases same : old.1 = lane
    · rw [if_pos same]
      subst same
      exact .inr (.inr ⟨old.2, hold, rfl⟩)
    · rw [if_neg same]
      exact .inl hold
  · rcases List.mem_append.mp h with h | h
    · exact .inl h
    · exact .inr (.inl (List.mem_singleton.mp h))

theorem hedgesByLane_spec (s : Scheduler F) (eligible : List Nat) (nowMs : Nat)
    (e : Nat × List Nat) (h : e ∈ s.hedgesByLane eligible nowMs) :
    e.2.Nodup ∧ ∀ ci ∈ e.2, s.hedgeTarget eligible nowMs ci = some e.1 := by
  have loop : ∀ e ∈ s.hedgesByLane eligible nowMs,
      (e.2.Nodup ∧ ∀ ci ∈ e.2, s.hedgeTarget eligible nowMs ci = some e.1) ∧
        ∀ ci ∈ e.2, ci ∈ List.range s.chunks.length := by
    apply foldl_invariant (fun seen (entries : List (Nat × List Nat)) => ∀ e ∈ entries,
      (e.2.Nodup ∧ ∀ ci ∈ e.2, s.hedgeTarget eligible nowMs ci = some e.1) ∧ ∀ ci ∈ e.2, ci ∈ seen)
    · intro e he
      cases he
    · intro seen ci entries visited kept e he
      have fresh : ci ∉ seen := by
        have nodup := List.nodup_range.sublist visited.sublist
        exact fun hc => (List.nodup_append.mp nodup).2.2 ci hc ci (List.mem_singleton_self ci) rfl
      split at he
      · rename_i alt target
        rcases mem_pushTo he with he | rfl | ⟨old, hold, rfl⟩
        · exact ⟨(kept e he).1, fun c hc => List.mem_append_left _ ((kept e he).2 c hc)⟩
        · refine ⟨⟨List.nodup_singleton _, ?_⟩, ?_⟩
          · intro c hc
            rw [List.mem_singleton.mp hc, target]
          · exact fun c hc => List.mem_append_right _ hc
        · obtain ⟨⟨nodup, aimed⟩, inside⟩ := kept _ hold
          refine ⟨⟨?_, ?_⟩, ?_⟩
          · apply nodup.append (List.nodup_singleton _)
            intro c hc hs
            exact fresh (List.mem_singleton.mp hs ▸ inside c hc)
          · intro c hc
            rcases List.mem_append.mp hc with hc | hc
            · exact aimed c hc
            · rw [List.mem_singleton.mp hc, target]
          · intro c hc
            rcases List.mem_append.mp hc with hc | hc
            · exact List.mem_append_left _ (inside c hc)
            · exact List.mem_append_right _ hc
      · exact ⟨(kept e he).1, fun c hc => List.mem_append_left _ ((kept e he).2 c hc)⟩
  exact (loop e h).1

theorem mem_of_mem_inOrder {entries : List (Nat × List Nat)} {e : Nat × List Nat}
    (h : e ∈ inOrder iter entries) : e ∈ entries := by
  unfold inOrder at h
  rcases List.mem_append.mp h with h | h
  · exact (List.mem_filter.mp h).1
  · obtain ⟨l, _, hl⟩ := List.mem_filterMap.mp h
    exact List.mem_of_find?_eq_some hl

def markHedged (s : Scheduler F) (picked : List Nat) : Scheduler F :=
  picked.foldl (fun t ci => t.updChunk ci fun c => { c with hedged := true })
    { s with hedgesUsed := s.hedgesUsed + picked.length }

theorem nextHedge_taken {out : Scheduler F × Assignment} (h : s.nextHedge nowMs iter = some out) :
    ∃ lane all, s.hedgesUsed < s.hedgeBudget ∧ (lane, all) ∈ s.hedgesByLane (s.eligibleLanes nowMs) nowMs ∧
      let picked := all.take (min (s.batchSizeOf lane) (s.hedgeBudget - s.hedgesUsed))
      picked ≠ [] ∧ out = (s.markHedged picked).dispatch lane picked true nowMs := by
  unfold nextHedge at h
  split at h
  · cases h
  · rename_i left
    dsimp only at h
    split at h
    · cases h
    · simp only [Option.bind_eq_bind, Option.bind_eq_some_iff] at h
      obtain ⟨⟨lane, all⟩, hmax, _, ne, out⟩ := h
      exact ⟨lane, all, Nat.not_le.mp left, mem_of_mem_inOrder (lastMaxBy_mem _ _ _ hmax), of_guard_eq_some ne,
        (Option.some.inj out).symm⟩

theorem nextHedge_spec {out : Scheduler F × Assignment} (h : s.nextHedge nowMs iter = some out) :
    ∃ lane picked, out = (s.markHedged picked).dispatch lane picked true nowMs ∧ picked ≠ [] ∧
      picked.Nodup ∧ ∀ ci ∈ picked, s.hedgeTarget (s.eligibleLanes nowMs) nowMs ci = some lane := by
  obtain ⟨lane, all, _, entry, ne, out⟩ := nextHedge_taken h
  obtain ⟨nodup, aimed⟩ := hedgesByLane_spec s _ _ _ entry
  exact ⟨lane, _, out, ne, nodup.sublist (List.take_sublist _ _), fun ci hci => aimed ci (List.mem_of_mem_take hci)⟩

theorem next_selected {a : Assignment} (handed : (s.next nowMs iter).2 = some a) :
    let e := s.expireBackoffs nowMs
    a.hedge = true ∧ e.nextHedge nowMs iter = some ((s.next nowMs iter).1, a) ∨
      a.hedge = false ∧ e.choose nowMs = some (a.lane, a.chunks) := by
  unfold next at handed ⊢
  dsimp only at handed ⊢
  split at handed
  · rename_i t a' hedge
    cases handed
    obtain ⟨lane, picked, out, _⟩ := nextHedge_spec hedge
    refine .inl ⟨congrArg (fun o => o.2.hedge) out, ?_⟩
    rw [hedge]
  · split at handed
    · cases handed
    · rename_i lane picked chosen
      cases handed
      exact .inr ⟨rfl, chosen⟩

theorem next_none_iff :
    (s.next nowMs iter).2 = none ↔
      (s.expireBackoffs nowMs).nextHedge nowMs iter = none ∧ (s.expireBackoffs nowMs).choose nowMs = none := by
  unfold next
  dsimp only
  cases hedge : (s.expireBackoffs nowMs).nextHedge nowMs iter with
  | some out => simp
  | none =>
    cases chosen : (s.expireBackoffs nowMs).choose nowMs with
    | none => simp
    | some picked => simp

theorem next_cases (s : Scheduler F) (nowMs : Nat) (iter : List Nat) :
    let e := s.expireBackoffs nowMs
    (s.next nowMs iter = (e, none)) ∨
    (∃ lane picked, s.next nowMs iter =
        (((e.markHedged picked).dispatch lane picked true nowMs).1,
          some ((e.markHedged picked).dispatch lane picked true nowMs).2) ∧
      picked ≠ [] ∧ picked.Nodup ∧
      ∀ ci ∈ picked, e.hedgeTarget (e.eligibleLanes nowMs) nowMs ci = some lane) ∨
    (∃ lane picked, s.next nowMs iter =
        ((e.dispatch lane picked false nowMs).1, some (e.dispatch lane picked false nowMs).2) ∧
      lane ∈ e.freeLanes nowMs ∧ picked ≠ [] ∧ picked.Sublist (e.pending.filter e.isPending)) := by
  unfold next
  dsimp only
  split
  · rename_i t a hh
    obtain ⟨lane, picked, out, facts⟩ := nextHedge_spec hh
    refine .inr (.inl ⟨lane, picked, ?_, facts⟩)
    rw [← out]
  · split
    · exact .inl rfl
    · rename_i lane picked hc
      exact .inr (.inr ⟨lane, picked, rfl, choose_spec hc⟩)

end Scheduler

end Hoverfly.Sched
