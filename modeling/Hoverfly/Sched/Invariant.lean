import Hoverfly.Lib.Map
import Hoverfly.Lib.Run
import Hoverfly.Sched.Choice

/-! The conservation invariant of the scheduler, after any sequence of calls, including stale, duplicate and
out-of-order ones. -/
namespace Hoverfly.Sched
open Lib

variable {F : Type}

/-- The invariant, where a carrier of a chunk may be unaccounted for while a loop over
the chunks of a batch is under way; `exempt i l` lists those. -/
structure InvX (exempt : Nat → Nat → Prop) (s : Scheduler F) : Prop where
  indexed : ∀ a i, s.index.lookup a = some i → i < s.chunks.length
  listed : ∀ ci ∈ s.pending, ci < s.chunks.length
  batched : ∀ b l cs, s.outstanding.lookup b = some (l, cs) →
    b < s.nextBatchId ∧ l < s.lanes.length ∧ ∀ ci ∈ cs, ci < s.chunks.length
  queued : ∀ (i : Nat) (c : ChunkState), s.chunks[i]? = some c → c.phase = .pending → i ∈ s.pending
  idle : ∀ (i : Nat) (c : ChunkState), s.chunks[i]? = some c → c.phase ≠ .inFlight → c.on = []
  flying : ∀ (i : Nat) (c : ChunkState), s.chunks[i]? = some c → c.phase = .inFlight → c.on ≠ []
  traced : ∀ (i : Nat) (c : ChunkState) (l : Nat), s.chunks[i]? = some c → l ∈ c.on →
    exempt i l ∨ ∃ b cs, s.outstanding.lookup b = some (l, cs) ∧ i ∈ cs
  ackedCount : s.acked = s.chunks.countP (·.phase = .done)
  skippedCount : s.skipped = s.chunks.countP (·.phase = .skipped)
  failedCount : s.chunks.countP (·.phase = .failed) ≤ s.failed

def Inv (s : Scheduler F) : Prop := InvX (fun _ _ => False) s

def Settled (s t : Scheduler F) : Prop :=
  ∀ (i : Nat) (c : ChunkState), s.chunks[i]? = some c → c.phase = .done ∨ c.phase = .skipped →
    ∃ c', t.chunks[i]? = some c' ∧ c'.phase = c.phase

theorem Settled.refl (s : Scheduler F) : Settled s s := fun _ c h _ => ⟨c, h, rfl⟩

theorem Settled.trans {s t u : Scheduler F} (st : Settled s t) (tu : Settled t u) : Settled s u := by
  intro i c h final
  obtain ⟨c', h', same⟩ := st i c h final
  obtain ⟨c'', h'', same'⟩ := tu i c' h' (same ▸ final)
  exact ⟨c'', h'', same'.trans same⟩

theorem InvX.weaken {exempt exempt' : Nat → Nat → Prop} {s : Scheduler F} (inv : InvX exempt s)
    (more : ∀ (i : Nat) (c : ChunkState) (l : Nat), s.chunks[i]? = some c → l ∈ c.on → exempt i l → exempt' i l) :
    InvX exempt' s := by
  refine { inv with traced := ?_ }
  intro i c l h hl
  rcases inv.traced i c l h hl with e | found
  · exact .inl (more i c l h hl e)
  · exact .inr found

namespace Scheduler

theorem getElem?_updChunk (s : Scheduler F) (ci i : Nat) (f : ChunkState → ChunkState) :
    (s.updChunk ci f).chunks[i]? = (s.chunks[i]?).map (fun c => if ci = i then f c else c) := by
  exact List.getElem?_modify ..

variable {exempt exempt' : Nat → Nat → Prop} {s : Scheduler F} {hedge : Bool} {c : ChunkState} {lane ci nowMs : Nat}

theorem InvX.lanes (inv : InvX exempt s) (lanes : List (Lane F)) (same : lanes.length = s.lanes.length) :
    InvX exempt { s with lanes } where
  indexed := inv.indexed
  listed := inv.listed
  batched := by
    intro b l cs h
    obtain ⟨fresh, lane, chunks⟩ := inv.batched b l cs h
    exact ⟨fresh, same ▸ lane, chunks⟩
  queued := inv.queued
  idle := inv.idle
  flying := inv.flying
  traced := inv.traced
  ackedCount := inv.ackedCount
  skippedCount := inv.skippedCount
  failedCount := inv.failedCount

theorem InvX.updLane (inv : InvX exempt s) (lane : Nat) (f : Lane F → Lane F) : InvX exempt (s.updLane lane f) :=
  InvX.lanes inv _ (List.length_modify ..)

theorem InvX.updOne (inv : InvX exempt s)
    (ci : Nat) (c : ChunkState) (found : s.chunks[ci]? = some c) (f : ChunkState → ChunkState)
    (pending : List Nat) (acked failed skipped : Nat)
    (kept : ∀ i ∈ s.pending, i ∈ pending) (range : ∀ i ∈ pending, i < s.chunks.length)
    (queued : (f c).phase = .pending → ci ∈ pending)
    (idle : (f c).phase ≠ .inFlight → (f c).on = [])
    (flying : (f c).phase = .inFlight → (f c).on ≠ [])
    (traced : ∀ l ∈ (f c).on, exempt' ci l ∨ ∃ b cs, s.outstanding.lookup b = some (l, cs) ∧ ci ∈ cs)
    (others : ∀ i l, i ≠ ci → exempt i l → exempt' i l)
    (ackedBy : acked + (if c.phase = .done then 1 else 0) =
      s.acked + (if (f c).phase = .done then 1 else 0))
    (skippedBy : skipped + (if c.phase = .skipped then 1 else 0) =
      s.skipped + (if (f c).phase = .skipped then 1 else 0))
    (failedBy : s.failed + (if (f c).phase = .failed then 1 else 0) ≤
      failed + (if c.phase = .failed then 1 else 0)) :
    InvX exempt' { s.updChunk ci f with pending, acked, failed, skipped } := by
  have look : ∀ i d, (s.updChunk ci f).chunks[i]? = some d →
      (i = ci ∧ d = f c) ∨ (i ≠ ci ∧ s.chunks[i]? = some d) := by
    intro i d h
    rw [getElem?_updChunk] at h
    by_cases same : ci = i
    · subst same
      rw [found] at h
      simp only [if_true, Option.map_some, Option.some.injEq] at h
      exact .inl ⟨rfl, h.symm⟩
    · simp only [if_neg same, Option.map_id_fun', id_eq] at h
      exact .inr ⟨fun e => same e.symm, h⟩
  have length : (s.updChunk ci f).chunks.length = s.chunks.length := List.length_modify ..
  constructor
  · intro a i h
    exact length ▸ inv.indexed a i h
  · intro i hi
    exact length ▸ range i hi
  · intro b l cs h
    obtain ⟨fresh, lane, chunks⟩ := inv.batched b l cs h
    exact ⟨fresh, lane, fun i hi => length ▸ chunks i hi⟩
  · intro i d h p
    rcases look i d h with ⟨rfl, rfl⟩ | ⟨_, h⟩
    · exact queued p
    · exact kept i (inv.queued i d h p)
  · intro i d h p
    rcases look i d h with ⟨rfl, rfl⟩ | ⟨_, h⟩
    · exact idle p
    · exact inv.idle i d h p
  · intro i d h p
    rcases look i d h with ⟨rfl, rfl⟩ | ⟨_, h⟩
    · exact flying p
    · exact inv.flying i d h p
  · intro i d l h hl
    rcases look i d h with ⟨rfl, rfl⟩ | ⟨ne, h⟩
    · exact traced l hl
    · rcases inv.traced i d l h hl with e | t
      · exact .inl (others i l ne e)
      · exact .inr t
  · have count := countP_modify (fun c => decide (c.phase = .done)) s.chunks ci f c found
    have before := inv.ackedCount
    simp only [decide_eq_true_eq] at count
    simp only [updChunk]
    omega
  · have count := countP_modify (fun c => decide (c.phase = .skipped)) s.chunks ci f c found
    have before := inv.skippedCount
    simp only [decide_eq_true_eq] at count
    simp only [updChunk]
    omega
  · have count := countP_modify (fun c => decide (c.phase = .failed)) s.chunks ci f c found
    have before := inv.failedCount
    simp only [decide_eq_true_eq] at count
    simp only [updChunk]
    omega

theorem Settled.updOne (s : Scheduler F) (ci : Nat) (f : ChunkState → ChunkState)
    (final : ∀ c, s.chunks[ci]? = some c → c.phase = .done ∨ c.phase = .skipped →
      (f c).phase = c.phase) : Settled s (s.updChunk ci f) := by
  intro i c h resolved
  rw [getElem?_updChunk, h]
  by_cases same : ci = i
  · subst same
    exact ⟨f c, by simp, final c h resolved⟩
  · exact ⟨c, by simp [same], rfl⟩

theorem InvX.same (inv : InvX exempt s) (chunks : List ChunkState) (view : chunks.map (fun c => (c.phase, c.on)) =
      s.chunks.map (fun c => (c.phase, c.on))) : InvX exempt { s with chunks } := by
  have length : chunks.length = s.chunks.length := by
    simpa using congrArg List.length view
  have phases : chunks.map (·.phase) = s.chunks.map (·.phase) := by
    have h := congrArg (List.map Prod.fst) view
    simpa only [List.map_map, Function.comp_def] using h
  have count (p : ChunkPhase → Bool) :
      chunks.countP (fun c => p c.phase) = s.chunks.countP (fun c => p c.phase) := by
    have h := congrArg (List.countP p) phases
    simpa only [List.countP_map, Function.comp_def] using h
  have look : ∀ (i : Nat) (d : ChunkState), chunks[i]? = some d →
      ∃ c, s.chunks[i]? = some c ∧ c.phase = d.phase ∧ c.on = d.on := by
    intro i d h
    have at_i := congrArg (·[i]?) view
    simp only [List.getElem?_map, h, Option.map_some] at at_i
    obtain ⟨c, hc, e⟩ := Option.map_eq_some_iff.mp at_i.symm
    exact ⟨c, hc, congrArg Prod.fst e, congrArg Prod.snd e⟩
  constructor
  · exact fun a i h => length ▸ inv.indexed a i h
  · exact fun i hi => length ▸ inv.listed i hi
  · intro b l cs h
    obtain ⟨fresh, lane, members⟩ := inv.batched b l cs h
    exact ⟨fresh, lane, fun i hi => length ▸ members i hi⟩
  · intro i d h p
    obtain ⟨c, hc, ph, _⟩ := look i d h
    exact inv.queued i c hc (ph.trans p)
  · intro i d h p
    obtain ⟨c, hc, ph, on⟩ := look i d h
    exact on ▸ inv.idle i c hc (ph ▸ p)
  · intro i d h p
    obtain ⟨c, hc, ph, on⟩ := look i d h
    exact on ▸ inv.flying i c hc (ph.trans p)
  · intro i d l h hl
    obtain ⟨c, hc, _, on⟩ := look i d h
    exact inv.traced i c l hc (on ▸ hl)
  · exact inv.ackedCount.trans (count (fun p => decide (p = .done))).symm
  · exact inv.skippedCount.trans (count (fun p => decide (p = .skipped))).symm
  · exact (count (fun p => decide (p = .failed))).trans_le inv.failedCount

theorem foldl_updChunk_iterate (f : ChunkState → ChunkState) (picked : List Nat) (s : Scheduler F) (i : Nat) :
    (picked.foldl (fun t ci => t.updChunk ci f) s).chunks[i]? =
      (s.chunks[i]?).map f^[picked.count i] := by
  induction picked generalizing s with
  | nil => simp
  | cons ci rest ih =>
    rw [List.foldl_cons, ih, getElem?_updChunk, Option.map_map]
    congr 1
    funext c
    by_cases same : ci = i
    · simp [same, Function.iterate_succ]
    · simp [same]

theorem foldl_updChunk_view (f : ChunkState → ChunkState)
    (same : ∀ c, (f c).phase = c.phase ∧ (f c).on = c.on) (picked : List Nat) (s : Scheduler F) :
    (picked.foldl (fun t ci => t.updChunk ci f) s).chunks.map (fun c => (c.phase, c.on)) =
      s.chunks.map (fun c => (c.phase, c.on)) := by
  induction picked generalizing s with
  | nil => rfl
  | cons ci rest ih =>
    rw [List.foldl_cons, ih]
    apply List.ext_getElem?
    intro i
    rw [List.getElem?_map, List.getElem?_map, getElem?_updChunk, Option.map_map]
    congr 1
    funext c
    by_cases h : ci = i
    · simp [h, same c]
    · simp [h]

def KeptX (exempt exempt' : Nat → Nat → Prop) (s t : Scheduler F) : Prop :=
  InvX exempt s → InvX exempt' t ∧ Settled s t

def Kept (s t : Scheduler F) : Prop := KeptX (fun _ _ => False) (fun _ _ => False) s t

theorem KeptX.refl (exempt : Nat → Nat → Prop) (s : Scheduler F) : KeptX exempt exempt s s :=
  fun inv => ⟨inv, .refl s⟩

theorem KeptX.trans {e₁ e₂ e₃ : Nat → Nat → Prop} {t u : Scheduler F} (st : KeptX e₁ e₂ s t)
    (tu : KeptX e₂ e₃ t u) : KeptX e₁ e₃ s u := by
  intro inv
  obtain ⟨invt, settled⟩ := st inv
  obtain ⟨invu, settled'⟩ := tu invt
  exact ⟨invu, settled.trans settled'⟩

variable (s)

theorem updLane_kept (lane : Nat) (f : Lane F → Lane F) :
    KeptX exempt exempt s (s.updLane lane f) :=
  fun inv => ⟨InvX.updLane inv lane f, fun _ c h _ => ⟨c, h, rfl⟩⟩

theorem expireBackoffs_kept (nowMs : Nat) : Kept s (s.expireBackoffs nowMs) :=
  fun inv => ⟨InvX.lanes inv _ (List.length_map ..), fun _ c h _ => ⟨c, h, rfl⟩⟩

theorem same_kept (chunks : List ChunkState)
    (view : chunks.map (fun c => (c.phase, c.on)) = s.chunks.map (fun c => (c.phase, c.on))) :
    KeptX exempt exempt s { s with chunks } := by
  refine fun inv => ⟨InvX.same inv chunks view, ?_⟩
  intro i c h _
  have at_i := congrArg (·[i]?) view
  simp only [List.getElem?_map, h, Option.map_some] at at_i
  obtain ⟨c', h', e⟩ := Option.map_eq_some_iff.mp at_i
  exact ⟨c', h', congrArg Prod.fst e⟩

theorem pending_kept :
    KeptX exempt exempt s { s with pending := s.pending.filter s.isPending } := by
  intro inv
  refine ⟨{ inv with listed := ?_, queued := ?_ }, fun _ c h _ => ⟨c, h, rfl⟩⟩
  · exact fun ci h => inv.listed ci (List.mem_filter.mp h).1
  · intro i c h p
    exact List.mem_filter.mpr ⟨inv.queued i c h p, isPending_iff.mpr ⟨c, h, p⟩⟩

theorem admitOne_kept (chunk : Addr × Nat) : Kept s (s.admitOne chunk) := by
  intro inv
  unfold admitOne
  split
  · exact ⟨inv, .refl s⟩
  dsimp only
  have grown : ∀ (d : ChunkState) {i}, i < s.chunks.length → i < (s.chunks ++ [d]).length := by
    intro d i h
    rw [List.length_append]
    omega
  have look : ∀ (i : Nat) (c d : ChunkState), (s.chunks ++ [d])[i]? = some c →
      s.chunks[i]? = some c ∨ (i = s.chunks.length ∧ c = d) := by
    intro i c d h
    by_cases old : i < s.chunks.length
    · rw [List.getElem?_append_left old] at h
      exact .inl h
    · rw [List.getElem?_append_right (by omega)] at h
      obtain ⟨at0, same⟩ := List.getElem?_eq_some_iff.mp h
      rw [List.length_singleton] at at0
      exact .inr ⟨by omega, by simpa using same.symm⟩
  refine ⟨?_, ?_⟩
  · constructor
    · intro a i h
      rcases lookup_insert_cases h with ⟨rfl, rfl⟩ | ⟨_, h⟩
      · simp
      · exact grown _ (inv.indexed a i h)
    · intro ci h
      rcases List.mem_append.mp h with h | h
      · exact grown _ (inv.listed ci h)
      · simp [List.mem_singleton.mp h]
    · intro b l cs h
      obtain ⟨fresh, lane, members⟩ := inv.batched b l cs h
      exact ⟨fresh, lane, fun i hi => grown _ (members i hi)⟩
    · intro i c h p
      rcases look i c _ h with h | ⟨rfl, _⟩
      · exact List.mem_append_left _ (inv.queued i c h p)
      · exact List.mem_append_right _ (List.mem_singleton_self _)
    · intro i c h p
      rcases look i c _ h with h | ⟨_, rfl⟩
      · exact inv.idle i c h p
      · rfl
    · intro i c h p
      rcases look i c _ h with h | ⟨_, rfl⟩
      · exact inv.flying i c h p
      · cases p
    · intro i c l h hl
      rcases look i c _ h with h | ⟨_, rfl⟩
      · exact inv.traced i c l h hl
      · cases hl
    · simp [inv.ackedCount]
    · simp [inv.skippedCount]
    · simpa using inv.failedCount
  · intro i c h _
    have old : i < s.chunks.length := (List.getElem?_eq_some_iff.mp h).1
    exact ⟨c, by rw [List.getElem?_append_left old, h], rfl⟩

theorem admitChunks_kept (chunks : List (Addr × Nat)) :
    Kept s (s.admitChunks chunks).1 :=
  foldl_related (.refl _) .trans admitOne_kept chunks s

theorem marked_view (gid start stop : Nat) (xs : List ChunkState) :
    (xs.mapIdx fun i c => if start ≤ i ∧ i < stop then { c with group := some gid } else c).map
      (fun c => (c.phase, c.on)) = xs.map (fun c => (c.phase, c.on)) := by
  apply List.ext_getElem?
  intro i
  rw [List.getElem?_map, List.getElem?_map, List.getElem?_mapIdx, Option.map_map]
  congr 1
  funext c
  by_cases h : start ≤ i ∧ i < stop <;> simp [h]

theorem admitGroup_kept (chunks : List (Addr × Nat)) (need : UInt16) :
    Kept s (s.admitGroup chunks need).1 := by
  have grouped : Kept s { s with groups := s.groups ++ [{ need, acked := 0 }] } :=
    fun inv => ⟨{ inv with }, fun _ c h _ => ⟨c, h, rfl⟩⟩
  exact (grouped.trans (admitChunks_kept _ chunks)).trans (same_kept _ _ (marked_view ..))

variable {s}

/-- What a dispatch may pick: a hedge only chunks in flight, otherwise also pending ones. A
chunk picked twice is in flight the second time. -/
def Ready (s : Scheduler F) (hedge : Bool) (ci : Nat) : Prop :=
  ∃ c, s.chunks[ci]? = some c ∧ (c.phase = .inFlight ∨ (hedge = false ∧ c.phase = .pending))

theorem dispatchChunk_ready (lane nowMs : Nat) (ready : c.phase = .inFlight ∨ (hedge = false ∧ c.phase = .pending)) :
    (dispatchChunk lane hedge nowMs c).phase = .inFlight ∧
      (dispatchChunk lane hedge nowMs c).on = c.on ++ [lane] := by
  unfold dispatchChunk
  cases hedge with
  | false => exact ⟨rfl, rfl⟩
  | true =>
    rcases ready with flying | ⟨no, _⟩
    · exact ⟨flying, rfl⟩
    · cases no

theorem dispatchOne_kept (ready : s.Ready hedge ci) (mine : exempt ci lane) :
    KeptX exempt exempt s (s.updChunk ci (dispatchChunk lane hedge nowMs)) := by
  intro inv
  obtain ⟨c, found, ready⟩ := ready
  obtain ⟨flying, on⟩ := dispatchChunk_ready lane nowMs ready
  constructor
  · apply InvX.updOne inv ci c found _ s.pending s.acked s.failed s.skipped
    · exact fun i hi => hi
    · exact inv.listed
    · exact fun p => absurd (p.symm.trans flying) (by decide)
    · exact fun no => absurd flying no
    · rw [on]
      exact fun _ => by simp
    · intro l hl
      rw [on] at hl
      rcases List.mem_append.mp hl with hl | hl
      · exact inv.traced ci c l found hl
      · exact .inl (List.mem_singleton.mp hl ▸ mine)
    · exact fun _ _ _ e => e
    all_goals
      rcases ready with p | ⟨_, p⟩
      · simp [p, flying]
      · simp [p, flying]
  · apply Settled.updOne
    intro c' found' final
    rw [found] at found'
    cases found'
    rcases ready with p | ⟨_, p⟩ <;> simp [p] at final

theorem ready_dispatchOne {i : Nat} (other : s.Ready hedge i) :
    (s.updChunk ci (dispatchChunk lane hedge nowMs)).Ready hedge i := by
  obtain ⟨d, at_i, left⟩ := other
  by_cases same : ci = i
  · subst same
    exact ⟨_, found_updChunk at_i _, .inl (dispatchChunk_ready lane nowMs left).1⟩
  · exact ⟨d, by rw [getElem?_updChunk, at_i]; simp [same], left⟩

theorem dispatchLoop_kept (lane nowMs : Nat) (hedge : Bool) (picked : List Nat)
    (s : Scheduler F) (ready : ∀ ci ∈ picked, s.Ready hedge ci) (mine : ∀ ci ∈ picked, exempt ci lane) :
    KeptX exempt exempt s
      (picked.foldl (fun t ci => t.updChunk ci (dispatchChunk lane hedge nowMs)) s) := by
  induction picked generalizing s with
  | nil => exact .refl exempt s
  | cons ci rest ih =>
    have first := ready ci (List.mem_cons_self ..)
    refine (dispatchOne_kept first (mine ci (List.mem_cons_self ..))).trans (ih _ ?_ ?_)
    · exact fun i hi => ready_dispatchOne (ready i (List.mem_cons_of_mem _ hi))
    · exact fun i hi => mine i (List.mem_cons_of_mem _ hi)

theorem foldl_updChunk_frame (f : ChunkState → ChunkState) (picked : List Nat) (s : Scheduler F) :
    let t := picked.foldl (fun t ci => t.updChunk ci f) s
    t.chunks.length = s.chunks.length ∧ t = { s with chunks := t.chunks } := by
  induction picked generalizing s with
  | nil => exact ⟨rfl, rfl⟩
  | cons ci rest ih =>
    obtain ⟨length, frame⟩ := ih (s.updChunk ci f)
    dsimp only [List.foldl_cons]
    exact ⟨length.trans (List.length_modify ..), by rw [frame]; rfl⟩

theorem outstanding_kept (lane : Nat) (picked : List Nat) (lanes : lane < s.lanes.length)
    (range : ∀ ci ∈ picked, ci < s.chunks.length) :
    KeptX (fun ci l => ci ∈ picked ∧ l = lane) (fun _ _ => False) s
      { s with nextBatchId := s.nextBatchId + 1,
               outstanding := s.outstanding.insert s.nextBatchId (lane, picked) } := by
  intro inv
  have fresh : ∀ {b e}, s.outstanding.lookup b = some e → b ≠ s.nextBatchId := by
    intro b e h same
    have := (inv.batched b e.1 e.2 h).1
    omega
  refine ⟨{ inv with batched := ?_, traced := ?_ }, fun _ c h _ => ⟨c, h, rfl⟩⟩
  · intro b l cs h
    dsimp only at h ⊢
    rcases lookup_insert_cases h with ⟨rfl, ⟨⟩⟩ | ⟨_, h⟩
    · exact ⟨Nat.lt_succ_self _, lanes, range⟩
    · obtain ⟨old, rest⟩ := inv.batched b l cs h
      exact ⟨Nat.lt_succ_of_lt old, rest⟩
  · intro i c l h hl
    refine .inr ?_
    rcases inv.traced i c l h hl with ⟨hi, rfl⟩ | ⟨b, cs, found, hi⟩
    · exact ⟨s.nextBatchId, picked, AList.lookup_insert _, hi⟩
    · exact ⟨b, cs, (AList.lookup_insert_ne (fresh found)).trans found, hi⟩

theorem dispatch_kept {picked : List Nat} (lanes : lane < s.lanes.length) (ready : ∀ ci ∈ picked, s.Ready hedge ci) :
    Kept s (s.dispatch lane picked hedge nowMs).1 := by
  have open_ : KeptX (fun _ _ => False) (fun ci l => ci ∈ picked ∧ l = lane) s s :=
    fun inv => ⟨inv.weaken fun _ _ _ _ _ no => no.elim, .refl s⟩
  have loop := open_.trans (dispatchLoop_kept lane nowMs hedge picked s ready fun ci h => ⟨h, rfl⟩)
  obtain ⟨length, frame⟩ := foldl_updChunk_frame (dispatchChunk lane hedge nowMs) picked s
  have range : ∀ ci ∈ picked, ci < s.chunks.length := by
    intro ci h
    obtain ⟨c, found, _⟩ := ready ci h
    exact (List.getElem?_eq_some_iff.mp found).1
  unfold dispatch
  dsimp only at length frame ⊢
  generalize picked.foldl (fun t ci => t.updChunk ci (dispatchChunk lane hedge nowMs)) s = t at *
  have swept : KeptX (fun ci l => ci ∈ picked ∧ l = lane) (fun ci l => ci ∈ picked ∧ l = lane) t
      (if hedge then t else { t with pending := t.pending.filter t.isPending }) := by
    cases hedge with
    | true => exact .refl _ t
    | false => exact pending_kept t
  have filled := (loop.trans swept).trans
    (updLane_kept _ lane fun l => { l with inflight := l.inflight + 1 })
  have entered := filled.trans (outstanding_kept lane picked ?_ ?_)
  · convert entered using 1
    cases hedge <;> rw [frame] <;> rfl
  · cases hedge <;> rw [frame] <;> simpa [updLane] using lanes
  · cases hedge <;> simpa [updLane, length] using range

theorem markHedged_kept (s : Scheduler F) (picked : List Nat) : Kept s (s.markHedged picked) := by
  unfold markHedged
  obtain ⟨_, frame⟩ := foldl_updChunk_frame (fun c => { c with hedged := true }) picked
    { s with hedgesUsed := s.hedgesUsed + picked.length }
  rw [frame]
  have counted : Kept s { s with hedgesUsed := s.hedgesUsed + picked.length } :=
    fun inv => ⟨{ inv with }, fun _ c h _ => ⟨c, h, rfl⟩⟩
  refine counted.trans (same_kept _ _ ?_)
  apply foldl_updChunk_view
  exact fun c => ⟨rfl, rfl⟩

theorem markHedged_frame (s : Scheduler F) (picked : List Nat) :
    (s.markHedged picked).outstanding = s.outstanding ∧
      (s.markHedged picked).nextBatchId = s.nextBatchId ∧ (s.markHedged picked).lanes = s.lanes := by
  unfold markHedged
  rw [(foldl_updChunk_frame _ picked _).2]
  exact ⟨rfl, rfl, rfl⟩

theorem markHedged_ready {picked : List Nat} (found : s.chunks[ci]? = some c) (flying : c.phase = .inFlight) :
    (s.markHedged picked).Ready true ci := by
  have view := foldl_updChunk_view (fun c => { c with hedged := true }) (fun c => ⟨rfl, rfl⟩) picked
    { s with hedgesUsed := s.hedgesUsed + picked.length }
  have at_ci := congrArg (·[ci]?) view
  simp only [List.getElem?_map, found, Option.map_some] at at_ci
  obtain ⟨d, found', e⟩ := Option.map_eq_some_iff.mp at_ci
  exact ⟨d, found', .inl ((congrArg Prod.fst e).trans flying)⟩

theorem next_kept [F64 F] (s : Scheduler F) (nowMs : Nat) (iter : List Nat) :
    Kept s (s.next nowMs iter).1 := by
  have expired := expireBackoffs_kept s nowMs
  rcases next_cases s nowMs iter with out | ⟨lane, picked, out, ne, _, aimed⟩ |
    ⟨lane, picked, out, free, _, sub⟩
  · rw [out]
    exact expired
  · rw [out]
    have target := fun ci h => hedgeTarget_spec (aimed ci h)
    refine (expired.trans (markHedged_kept _ picked)).trans (dispatch_kept ?_ ?_)
    · obtain ⟨ci, h⟩ := List.exists_mem_of_ne_nil _ ne
      rw [(markHedged_frame _ picked).2.2]
      exact lt_of_mem_eligibleLanes (target ci h).1
    · intro ci h
      obtain ⟨_, _, c, _, _, found, flying, _⟩ := target ci h
      exact markHedged_ready found flying
  · rw [out]
    refine expired.trans (dispatch_kept (lt_of_mem_eligibleLanes (mem_freeLanes.mp free).1) ?_)
    intro ci h
    obtain ⟨c, found, p⟩ := isPending_iff.mp (List.mem_filter.mp (sub.subset h)).2
    exact ⟨c, found, .inr ⟨rfl, p⟩⟩

theorem givenUp_kept {t : Scheduler F} (found : s.chunks[ci]? = some c)
    (live : ¬(c.phase = .done ∨ c.phase = .skipped)) (out : GivenUp s lane ci c t)
    (less : ∀ i l, exempt i l → (i = ci ∧ l = lane) ∨ exempt' i l) : KeptX exempt exempt' s t := by
  intro inv
  have notDone : c.phase ≠ .done := fun h => live (.inl h)
  have notSkipped : c.phase ≠ .skipped := fun h => live (.inr h)
  have inRange : ci < s.chunks.length := (List.getElem?_eq_some_iff.mp found).1
  have others : ∀ i l, i ≠ ci → exempt i l → exempt' i l :=
    fun i l ne e => (less i l e).resolve_left fun same => ne same.1
  have settled (d : ChunkState) : Settled s (s.updChunk ci fun _ => d) := by
    apply Settled.updOne
    intro c' found' final
    rw [found] at found'
    cases found'
    exact absurd final live
  cases out with
  | carried ne =>
    refine ⟨?_, settled _⟩
    have flying : c.phase = .inFlight := by
      by_contra no
      rw [inv.idle ci c found no] at ne
      exact ne rfl
    apply InvX.updOne inv ci c found _ s.pending s.acked s.failed s.skipped
    · exact fun i hi => hi
    · exact inv.listed
    · exact fun p => absurd (p.symm.trans flying) (by decide)
    · exact fun no => absurd flying no
    · exact fun _ => ne
    · intro l hl
      obtain ⟨hl, off⟩ := List.mem_filter.mp hl
      rcases inv.traced ci c l found hl with e | t
      · refine .inl ((less ci l e).resolve_left fun same => ?_)
        exact absurd same.2 (of_decide_eq_true off)
      · exact .inr t
    · exact others
    all_goals simp
  | spent none_ _ =>
    refine ⟨?_, settled _⟩
    apply InvX.updOne inv ci c found _ s.pending s.acked (s.failed + 1) s.skipped
    · exact fun i hi => hi
    · exact inv.listed
    · exact fun p => by cases p
    · exact fun _ => rfl
    · exact fun p => by cases p
    · exact fun l hl => by cases hl
    · exact others
    all_goals simp [notDone, notSkipped]
  | queued none_ _ =>
    refine ⟨?_, settled _⟩
    apply InvX.updOne inv ci c found _ (s.pending ++ [ci]) s.acked s.failed s.skipped
    · exact fun i hi => List.mem_append_left _ hi
    · intro i hi
      rcases List.mem_append.mp hi with hi | hi
      · exact inv.listed i hi
      · exact List.mem_singleton.mp hi ▸ inRange
    · exact fun _ => List.mem_append_right _ (List.mem_singleton_self _)
    · exact fun _ => rfl
    · exact fun p => by cases p
    · exact fun l hl => by cases hl
    · exact others
    all_goals simp [notDone, notSkipped]

theorem skip_kept (s : Scheduler F) (drop : ChunkState → Bool)
    (waiting : ∀ c, drop c = true → c.phase = .pending) :
    Kept s { s with
      chunks := s.chunks.map fun c => if drop c then { c with phase := .skipped } else c
      skipped := s.skipped + s.chunks.countP drop } := by
  intro inv
  have look : ∀ (i : Nat) (d : ChunkState),
      (s.chunks.map fun c => if drop c then { c with phase := .skipped } else c)[i]? = some d →
      (∃ c, s.chunks[i]? = some c ∧ c.phase = .pending ∧ d = { c with phase := .skipped }) ∨
        s.chunks[i]? = some d := by
    intro i d h
    rw [List.getElem?_map] at h
    obtain ⟨c, found, rfl⟩ := Option.map_eq_some_iff.mp h
    by_cases dropped : drop c = true
    · exact .inl ⟨c, found, waiting c dropped, by rw [if_pos dropped]⟩
    · rw [if_neg dropped]
      exact .inr found
  have count (x : ChunkPhase) (notPending : x ≠ .pending) (notSkipped : x ≠ .skipped) :
      (s.chunks.map fun c => if drop c then { c with phase := .skipped } else c).countP
        (·.phase = x) = s.chunks.countP (·.phase = x) := by
    rw [List.countP_map]
    congr 1
    funext c
    by_cases dropped : drop c = true
    · simp [dropped, waiting c dropped, notPending.symm, notSkipped.symm]
    · simp [dropped]
  refine ⟨?_, ?_⟩
  · constructor
    · exact fun a i h => by simpa using inv.indexed a i h
    · exact fun i h => by simpa using inv.listed i h
    · exact fun b l cs h => by simpa using inv.batched b l cs h
    · intro i d h p
      rcases look i d h with ⟨c, _, _, rfl⟩ | h
      · cases p
      · exact inv.queued i d h p
    · intro i d h p
      rcases look i d h with ⟨c, found, waits, rfl⟩ | h
      · exact inv.idle i c found (by rw [waits]; decide)
      · exact inv.idle i d h p
    · intro i d h p
      rcases look i d h with ⟨c, _, _, rfl⟩ | h
      · cases p
      · exact inv.flying i d h p
    · intro i d l h hl
      rcases look i d h with ⟨c, found, _, rfl⟩ | h
      · exact inv.traced i c l found hl
      · exact inv.traced i d l h hl
    · exact inv.ackedCount.trans (count .done (by decide) (by decide)).symm
    · have split : (s.chunks.map fun c => if drop c then { c with phase := .skipped } else c).countP
          (·.phase = .skipped) = s.chunks.countP (fun c => decide (c.phase = .skipped) || drop c) := by
        rw [List.countP_map]
        congr 1
        funext c
        by_cases dropped : drop c = true <;> simp [dropped]
      rw [split, countP_or, inv.skippedCount]
      intro c _ skipped
      by_contra dropped
      have waits := waiting c (by simpa using dropped)
      simp [waits] at skipped
    · exact (count .failed (by decide) (by decide)).trans_le inv.failedCount
  · intro i c h final
    have kept : drop c = false := by
      by_contra dropped
      have waits := waiting c (by simpa using dropped)
      simp [waits] at final
    exact ⟨c, by rw [List.getElem?_map, h, Option.map_some, if_neg (by simp [kept])], rfl⟩

theorem onGroupAck_kept (s : Scheduler F) (ci : Nat) : Kept s (s.onGroupAck ci) := by
  unfold onGroupAck
  split
  · exact .refl _ s
  split
  · exact .refl _ s
  rename_i gid _
  have counted : Kept s { s with
      groups := s.groups.modify gid fun g => { g with acked := g.acked + 1 } } :=
    fun inv => ⟨{ inv with }, fun _ c h _ => ⟨c, h, rfl⟩⟩
  dsimp only
  split
  · exact counted
  · refine (counted.trans (skip_kept _ (fun c => decide (c.group = some gid ∧ c.phase = .pending)) ?_)).trans
      (pending_kept _)
    exact fun c h => (of_decide_eq_true h).2

theorem settleAck_kept (found : s.chunks[ci]? = some c) (live : ¬(c.phase = .done ∨ c.phase = .skipped))
    (others : ∀ i l, i ≠ ci → exempt i l → exempt' i l) :
    KeptX exempt exempt' s (s.settleAck ci c) := by
  intro inv
  have notDone : c.phase ≠ .done := fun h => live (.inl h)
  have notSkipped : c.phase ≠ .skipped := fun h => live (.inr h)
  refine ⟨?_, Settled.updOne s ci _ ?_⟩
  · apply InvX.updOne inv ci c found _ s.pending (s.acked + 1) s.failed s.skipped
    · exact fun i hi => hi
    · exact inv.listed
    · exact fun p => by cases p
    · exact fun _ => rfl
    · exact fun p => by cases p
    · exact fun l hl => by cases hl
    · exact others
    all_goals simp [notDone, notSkipped]
  · intro c' found' final
    rw [found] at found'
    cases found'
    exact absurd final live

variable (s)

theorem onAck_kept (lane : Nat) (addr : Addr) (ok : Bool) :
    Kept s (s.onAck lane addr ok) := by
  cases known : s.index.lookup addr with
  | none =>
    unfold onAck
    rw [known]
    exact .refl _ s
  | some ci =>
    cases found : s.chunks[ci]? with
    | none =>
      unfold onAck
      rw [known]
      dsimp only
      rw [found]
      exact .refl _ s
    | some c =>
      rcases onAck_cases lane known found ok with ⟨_, out⟩ | ⟨live, f, out⟩
      · rw [out]
        exact .refl _ s
      · rw [out]
        cases ok with
        | false =>
          refine (updLane_kept s lane f).trans ?_
          exact givenUp_kept found live (nack_cases found) fun _ _ no => no.elim
        | true =>
          have acked : Kept s (s.settleAck ci c) := settleAck_kept found live fun _ _ _ no => no
          exact (acked.trans (updLane_kept _ lane f)).trans (onGroupAck_kept _ ci)

theorem refundAttempt_kept (ci : Nat) :
    KeptX exempt exempt s (s.refundAttempt ci) := by
  refine same_kept s _ (foldl_updChunk_view _ ?_ [ci] s)
  intro c
  split
  · exact ⟨rfl, rfl⟩
  · exact ⟨rfl, rfl⟩

theorem settleLane_kept (lane : Nat) (chunks : List Nat) (outcome : BatchOutcome) (nowMs : Nat) :
    KeptX exempt exempt s (s.settleLane lane chunks outcome nowMs) := by
  unfold settleLane
  cases outcome with
  | answered =>
    dsimp only
    split <;> exact updLane_kept s lane _
  | failed e => exact updLane_kept s lane _
  | paymentRequired =>
    exact (updLane_kept s lane _).trans (foldl_related (.refl _) .trans refundAttempt_kept chunks _)

theorem requeue_kept (lane ci : Nat) (less : ∀ i l, exempt i l → (i = ci ∧ l = lane) ∨ exempt' i l) :
    KeptX exempt exempt' s (requeue lane s ci) := by
  intro inv
  -- Where no carrier is left on the chunk, the exemption for it is not needed any more.
  have bare (none_ : ∀ c, s.chunks[ci]? = some c → c.on = []) : InvX exempt' s := by
    apply inv.weaken
    intro i c l h hl e
    rcases less i l e with ⟨rfl, rfl⟩ | e
    · rw [none_ c h] at hl
      cases hl
    · exact e
  cases found : s.chunks[ci]? with
  | none =>
    unfold requeue
    rw [found]
    refine ⟨bare fun c h => ?_, .refl s⟩
    rw [found] at h
    cases h
  | some c =>
    have only : ∀ d, s.chunks[ci]? = some d → d = c := by
      intro d h
      rw [found] at h
      exact (Option.some.inj h).symm
    rcases requeue_cases lane found with ⟨final, out⟩ | ⟨live, ⟨_, kept, out⟩ | ⟨_, out⟩⟩
    · rw [out]
      refine ⟨bare fun d h => ?_, .refl s⟩
      rw [only d h]
      apply inv.idle ci c found
      rcases final with p | p <;> rw [p] <;> decide
    · rw [out]
      have idle : c.on = [] := by
        apply inv.idle ci c found
        rcases kept with ⟨p, _⟩ | ⟨p, _⟩ <;> rw [p] <;> decide
      have whole : ({ c with on := [] } : ChunkState) = c := by rw [← idle]
      rw [whole, updChunk_self found]
      exact ⟨bare fun d h => by rw [only d h, idle], .refl s⟩
    · exact givenUp_kept found live out less inv

variable {s}

theorem requeueLoop_kept (lane : Nat) (chunks : List Nat) (s : Scheduler F) :
    KeptX (fun ci l => ci ∈ chunks ∧ l = lane) (fun _ _ => False) s (chunks.foldl (requeue lane) s) := by
  induction chunks generalizing s with
  | nil => exact fun inv => ⟨inv.weaken fun _ _ _ _ _ no => (List.not_mem_nil no.1).elim, .refl s⟩
  | cons ci rest ih =>
    refine (requeue_kept s lane ci ?_).trans (ih _)
    rintro i l ⟨hi, rfl⟩
    rcases List.mem_cons.mp hi with rfl | hi
    · exact .inl ⟨rfl, rfl⟩
    · exact .inr ⟨hi, rfl⟩

theorem erase_kept {batch : Nat} {chunks : List Nat} (found : s.outstanding.lookup batch = some (lane, chunks)) :
    KeptX (fun _ _ => False) (fun ci l => ci ∈ chunks ∧ l = lane) s
      { s with outstanding := s.outstanding.erase batch } := by
  intro inv
  refine ⟨{ inv with batched := ?_, traced := ?_ }, fun _ c h _ => ⟨c, h, rfl⟩⟩
  · exact fun b l cs h => inv.batched b l cs (lookup_of_erase h).2
  · intro i c l h hl
    rcases inv.traced i c l h hl with no | ⟨b, cs, at_b, hi⟩
    · exact no.elim
    by_cases same : b = batch
    · rw [same, found] at at_b
      cases at_b
      exact .inl ⟨hi, rfl⟩
    · exact .inr ⟨b, cs, (AList.lookup_erase_ne same).trans at_b, hi⟩

theorem onBatchResult_kept (s : Scheduler F) (batch : Nat) (outcome : BatchOutcome) (nowMs : Nat) :
    Kept s (s.onBatchResult batch outcome nowMs) := by
  unfold onBatchResult
  split
  · exact .refl _ s
  rename_i lane chunks found
  refine (erase_kept found).trans (KeptX.trans ?_ (requeueLoop_kept lane chunks _))
  exact (updLane_kept _ lane _).trans (settleLane_kept _ lane chunks outcome nowMs)

end Scheduler

end Hoverfly.Sched
