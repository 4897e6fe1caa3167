import Hoverfly.Sched.Conservation

/-! Where a done chunk comes from: only an ok ack that names its address makes one. -/
namespace Hoverfly.Sched
open Lib

variable {F : Type}

structure Quiet (s t : Scheduler F) : Prop where
  index : t.index = s.index
  addrs : ∀ i, t.chunkAddr i = s.chunkAddr i
  done : ∀ i, t.phase? i = some .done → s.phase? i = some .done

namespace Quiet

theorem refl (s : Scheduler F) : Quiet s s := ⟨rfl, fun _ => rfl, fun _ h => h⟩

variable {s t : Scheduler F}

theorem trans {u : Scheduler F} (st : Quiet s t) (tu : Quiet t u) : Quiet s u :=
  ⟨tu.index.trans st.index, fun i => (tu.addrs i).trans (st.addrs i),
    fun i h => st.done i (tu.done i h)⟩

theorem frame (index : t.index = s.index) (chunks : t.chunks = s.chunks) :
    Quiet s t :=
  ⟨index, fun i => by simp [Scheduler.chunkAddr, chunks],
    fun i h => by simpa [Scheduler.phase?, chunks] using h⟩

theorem updChunk (s : Scheduler F) (ci : Nat) (f : ChunkState → ChunkState)
    (addr : ∀ c, s.chunks[ci]? = some c → (f c).addr = c.addr)
    (done : ∀ c, s.chunks[ci]? = some c → (f c).phase = .done → c.phase = .done) :
    Quiet s (s.updChunk ci f) := by
  refine ⟨rfl, fun i => ?_, fun i => ?_⟩
  · unfold Scheduler.chunkAddr
    rw [Scheduler.getElem?_updChunk]
    cases found : s.chunks[i]? with
    | none => rfl
    | some c =>
      by_cases same : ci = i
      · subst same
        simp [addr c found]
      · simp [same]
  · unfold Scheduler.phase?
    rw [Scheduler.getElem?_updChunk]
    cases found : s.chunks[i]? with
    | none => simp
    | some c =>
      by_cases same : ci = i
      · subst same
        simpa using done c found
      · simp [same]

theorem setChunk {ci : Nat} {c d : ChunkState} (found : s.chunks[ci]? = some c)
    (addr : d.addr = c.addr) (done : d.phase = .done → c.phase = .done) :
    Quiet s (s.updChunk ci fun _ => d) := by
  apply updChunk
  · intro e h
    cases found.symm.trans h
    exact addr
  · intro e h
    cases found.symm.trans h
    exact done

theorem givenUp {lane ci : Nat} {c : ChunkState}
    (found : s.chunks[ci]? = some c) (out : Scheduler.GivenUp s lane ci c t) : Quiet s t := by
  cases out with
  | carried => exact setChunk found rfl id
  | spent =>
    have failed : Quiet s (s.updChunk ci fun _ => { c with on := [], phase := .failed }) :=
      setChunk found rfl nofun
    exact failed.trans (frame rfl rfl)
  | queued =>
    have queued : Quiet s (s.updChunk ci fun _ => { c with on := [], phase := .pending, hedged := false }) :=
      setChunk found rfl nofun
    exact queued.trans (frame rfl rfl)

theorem requeue (lane : Nat) (s : Scheduler F) (ci : Nat) : Quiet s (Scheduler.requeue lane s ci) := by
  cases found : s.chunks[ci]? with
  | none =>
    unfold Scheduler.requeue
    rw [found]
    exact .refl s
  | some c =>
    rcases Scheduler.requeue_cases lane found with ⟨_, out⟩ | ⟨_, ⟨_, _, out⟩ | ⟨_, out⟩⟩
    · rw [out]
      exact .refl s
    · rw [out]
      exact setChunk found rfl id
    · exact givenUp found out

variable (s)

theorem refundAttempt (ci : Nat) : Quiet s (s.refundAttempt ci) := by
  apply updChunk
  · intro c _
    split <;> rfl
  · intro c _ done
    split at done <;> exact done

theorem settleLane (lane : Nat) (chunks : List Nat) (outcome : BatchOutcome)
    (nowMs : Nat) : Quiet s (s.settleLane lane chunks outcome nowMs) := by
  unfold Scheduler.settleLane
  cases outcome with
  | answered =>
    dsimp only
    split <;> exact frame rfl rfl
  | failed e => exact frame rfl rfl
  | paymentRequired =>
    have unfunded : Quiet s (s.updLane lane fun l => { l with health := .unfunded }) := frame rfl rfl
    exact unfunded.trans (foldl_related .refl .trans refundAttempt chunks _)

theorem onBatchResult (batch : Nat) (outcome : BatchOutcome) (nowMs : Nat) :
    Quiet s (s.onBatchResult batch outcome nowMs) := by
  unfold Scheduler.onBatchResult
  split
  · exact .refl s
  · rename_i lane chunks _
    have closed : Quiet s (({ s with outstanding := s.outstanding.erase batch } : Scheduler F).updLane lane
        fun l => { l with inflight := l.inflight - 1 }) := frame rfl rfl
    exact (closed.trans (settleLane _ lane chunks outcome nowMs)).trans
      (foldl_related .refl .trans (requeue lane) chunks _)

theorem dispatch (lane : Nat) (picked : List Nat) (hedge : Bool) (nowMs : Nat) :
    Quiet s (s.dispatch lane picked hedge nowMs).1 := by
  have marked : Quiet s
      (picked.foldl (fun t ci => t.updChunk ci (Scheduler.dispatchChunk lane hedge nowMs)) s) := by
    apply foldl_related .refl .trans
    intro t ci
    apply updChunk
    · intro c _
      unfold Scheduler.dispatchChunk
      split <;> rfl
    · intro c _ done
      unfold Scheduler.dispatchChunk at done
      split at done
      · exact done
      · cases done
  refine marked.trans (frame ?_ ?_)
  · unfold Scheduler.dispatch
    dsimp only
    split <;> rfl
  · unfold Scheduler.dispatch
    dsimp only
    split <;> rfl

theorem markHedged (picked : List Nat) : Quiet s (s.markHedged picked) := by
  have counted : Quiet s { s with hedgesUsed := s.hedgesUsed + picked.length } := frame rfl rfl
  refine counted.trans (foldl_related .refl .trans (fun t ci => ?_) picked _)
  exact updChunk t ci _ (fun _ _ => rfl) (fun _ _ => id)

theorem next [F64 F] (nowMs : Nat) (iter : List Nat) : Quiet s (s.next nowMs iter).1 := by
  have expired : Quiet s (s.expireBackoffs nowMs) := frame rfl rfl
  rcases Scheduler.next_cases s nowMs iter with out | ⟨lane, picked, out, _⟩ | ⟨lane, picked, out, _⟩
  · rw [out]
    exact expired
  · rw [out]
    exact (expired.trans (markHedged _ picked)).trans (dispatch _ lane picked true nowMs)
  · rw [out]
    exact expired.trans (dispatch _ lane picked false nowMs)

theorem onGroupAck (ci : Nat) : Quiet s (s.onGroupAck ci) := by
  unfold Scheduler.onGroupAck
  split
  · exact .refl s
  split
  · exact .refl s
  dsimp only
  split
  · exact frame rfl rfl
  · refine ⟨rfl, fun i => ?_, fun i done => ?_⟩
    · simp only [Scheduler.chunkAddr, List.getElem?_map, Option.map_map]
      congr 1
      funext c
      dsimp only [Function.comp]
      split <;> rfl
    · simp only [Scheduler.phase?, List.getElem?_map, Option.map_map, Option.map_eq_some_iff,
        Function.comp] at done ⊢
      obtain ⟨c, found, phase⟩ := done
      split at phase
      · cases phase
      · exact ⟨c, found, phase⟩

end Quiet

/-- Every done chunk has been vouched for under its address, and the index leads to the
chunk of the address it is asked for. -/
structure Vouched (vouch : Addr → Prop) (s : Scheduler F) : Prop where
  inv : Inv s
  named : ∀ a i, s.index.lookup a = some i → s.chunkAddr i = some a
  done : ∀ i a, s.phase? i = some .done → s.chunkAddr i = some a → vouch a

namespace Vouched

variable {vouch more : Addr → Prop} {s t : Scheduler F}

theorem mono (h : Vouched vouch s) (le : ∀ a, vouch a → more a) : Vouched more s :=
  { h with done := fun i a done at_i => le a (h.done i a done at_i) }

theorem quiet (h : Vouched vouch s) (kept : s.Kept t) (quiet : Quiet s t) : Vouched vouch t where
  inv := (kept h.inv).1
  named a i known := (quiet.addrs i).trans (h.named a i (quiet.index ▸ known))
  done i a done at_i := h.done i a (quiet.done i done) ((quiet.addrs i).symm.trans at_i)

theorem withPolicy [F64 F] (lanes : List (LaneInfo F)) (cfg : Config F) (policy : CompletionPolicy) :
    Vouched vouch (Scheduler.withPolicy lanes cfg policy) where
  inv := inv_withPolicy lanes cfg policy
  named := by simp [Scheduler.withPolicy]
  done := by simp [Scheduler.withPolicy, Scheduler.phase?]

theorem admitOne (h : Vouched vouch s) (chunk : Addr × Nat) : Vouched vouch (s.admitOne chunk) := by
  have inv := (Scheduler.admitOne_kept s chunk h.inv).1
  cases known : s.index.lookup chunk.1 with
  | some i =>
    have same : s.admitOne chunk = s := by
      unfold Scheduler.admitOne
      rw [known]
    rw [same]
    exact h
  | none =>
    refine { inv, named := ?_, done := ?_ }
    all_goals
      unfold Scheduler.admitOne
      rw [known]
      dsimp only
    · intro a i found
      rcases lookup_insert_cases found with ⟨rfl, rfl⟩ | ⟨_, found⟩
      · simp [Scheduler.chunkAddr]
      · have old := h.inv.indexed a i found
        rw [← h.named a i found]
        simp [Scheduler.chunkAddr, List.getElem?_append_left old]
    · intro i a done at_i
      by_cases old : i < s.chunks.length
      · simp only [Scheduler.phase?, Scheduler.chunkAddr, List.getElem?_append_left old] at done at_i
        exact h.done i a done at_i
      · -- the chunk that was just admitted is pending
        simp only [Scheduler.phase?, List.getElem?_append_right (Nat.le_of_not_lt old),
          List.getElem?_singleton] at done
        split at done <;> cases done

theorem admitChunks (h : Vouched vouch s) (chunks : List (Addr × Nat)) :
    Vouched vouch (s.admitChunks chunks).1 := by
  unfold Scheduler.admitChunks
  dsimp only
  induction chunks generalizing s with
  | nil => exact h
  | cons chunk rest ih => exact ih (h.admitOne chunk)

theorem settleAck {ci : Nat} {c : ChunkState} (h : Vouched vouch s) (found : s.chunks[ci]? = some c)
    (live : ¬(c.phase = .done ∨ c.phase = .skipped)) (vouched : vouch c.addr) :
    Vouched vouch (s.settleAck ci c) := by
  have kept : s.Kept (s.settleAck ci c) := Scheduler.settleAck_kept found live fun _ _ _ no => no
  have addrs : ∀ i, (s.settleAck ci c).chunkAddr i = s.chunkAddr i := by
    intro i
    unfold Scheduler.chunkAddr Scheduler.settleAck
    dsimp only
    rw [Scheduler.getElem?_updChunk]
    by_cases same : ci = i
    · subst same
      simp [found]
    · cases s.chunks[i]? <;> simp [same]
  refine { inv := (kept h.inv).1, named := ?_, done := ?_ }
  · exact fun a i known => (addrs i).trans (h.named a i known)
  · intro i a done at_i
    rw [addrs] at at_i
    by_cases same : ci = i
    · subst same
      rw [Scheduler.chunkAddr, found] at at_i
      cases at_i
      exact vouched
    · refine h.done i a ?_ at_i
      unfold Scheduler.phase? Scheduler.settleAck at done
      dsimp only at done
      rw [Scheduler.getElem?_updChunk] at done
      simpa [same, Scheduler.phase?] using done

theorem onAck (h : Vouched vouch s) (lane : Nat) (addr : Addr) (ok : Bool)
    (vouched : ok = true → vouch addr) : Vouched vouch (s.onAck lane addr ok) := by
  cases known : s.index.lookup addr with
  | none =>
    unfold Scheduler.onAck
    rw [known]
    exact h
  | some ci =>
    have named := h.named addr ci known
    obtain ⟨c, found, rfl⟩ := Option.map_eq_some_iff.mp named
    rcases Scheduler.onAck_cases lane known found ok with ⟨_, out⟩ | ⟨live, f, out⟩
    · rw [out]
      exact h
    · rw [out]
      have laneOnly : ∀ u : Scheduler F, Quiet u (u.updLane lane f) := fun u => .frame rfl rfl
      cases ok with
      | false =>
        have counted := h.quiet (Scheduler.updLane_kept s lane f) (laneOnly s)
        refine counted.quiet ?_ (.givenUp found (Scheduler.nack_cases found))
        exact Scheduler.givenUp_kept found live (Scheduler.nack_cases found) fun _ _ no => no.elim
      | true =>
        have acked := h.settleAck found live (vouched rfl)
        have counted := acked.quiet (Scheduler.updLane_kept _ lane f) (laneOnly _)
        exact counted.quiet (Scheduler.onGroupAck_kept _ ci) (.onGroupAck _ ci)

theorem of_all_acked (h : Vouched vouch s) (all : s.total ≤ s.acked) {a : Addr} {i : Nat}
    (known : s.index.lookup a = some i) : vouch a := by
  have named := h.named a i known
  obtain ⟨c, found, _⟩ := Option.map_eq_some_iff.mp named
  have full : s.chunks.countP (·.phase = .done) = s.chunks.length :=
    Nat.le_antisymm List.countP_le_length (h.inv.ackedCount ▸ all)
  have done := List.countP_eq_length.mp full c (List.mem_of_getElem? found)
  refine h.done i a ?_ named
  rw [Scheduler.phase?, found, Option.map_some, of_decide_eq_true done]

end Vouched

theorem isSome_admitOne (s : Scheduler F) (chunk : Addr × Nat) (a : Addr)
    (known : (s.index.lookup a).isSome ∨ a = chunk.1) : ((s.admitOne chunk).index.lookup a).isSome := by
  unfold Scheduler.admitOne
  split
  · rename_i i found
    rcases known with known | rfl
    · exact known
    · rw [found]
      rfl
  · dsimp only
    by_cases same : a = chunk.1
    · subst same
      rw [AList.lookup_insert]
      rfl
    · rw [AList.lookup_insert_ne same]
      exact known.resolve_right same

theorem isSome_admitChunks (s : Scheduler F) (chunks : List (Addr × Nat)) (a : Addr)
    (known : (s.index.lookup a).isSome ∨ a ∈ chunks.map (·.1)) :
    ((s.admitChunks chunks).1.index.lookup a).isSome := by
  unfold Scheduler.admitChunks
  dsimp only
  induction chunks generalizing s with
  | nil => simpa using known
  | cons chunk rest ih =>
    apply ih
    rw [List.map_cons, List.mem_cons, ← or_assoc] at known
    exact known.imp_left (isSome_admitOne s chunk a)

theorem onAck_index (s : Scheduler F) (lane : Nat) (addr : Addr) (ok : Bool) :
    (s.onAck lane addr ok).index = s.index := by
  cases known : s.index.lookup addr with
  | none =>
    unfold Scheduler.onAck
    rw [known]
  | some ci =>
    cases found : s.chunks[ci]? with
    | none =>
      unfold Scheduler.onAck
      rw [known]
      dsimp only
      rw [found]
    | some c =>
      rcases Scheduler.onAck_cases lane known found ok with ⟨_, out⟩ | ⟨_, f, out⟩
      · rw [out]
      · rw [out]
        cases ok with
        | false =>
          have given : Scheduler.GivenUp (s.updLane lane f) lane ci c ((s.updLane lane f).nack lane ci) :=
            Scheduler.nack_cases found
          exact (Quiet.givenUp (s := s.updLane lane f) found given).index
        | true => exact (Quiet.onGroupAck _ ci).index

end Hoverfly.Sched
