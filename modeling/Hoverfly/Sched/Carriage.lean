import Hoverfly.Sched.Tracked

/-! Every step of the honest protocol keeps carriage by lane in agreement with
carriage by batch, as long as results come in cleanly. -/
namespace Hoverfly.Sched
open Lib

variable {F : Type}

theorem refunded_alike (c : ChunkState) :
    Alike c (if Scheduler.unresolved c then
      { c with attempts := if c.attempts = 0 then 0 else c.attempts - 1 } else c) := by
  split
  · refine ⟨rfl, rfl, rfl, id, ?_⟩
    dsimp only
    split
    · exact UInt16.le_iff_toNat_le.mpr (Nat.zero_le _)
    · rename_i some_
      apply UInt16.sub_le
      have positive := UInt16.lt_iff_toNat_lt.mp (UInt16.pos_iff_ne_zero.mpr some_)
      exact UInt16.le_iff_toNat_le.mpr positive
  · exact .refl c

theorem foldl_updChunk_look (f : ChunkState → ChunkState) {picked : List Nat} (nodup : picked.Nodup)
    (s : Scheduler F) (i : Nat) :
    (picked.foldl (fun t ci => t.updChunk ci f) s).chunks[i]? =
      (s.chunks[i]?).map fun c => if i ∈ picked then f c else c := by
  rw [Scheduler.foldl_updChunk_iterate]
  congr 1
  funext c
  by_cases member : i ∈ picked
  · simp [member, List.count_eq_one_of_mem nodup member]
  · simp [member, List.count_eq_zero.mpr member]

theorem markHedged_look (s : Scheduler F) {picked : List Nat} (nodup : picked.Nodup) (i : Nat) :
    (s.markHedged picked).chunks[i]? =
      (s.chunks[i]?).map fun c => if i ∈ picked then { c with hedged := true } else c :=
  foldl_updChunk_look _ nodup _ i

structure Dispatched (s : Scheduler F) (lane : Nat) (picked : List Nat) (hedge : Bool) (nowMs : Nat)
    (d : Scheduler F) : Prop where
  chunks : ∀ i : Nat, d.chunks[i]? =
    (s.chunks[i]?).map fun c => if i ∈ picked then Scheduler.dispatchChunk lane hedge nowMs c else c
  outstanding : d.outstanding = s.outstanding.insert s.nextBatchId (lane, picked)
  index : d.index = s.index
  cfg : d.cfg = s.cfg
  failed : d.failed = s.failed
  pending : d.pending = if hedge then s.pending else s.pending.filter d.isPending

theorem dispatch_spec (s : Scheduler F) (lane : Nat) (picked : List Nat) (hedge : Bool) (nowMs : Nat)
    (nodup : picked.Nodup) :
    Dispatched s lane picked hedge nowMs (s.dispatch lane picked hedge nowMs).1 := by
  have look := foldl_updChunk_look (Scheduler.dispatchChunk lane hedge nowMs) nodup s
  obtain ⟨_, frame⟩ := Scheduler.foldl_updChunk_frame (Scheduler.dispatchChunk lane hedge nowMs) picked s
  unfold Scheduler.dispatch
  dsimp only at frame ⊢
  generalize picked.foldl (fun t ci => t.updChunk ci (Scheduler.dispatchChunk lane hedge nowMs)) s = t
    at look frame
  cases hedge with
  | true => exact ⟨look, by rw [frame]; rfl, by rw [frame]; rfl, by rw [frame]; rfl, by rw [frame]; rfl,
      by rw [frame]; rfl⟩
  | false => exact ⟨look, by rw [frame]; rfl, by rw [frame]; rfl, by rw [frame]; rfl, by rw [frame]; rfl,
      by rw [frame]; rfl⟩

structure Fit (t : Tracked F) (lane : Nat) (picked : List Nat) (hedge : Bool) : Prop where
  inRange : lane < t.sched.lanes.length
  nodup : picked.Nodup
  each : ∀ ci ∈ picked, ∃ c, t.sched.chunks[ci]? = some c ∧ lane ∉ c.on ∧
    ((hedge = false ∧ c.phase = .pending) ∨ (hedge = true ∧ c.phase = .inFlight ∧ c.hedged = true))

def Tracked.sent (t : Tracked F) (d : Scheduler F) (picked : List Nat) : Tracked F :=
  { sched := d, unanswered := Function.update t.unanswered t.sched.nextBatchId picked }

structure Taken (lane : Nat) (c e : ChunkState) : Prop where
  live : ¬Resolved c
  kept : c.phase ≠ .failed
  addr : e.addr = c.addr
  flying : e.phase = .inFlight
  on : e.on = c.on ++ [lane]
  bare : e.hedged = false → c.on = []

namespace CarriedX

variable {strict : Prop} {exempt exempt' : Nat → Nat → Prop} {t : Tracked F} {ci batch lane i : Nat} {cs : List Nat}

theorem range (h : CarriedX strict exempt t) {b l : Nat} (carries : t.Carries b l ci) :
    ci < t.sched.chunks.length := by
  obtain ⟨⟨cs, found⟩, open_⟩ := carries
  exact (h.inv.batched b l cs found).2.2 ci (h.within b l cs found ci open_)

theorem admitOne (h : Carried strict t) (chunk : Addr × Nat) :
    Carried strict { t with sched := t.sched.admitOne chunk } := by
  have inv := (Scheduler.admitOne_kept t.sched chunk h.inv).1
  unfold Scheduler.admitOne at inv ⊢
  split
  · exact h
  rename_i unknown
  rw [unknown] at inv
  dsimp only at inv ⊢
  have look : ∀ (i : Nat) (c d : ChunkState), (t.sched.chunks ++ [d])[i]? = some c →
      t.sched.chunks[i]? = some c ∨ (i = t.sched.chunks.length ∧ c = d) := by
    intro i c d found
    by_cases old : i < t.sched.chunks.length
    · rw [List.getElem?_append_left old] at found
      exact .inl found
    · rw [List.getElem?_append_right (by omega)] at found
      obtain ⟨at0, same⟩ := List.getElem?_eq_some_iff.mp found
      rw [List.length_singleton] at at0
      exact .inr ⟨by omega, by simpa using same.symm⟩
  have kept : ∀ {i : Nat} {c : ChunkState} (d : ChunkState), t.sched.chunks[i]? = some c →
      (t.sched.chunks ++ [d])[i]? = some c := by
    intro i c d found
    rw [List.getElem?_append_left (List.getElem?_eq_some_iff.mp found).1, found]
  refine { h with
    inv := inv, addressed := ?_, once := ?_, waiting := ?_, carried := ?_
    backed := ?_, lone := ?_, retried := ?_, counted := ?_, spent := ?_ }
  · intro i c found
    rcases look i c _ found with found | ⟨rfl, rfl⟩
    · have known := h.addressed i c found
      have other : c.addr ≠ chunk.1 := fun same => by
        rw [same, unknown] at known
        cases known
      exact (AList.lookup_insert_ne other).trans known
    · exact AList.lookup_insert _
  · refine List.nodup_append.mpr ⟨h.once, List.nodup_singleton _, ?_⟩
    intro i member j single same
    have old := h.inv.listed i member
    rw [List.mem_singleton] at single
    omega
  · intro ci member
    apply Scheduler.isPending_iff.mpr
    rcases List.mem_append.mp member with member | single
    · obtain ⟨c, found, p⟩ := Scheduler.isPending_iff.mp (h.waiting ci member)
      exact ⟨c, kept _ found, p⟩
    · rw [List.mem_singleton] at single
      subst single
      exact ⟨_, List.getElem?_concat_length, rfl⟩
  · intro b l ci carries c found
    rcases look ci c _ found with found | ⟨rfl, _⟩
    · exact h.carried b l ci carries c found
    · exact absurd (h.range carries) (Nat.lt_irrefl _)
  · intro i c l found on
    rcases look i c _ found with found | ⟨_, rfl⟩
    · exact h.backed i c l found on
    · cases on
  · intro i c found one
    rcases look i c _ found with found | ⟨_, rfl⟩
    · exact h.lone i c found one
    · exact Nat.zero_le _
  · rintro i c found p ⟨b, l, cs, at_b, member⟩
    rcases look i c _ found with found | ⟨rfl, _⟩
    · exact h.retried i c found p ⟨b, l, cs, at_b, member⟩
    · exact absurd ((h.inv.batched b l cs at_b).2.2 _ member) (Nat.lt_irrefl _)
  · intro exact_
    simpa using h.counted exact_
  · intro exact_ i c found p
    rcases look i c _ found with found | ⟨_, rfl⟩
    · exact h.spent exact_ i c found p
    · cases p

theorem admitChunks (h : Carried strict t) (chunks : List (Addr × Nat)) :
    Carried strict { t with sched := (t.sched.admitChunks chunks).1 } := by
  unfold Scheduler.admitChunks
  induction chunks generalizing t with
  | nil => exact h
  | cons chunk rest ih => exact ih (admitOne h chunk)

theorem admitGroup (h : Carried strict t) (chunks : List (Addr × Nat)) (need : UInt16) :
    Carried strict { t with sched := (t.sched.admitGroup chunks need).1 } := by
  have inv := (Scheduler.admitGroup_kept t.sched chunks need h.inv).1
  have grouped : Carried strict { t with
      sched := { t.sched with groups := t.sched.groups ++ [{ need, acked := 0 }] } } :=
    frame h _ { h.inv with } rfl rfl rfl rfl rfl rfl
  have all := admitChunks grouped chunks
  refine relabel all _ inv _ (fun i => List.getElem?_mapIdx) ?_ ?_
  · intro i c
    split
    · exact ⟨rfl, rfl, rfl, id, UInt16.le_refl _⟩
    · exact .refl c
  · intro _ i c _ _
    split
    · rfl
    · rfl

theorem skip (h : Carried strict t) (drop : ChunkState → Bool)
    (waiting : ∀ c, drop c = true → c.phase = .pending) :
    let s := { t.sched with
      chunks := t.sched.chunks.map fun c => if drop c then { c with phase := .skipped } else c
      skipped := t.sched.skipped + t.sched.chunks.countP drop }
    Carried strict { t with sched := { s with pending := s.pending.filter s.isPending } } := by
  intro s
  have inv := (((Scheduler.skip_kept t.sched drop waiting).trans (Scheduler.pending_kept _)) h.inv).1
  have look : ∀ {i : Nat} {d : ChunkState}, s.chunks[i]? = some d → ∃ c, t.sched.chunks[i]? = some c ∧
      ((drop c = true ∧ d = { c with phase := .skipped }) ∨ (drop c = false ∧ d = c)) := by
    intro i d found
    obtain ⟨c, here, rfl⟩ := Option.map_eq_some_iff.mp ((List.getElem?_map ..).symm.trans found)
    refine ⟨c, here, ?_⟩
    cases drop c <;> simp
  refine { h with
    inv := inv, addressed := ?_, once := h.once.filter _, waiting := ?_, carried := ?_
    backed := ?_, lone := ?_, retried := ?_, counted := ?_, spent := ?_ }
  · intro i d found
    obtain ⟨c, here, ⟨_, rfl⟩ | ⟨_, rfl⟩⟩ := look found
    · exact h.addressed i c here
    · exact h.addressed i d here
  · exact fun ci member => (List.mem_filter.mp member).2
  · intro b l ci carries d found
    obtain ⟨c, here, ⟨_, rfl⟩ | ⟨_, rfl⟩⟩ := look found
    · exact .inl (.inr rfl)
    · exact h.carried b l ci carries d here
  · intro i d l found on
    obtain ⟨c, here, ⟨_, rfl⟩ | ⟨_, rfl⟩⟩ := look found
    · exact h.backed i c l here on
    · exact h.backed i d l here on
  · intro i d found one
    obtain ⟨c, here, ⟨_, rfl⟩ | ⟨_, rfl⟩⟩ := look found
    · exact h.lone i c here one
    · exact h.lone i d here one
  · intro i d found p out
    obtain ⟨c, here, ⟨_, rfl⟩ | ⟨_, rfl⟩⟩ := look found
    · cases p
    · exact h.retried i d here p out
  · intro exact_
    have count : s.chunks.countP (·.phase = .failed) = t.sched.chunks.countP (·.phase = .failed) := by
      rw [List.countP_map]
      congr 1
      funext c
      by_cases dropped : drop c = true
      · simp [dropped, waiting c dropped]
      · simp [dropped]
    exact (h.counted exact_).trans count.symm
  · intro exact_ i d found p
    obtain ⟨c, here, ⟨_, rfl⟩ | ⟨_, rfl⟩⟩ := look found
    · cases p
    · exact h.spent exact_ i d here p

theorem onGroupAck (h : Carried strict t) (ci : Nat) :
    Carried strict { t with sched := t.sched.onGroupAck ci } := by
  unfold Scheduler.onGroupAck
  split
  · exact h
  split
  · exact h
  rename_i gid _
  have counted : Carried strict { t with sched := { t.sched with
      groups := t.sched.groups.modify gid fun g => { g with acked := g.acked + 1 } } } :=
    frame h _ { h.inv with } rfl rfl rfl rfl rfl rfl
  dsimp only
  split
  · exact counted
  · exact skip counted (fun c => decide (c.group = some gid ∧ c.phase = .pending))
      fun c dropped => (of_decide_eq_true dropped).2

theorem answered (h : Carried strict t) (ci : Nat) (out : t.sched.outstanding.lookup batch = some (lane, cs)) :
    CarriedX strict (fun i l => i = ci ∧ l = lane) (t.answer batch ci) := by
  refine fewer h t.sched.outstanding _ (h.inv.weaken fun _ _ _ _ _ no => no.elim)
    (fun _ _ found => found) (fun b _ i open_ => (Tracked.mem_answer.mp open_).1)
    (fun _ _ no => no.elim) ?_
  rintro b l i ⟨⟨cs', found⟩, open_⟩
  by_cases this : b = batch ∧ i = ci
  · obtain ⟨rfl, rfl⟩ := this
    rw [out] at found
    cases found
    exact .inl ⟨rfl, rfl⟩
  · exact .inr ⟨⟨cs', found⟩, Tracked.mem_answer.mpr ⟨open_, this⟩⟩

theorem not_carries_answered (h : Carried strict t)
    (mine : t.Carries batch lane ci) (b : Nat) : ¬(t.answer batch ci).Carries b lane ci := by
  rintro ⟨out, open_⟩
  obtain ⟨open_, other⟩ := Tracked.mem_answer.mp open_
  exact other ⟨h.single b batch lane ci ⟨out, open_⟩ mine, rfl⟩

theorem closed (h : Carried strict t) (out : t.sched.outstanding.lookup batch = some (lane, cs)) :
    CarriedX strict (fun i l => i ∈ cs ∧ l = lane)
      { t.close batch with sched := { t.sched with outstanding := t.sched.outstanding.erase batch } } := by
  refine fewer h _ _ (Scheduler.erase_kept out h.inv).1 ?_
    (fun b _ i open_ => (Tracked.mem_close.mp open_).1) (fun _ _ no => no.elim) ?_
  · exact fun b e found => (lookup_of_erase found).2
  · rintro b l i ⟨⟨cs', found⟩, open_⟩
    by_cases same : b = batch
    · subst same
      rw [out] at found
      cases found
      exact .inl ⟨h.within b lane cs out i open_, rfl⟩
    · exact .inr ⟨⟨cs', (AList.lookup_erase_ne same).trans found⟩, Tracked.mem_close.mpr ⟨open_, same⟩⟩

theorem lanes (h : CarriedX strict exempt t) (lane : Nat) (f : Lane F → Lane F) :
    CarriedX strict exempt { t with sched := t.sched.updLane lane f } :=
  frame h _ (Scheduler.InvX.updLane h.inv lane f) rfl rfl rfl rfl rfl rfl

theorem settleAck (h : CarriedX strict exempt t) {c : ChunkState}
    (found : t.sched.chunks[ci]? = some c) (flying : c.phase = .inFlight)
    (others : ∀ i l, i ≠ ci → exempt i l → exempt' i l) :
    CarriedX strict exempt' { t with sched := t.sched.settleAck ci c } := by
  have live : ¬Resolved c := by
    rintro (p | p) <;> rw [flying] at p <;> cases p
  have inv := (Scheduler.settleAck_kept found live others h.inv).1
  unfold Scheduler.settleAck at inv ⊢
  apply updOne h found t.sched.pending (t.sched.acked + 1) t.sched.failed inv rfl h.once
  · exact fun i member _ => member
  · intro member
    have p := Scheduler.phase_of_isPending (h.waiting ci member) found
    rw [flying] at p
    cases p
  · exact fun _ _ _ => .inl (.inl rfl)
  · exact fun l on => by cases on
  · exact others
  · exact fun _ => Nat.zero_le _
  · exact fun p => by cases p
  · intro _
    simp [flying]
  · exact fun _ p => by cases p

theorem onAck (h : Carried strict t) {c : ChunkState}
    (mine : t.Carries batch lane ci) (found : t.sched.chunks[ci]? = some c) (ok : Bool) :
    Carried strict { t.answer batch ci with sched := t.sched.onAck lane c.addr ok } := by
  obtain ⟨cs, out⟩ := mine.1
  have half := answered h ci out
  rcases Scheduler.onAck_cases lane (h.addressed ci c found) found ok with ⟨final, same⟩ | ⟨live, f, same⟩
  · -- A resolved chunk has no lane left to account for.
    have bare : c.on = [] := by
      apply h.inv.idle ci c found
      rcases final with p | p <;> rw [p] <;> decide
    rw [same]
    refine { half with inv := h.inv, backed := ?_ }
    intro i d l at_i on
    rcases half.backed i d l at_i on with ⟨rfl, rfl⟩ | carries
    · rw [show t.sched.chunks[i]? = some d from at_i] at found
      cases found
      rw [bare] at on
      cases on
    · exact .inr carries
  · have flying := ((h.carried batch lane ci mine c found).resolve_left live).1
    rw [same]
    cases ok with
    | false =>
      refine givenUp (lanes half lane f) found live (Scheduler.nack_cases found) (fun _ _ e => .inl e)
        (not_carries_answered h mine) ?_ ?_
      · intro p
        rw [flying] at p
        cases p
      · intro _ p
        rw [flying] at p
        cases p
    | true =>
      have acked := settleAck half found flying fun i l ne e => ne e.1
      exact onGroupAck (lanes acked lane f) ci

theorem refundAttempt (h : CarriedX strict exempt t) (ci : Nat)
    (flies : strict → ∀ c, t.sched.chunks[ci]? = some c → c.phase ≠ .failed) :
    CarriedX strict exempt { t with sched := t.sched.refundAttempt ci } := by
  have inv := (Scheduler.refundAttempt_kept t.sched ci h.inv).1
  refine relabel h _ inv _ (fun i => Scheduler.getElem?_updChunk _ ci i _) ?_ ?_
  · intro i c
    split
    · exact refunded_alike c
    · exact .refl c
  · intro exact_ i c found p
    by_cases same : ci = i
    · subst same
      exact absurd p (flies exact_ c found)
    · rw [if_neg same]

theorem requeue (h : CarriedX strict exempt t) (lane ci : Nat)
    (less : ∀ i l, exempt i l → (i = ci ∧ l = lane) ∨ exempt' i l)
    (free : ∀ b c, t.Carries b lane ci → t.sched.chunks[ci]? = some c → Resolved c)
    (waits : ∀ c, t.sched.chunks[ci]? = some c → c.phase = .pending →
      c.attempts < t.sched.cfg.maxAttempts) :
    CarriedX strict exempt' { t with sched := Scheduler.requeue lane t.sched ci } := by
  have inv := (Scheduler.requeue_kept t.sched lane ci less h.inv).1
  have same (kept : Scheduler.requeue lane t.sched ci = t.sched)
      (none_ : ∀ c, t.sched.chunks[ci]? = some c → c.on = []) :
      CarriedX strict exempt' { t with sched := Scheduler.requeue lane t.sched ci } := by
    rw [kept] at inv ⊢
    refine { h with inv := inv, backed := ?_ }
    intro i d l at_i on
    rcases h.backed i d l at_i on with e | carries
    · rcases less i l e with ⟨rfl, rfl⟩ | e
      · rw [none_ d at_i] at on
        cases on
      · exact .inl e
    · exact .inr carries
  cases found : t.sched.chunks[ci]? with
  | none =>
    apply same
    · unfold Scheduler.requeue
      rw [found]
    · intro c no
      rw [found] at no
      cases no
  | some c =>
    have only : ∀ d, t.sched.chunks[ci]? = some d → d = c := by
      intro d at_ci
      rw [found] at at_ci
      exact (Option.some.inj at_ci).symm
    rcases Scheduler.requeue_cases lane found with ⟨final, out⟩ | ⟨live, ⟨_, kept, out⟩ | ⟨phase, out⟩⟩
    · apply same out
      intro d at_ci
      rw [only d at_ci]
      apply h.inv.idle ci c found
      rcases final with p | p <;> rw [p] <;> decide
    · have idle : c.on = [] := by
        apply h.inv.idle ci c found
        rcases kept with ⟨p, _⟩ | ⟨p, _⟩ <;> rw [p] <;> decide
      have whole : ({ c with on := [] } : ChunkState) = c := by rw [← idle]
      rw [whole, Scheduler.updChunk_self found] at out
      exact same out fun d at_ci => by rw [only d at_ci, idle]
    · refine givenUp h found live out less (fun b carries => live (free b c carries found)) ?_ ?_
      · intro p
        have tries := waits c found p
        exact ⟨tries, fun none_ => UInt16.not_le.mpr tries ((phase none_).2 p)⟩
      · intro exact_ p none_
        exact UInt16.not_le.mpr ((phase none_).1 p) (h.spent exact_ ci c found p)

def Closing (t : Tracked F) (lane ci : Nat) : Prop :=
  ∀ c, t.sched.chunks[ci]? = some c → (∀ b, t.Carries b lane ci → Resolved c) ∧
    (c.phase = .pending → c.attempts < t.sched.cfg.maxAttempts)

theorem closing_requeue (mine : Closing t lane i) :
    Closing { t with sched := Scheduler.requeue lane t.sched ci } lane i := by
  cases found : t.sched.chunks[ci]? with
  | none =>
    unfold Scheduler.requeue
    rw [found]
    exact mine
  | some c =>
    obtain ⟨d, chunks, out, cfg, tries, change⟩ := Scheduler.requeue_spec lane found
    intro e at_i
    have back : ∀ {b}, Tracked.Carries { t with sched := Scheduler.requeue lane t.sched ci } b lane i →
        t.Carries b lane i := by
      rintro b ⟨⟨cs, at_b⟩, open_⟩
      exact ⟨⟨cs, out ▸ at_b⟩, open_⟩
    simp only [chunks, cfg] at at_i ⊢
    rw [Scheduler.getElem?_updChunk] at at_i
    by_cases same : ci = i
    · subst same
      rw [found] at at_i
      simp only [if_true, Option.map_some, Option.some.injEq] at at_i
      subst at_i
      obtain ⟨free, waits⟩ := mine c found
      rcases change with ⟨_, rfl⟩ | ⟨live, _, _, queued⟩
      · exact ⟨fun b carries => free b (back carries), waits⟩
      · refine ⟨fun b carries => absurd (free b (back carries)) live, fun p => ?_⟩
        rw [tries]
        exact (queued p).elim waits id
    · simp only [if_neg same, Option.map_id_fun', id_eq] at at_i
      obtain ⟨free, waits⟩ := mine e at_i
      exact ⟨fun b carries => free b (back carries), waits⟩

theorem requeueLoop (lane : Nat) (chunks : List Nat)
    (h : CarriedX strict (fun ci l => ci ∈ chunks ∧ l = lane) t)
    (closing : ∀ ci ∈ chunks, Closing t lane ci) :
    Carried strict { t with sched := chunks.foldl (Scheduler.requeue lane) t.sched } := by
  induction chunks generalizing t with
  | nil =>
    refine { h with inv := h.inv.weaken fun _ _ _ _ _ e => (List.not_mem_nil e.1).elim, backed := ?_ }
    intro i c l found on
    exact .inr ((h.backed i c l found on).resolve_left fun e => List.not_mem_nil e.1)
  | cons ci rest ih =>
    have first := closing ci (List.mem_cons_self ..)
    refine ih (requeue h lane ci ?_ ?_ ?_) ?_
    · rintro i l ⟨member, rfl⟩
      rcases List.mem_cons.mp member with rfl | member
      · exact .inl ⟨rfl, rfl⟩
      · exact .inr ⟨member, rfl⟩
    · exact fun b c carries found => (first c found).1 b carries
    · exact fun c found => (first c found).2
    · exact fun i member => closing_requeue (closing i (List.mem_cons_of_mem _ member))

theorem Closing.alike (mine : Closing t lane i) (s : Scheduler F)
    (out : s.outstanding = t.sched.outstanding) (cfg : s.cfg = t.sched.cfg)
    (look : ∀ d, s.chunks[i]? = some d → ∃ c, t.sched.chunks[i]? = some c ∧ Alike c d) :
    Closing { t with sched := s } lane i := by
  intro d at_i
  obtain ⟨c, found, like⟩ := look d at_i
  obtain ⟨free, waits⟩ := mine c found
  refine ⟨?_, ?_⟩
  · rintro b ⟨⟨cs, at_b⟩, open_⟩
    rw [Resolved, like.phase]
    exact free b ⟨⟨cs, out ▸ at_b⟩, open_⟩
  · intro p
    rw [like.phase] at p
    exact UInt16.lt_of_le_of_lt like.attempts (cfg ▸ waits p)

theorem refunded_look {d : ChunkState} (at_i : (t.sched.refundAttempt ci).chunks[i]? = some d) :
    ∃ c, t.sched.chunks[i]? = some c ∧ Alike c d := by
  unfold Scheduler.refundAttempt at at_i
  rw [Scheduler.getElem?_updChunk] at at_i
  obtain ⟨c, found, rfl⟩ := Option.map_eq_some_iff.mp at_i
  refine ⟨c, found, ?_⟩
  split
  · exact refunded_alike c
  · exact .refl c

theorem refundLoop (lane : Nat) (chunks all : List Nat) (sub : ∀ ci ∈ chunks, ci ∈ all)
    (h : CarriedX strict exempt t) (closing : ∀ ci ∈ all, Closing t lane ci)
    (flies : strict → ∀ ci ∈ all, ∀ c, t.sched.chunks[ci]? = some c → c.phase ≠ .failed) :
    CarriedX strict exempt { t with sched := chunks.foldl Scheduler.refundAttempt t.sched } ∧
      ∀ ci ∈ all, Closing { t with sched := chunks.foldl Scheduler.refundAttempt t.sched } lane ci := by
  induction chunks generalizing t with
  | nil => exact ⟨h, closing⟩
  | cons ci rest ih =>
    have first := refundAttempt h ci fun exact_ => flies exact_ ci (sub ci (List.mem_cons_self ..))
    refine ih (fun i member => sub i (List.mem_cons_of_mem _ member)) first ?_ ?_
    · exact fun i member => (closing i member).alike _ rfl rfl fun d => refunded_look
    · intro exact_ i member d at_i
      obtain ⟨c, found, like⟩ := refunded_look at_i
      rw [like.phase]
      exact flies exact_ i member c found

theorem settleLane (lane : Nat) (chunks : List Nat) (outcome : BatchOutcome) (nowMs : Nat)
    (h : CarriedX strict exempt t) (closing : ∀ ci ∈ chunks, Closing t lane ci)
    (flies : strict → outcome = .paymentRequired → ∀ ci ∈ chunks, ∀ c,
      t.sched.chunks[ci]? = some c → c.phase ≠ .failed) :
    CarriedX strict exempt { t with sched := t.sched.settleLane lane chunks outcome nowMs } ∧
      ∀ ci ∈ chunks, Closing { t with sched := t.sched.settleLane lane chunks outcome nowMs } lane ci := by
  have only (f : Lane F → Lane F) : CarriedX strict exempt { t with sched := t.sched.updLane lane f } ∧
      ∀ ci ∈ chunks, Closing { t with sched := t.sched.updLane lane f } lane ci :=
    ⟨lanes h lane f, fun ci member => (closing ci member).alike _ rfl rfl fun d found => ⟨d, found, .refl d⟩⟩
  unfold Scheduler.settleLane
  cases outcome with
  | answered =>
    dsimp only
    split <;> exact only _
  | failed e => exact only _
  | paymentRequired =>
    obtain ⟨carried, closing⟩ := only fun l => { l with health := .unfunded }
    exact refundLoop lane chunks chunks (fun _ member => member) carried closing
      fun exact_ => flies exact_ rfl

theorem onBatchResult (h : Carried strict t) {outcome : BatchOutcome}
    {nowMs : Nat} (out : t.sched.outstanding.lookup batch = some (lane, cs))
    (clean : Clean t (.call (.onBatchResult batch outcome nowMs)))
    (paid : strict → PaidFirst t (.call (.onBatchResult batch outcome nowMs))) :
    Carried strict { t.close batch with sched := t.sched.onBatchResult batch outcome nowMs } := by
  have half := lanes (closed h out) lane fun l => { l with inflight := l.inflight - 1 }
  have closing : ∀ ci ∈ cs, Closing { t.close batch with
      sched := ({ t.sched with outstanding := t.sched.outstanding.erase batch } : Scheduler F).updLane lane
        fun l => { l with inflight := l.inflight - 1 } } lane ci := by
    intro ci member c found
    refine ⟨?_, fun p => h.retried ci c found p ⟨batch, lane, cs, out, member⟩⟩
    rintro b ⟨⟨cs', at_b⟩, open_⟩
    obtain ⟨open_, other⟩ := Tracked.mem_close.mp open_
    have carries : t.Carries b lane ci := ⟨⟨cs', (AList.lookup_erase_ne other).symm.trans at_b⟩, open_⟩
    by_cases left : ci ∈ t.unanswered batch
    · exact absurd (h.single b batch lane ci carries ⟨⟨cs, out⟩, left⟩) other
    · exact clean lane cs out ci member left b other carries c found
  have flies : strict → outcome = .paymentRequired → ∀ ci ∈ cs, ∀ c,
      t.sched.chunks[ci]? = some c → c.phase ≠ .failed := by
    rintro exact_ rfl ci member c found p
    have all : t.unanswered batch = cs := paid exact_ lane cs out
    rcases h.carried batch lane ci ⟨⟨cs, out⟩, all ▸ member⟩ c found with (q | q) | ⟨q, _⟩ <;>
      rw [p] at q <;> cases q
  obtain ⟨settled, closing⟩ := settleLane lane cs outcome nowMs half closing flies
  unfold Scheduler.onBatchResult
  rw [out]
  exact requeueLoop lane cs settled closing

section Dispatch

variable {lane nowMs : Nat} {hedge : Bool} {picked : List Nat} {d : Scheduler F}

theorem ready (fit : Fit t lane picked hedge) : ∀ ci ∈ picked, t.sched.Ready hedge ci := by
  intro ci member
  obtain ⟨c, found, _, ⟨rfl, p⟩ | ⟨rfl, p, _⟩⟩ := fit.each ci member
  · exact ⟨c, found, .inr ⟨rfl, p⟩⟩
  · exact ⟨c, found, .inl p⟩

variable {i : Nat}

theorem taken (h : Carried strict t) (fit : Fit t lane picked hedge)
    (out : Dispatched t.sched lane picked hedge nowMs d) {e : ChunkState}
    (at_i : d.chunks[i]? = some e) (member : i ∈ picked) :
    ∃ c, t.sched.chunks[i]? = some c ∧ Taken lane c e := by
  obtain ⟨c, found, off, kind⟩ := fit.each i member
  rw [out.chunks, found, Option.map_some, if_pos member, Option.some.injEq] at at_i
  subst at_i
  refine ⟨c, found, ?_⟩
  unfold Scheduler.dispatchChunk
  rcases kind with ⟨rfl, p⟩ | ⟨rfl, p, marked⟩
  · exact ⟨by simp [p], by simp [p], rfl, rfl, rfl, fun _ => h.inv.idle i c found (by simp [p])⟩
  · exact ⟨by simp [p], by simp [p], rfl, p, rfl, by simp [marked]⟩

theorem untaken (out : Dispatched t.sched lane picked hedge nowMs d) {e : ChunkState}
    (at_i : d.chunks[i]? = some e) (other : i ∉ picked) : t.sched.chunks[i]? = some e := by
  rw [out.chunks] at at_i
  obtain ⟨c, found, rfl⟩ := Option.map_eq_some_iff.mp at_i
  rw [if_neg other, found]

theorem apart (fit : Fit t lane picked hedge) (h : Carried strict t) {b : Nat}
    (member : i ∈ picked) : ¬t.Carries b lane i := by
  intro carries
  obtain ⟨c, found, off, kind⟩ := fit.each i member
  rcases h.carried b lane i carries c found with final | ⟨_, on⟩
  · rcases kind with ⟨_, p⟩ | ⟨_, p, _⟩ <;> rw [Resolved, p] at final <;> simp at final
  · exact off on

theorem lookup_sent (out : Dispatched t.sched lane picked hedge nowMs d) (b : Nat) :
    d.outstanding.lookup b =
      if b = t.sched.nextBatchId then some (lane, picked) else t.sched.outstanding.lookup b := by
  rw [out.outstanding]
  split
  · rename_i same
    rw [same, AList.lookup_insert]
  · rename_i other
    rw [AList.lookup_insert_ne other]

theorem carries_sent (h : Carried strict t) (out : Dispatched t.sched lane picked hedge nowMs d)
    {b l : Nat} : (t.sent d picked).Carries b l i ↔
      (b = t.sched.nextBatchId ∧ l = lane ∧ i ∈ picked) ∨ t.Carries b l i := by
  unfold Tracked.sent Tracked.Carries
  simp only [lookup_sent out]
  by_cases same : b = t.sched.nextBatchId
  · subst same
    have fresh : t.sched.outstanding.lookup t.sched.nextBatchId = none := by
      cases at_b : t.sched.outstanding.lookup t.sched.nextBatchId with
      | none => rfl
      | some e => exact absurd (h.inv.batched _ e.1 e.2 at_b).1 (Nat.lt_irrefl _)
    simp [fresh, eq_comm]
  · simp [same]

theorem countFailed_sent (h : Carried strict t) (fit : Fit t lane picked hedge)
    (out : Dispatched t.sched lane picked hedge nowMs d) :
    d.chunks.countP (·.phase = .failed) = t.sched.chunks.countP (·.phase = .failed) := by
  have phases : d.chunks.map (fun c => decide (c.phase = .failed)) =
      t.sched.chunks.map (fun c => decide (c.phase = .failed)) := by
    apply List.ext_getElem?
    intro i
    rw [List.getElem?_map, List.getElem?_map]
    cases at_i : d.chunks[i]? with
    | none =>
      rw [out.chunks] at at_i
      rw [Option.map_eq_none_iff.mp at_i]
    | some e =>
      by_cases member : i ∈ picked
      · obtain ⟨c, found, change⟩ := taken h fit out at_i member
        rw [found]
        simp [change.flying, change.kept]
      · rw [untaken out at_i member]
  have count := congrArg (List.countP id) phases
  simpa only [List.countP_map, Function.comp_def, id_eq] using count

theorem waiting_sent (h : Carried strict t) (fit : Fit t lane picked hedge)
    (out : Dispatched t.sched lane picked hedge nowMs d) : ∀ ci ∈ d.pending, d.isPending ci = true := by
  intro ci listed
  rw [out.pending] at listed
  split at listed
  · rename_i hedged
    obtain ⟨c, found, p⟩ := Scheduler.isPending_iff.mp (h.waiting ci listed)
    have other : ci ∉ picked := by
      intro member
      obtain ⟨c', found', _, ⟨plain, _⟩ | ⟨_, q, _⟩⟩ := fit.each ci member
      · rw [hedged] at plain
        cases plain
      · rw [found] at found'
        cases found'
        rw [p] at q
        cases q
    refine Scheduler.isPending_iff.mpr ⟨c, ?_, p⟩
    rw [out.chunks, found, Option.map_some, if_neg other]
  · exact (List.mem_filter.mp listed).2

theorem dispatch (h : Carried strict t) (fit : Fit t lane picked hedge) (nowMs : Nat) :
    Carried strict (t.sent (t.sched.dispatch lane picked hedge nowMs).1 picked) := by
  have inv : Inv (t.sched.dispatch lane picked hedge nowMs).1 :=
    (Scheduler.dispatch_kept fit.inRange (ready fit) h.inv).1
  have out := dispatch_spec t.sched lane picked hedge nowMs fit.nodup
  generalize (t.sched.dispatch lane picked hedge nowMs).1 = d at inv out
  constructor
  · exact inv
  · intro i e at_i
    rw [show (t.sent d picked).sched.index = _ from out.index]
    by_cases member : i ∈ picked
    · obtain ⟨c, found, change⟩ := taken h fit out at_i member
      rw [change.addr]
      exact h.addressed i c found
    · exact h.addressed i e (untaken out at_i member)
  · rw [show (t.sent d picked).sched.pending = _ from out.pending]
    split
    · exact h.once
    · exact h.once.filter _
  · exact waiting_sent h fit out
  · intro b l cs at_b ci open_
    rw [show (t.sent d picked).sched.outstanding.lookup b = _ from lookup_sent out b] at at_b
    unfold Tracked.sent at open_
    by_cases same : b = t.sched.nextBatchId
    · simp only [same, if_true, Option.some.injEq, Prod.mk.injEq] at at_b
      rw [← at_b.2]
      simpa [same] using open_
    · rw [if_neg same] at at_b
      exact h.within b l cs at_b ci (by simpa [same] using open_)
  · intro b l i carries e at_i
    by_cases member : i ∈ picked
    · obtain ⟨c, found, change⟩ := taken h fit out at_i member
      refine .inr ⟨change.flying, ?_⟩
      rw [change.on]
      rcases (carries_sent h out).mp carries with ⟨_, rfl, _⟩ | carries
      · exact List.mem_append_right _ (List.mem_singleton_self _)
      · exact List.mem_append_left _ ((h.carried b l i carries c found).resolve_left change.live).2
    · rcases (carries_sent h out).mp carries with ⟨_, _, this⟩ | carries
      · exact absurd this member
      · exact h.carried b l i carries e (untaken out at_i member)
  · intro b b' l i one two
    rcases (carries_sent h out).mp one with ⟨rfl, rfl, member⟩ | one
    · rcases (carries_sent h out).mp two with ⟨rfl, _, _⟩ | two
      · rfl
      · exact absurd two (apart fit h member)
    · rcases (carries_sent h out).mp two with ⟨rfl, rfl, member⟩ | two
      · exact absurd one (apart fit h member)
      · exact h.single b b' l i one two
  · intro i e l at_i on
    refine .inr ?_
    by_cases member : i ∈ picked
    · obtain ⟨c, found, change⟩ := taken h fit out at_i member
      rw [change.on] at on
      rcases List.mem_append.mp on with on | on
      · obtain ⟨b, carries⟩ := (h.backed i c l found on).resolve_left id
        exact ⟨b, (carries_sent h out).mpr (.inr carries)⟩
      · exact ⟨_, (carries_sent h out).mpr (.inl ⟨rfl, List.mem_singleton.mp on, member⟩)⟩
    · obtain ⟨b, carries⟩ := (h.backed i e l (untaken out at_i member) on).resolve_left id
      exact ⟨b, (carries_sent h out).mpr (.inr carries)⟩
  · intro i e at_i one
    by_cases member : i ∈ picked
    · obtain ⟨c, _, change⟩ := taken h fit out at_i member
      rw [change.on, change.bare one]
      exact Nat.le_refl _
    · exact h.lone i e (untaken out at_i member) one
  · rintro i e at_i p ⟨b, l, cs, at_b, among⟩
    rw [show (t.sent d picked).sched.cfg = _ from out.cfg]
    have other : i ∉ picked := by
      intro member
      obtain ⟨_, _, change⟩ := taken h fit out at_i member
      rw [change.flying] at p
      cases p
    rw [show (t.sent d picked).sched.outstanding.lookup b = _ from lookup_sent out b] at at_b
    split at at_b
    · cases at_b
      exact absurd among other
    · exact h.retried i e (untaken out at_i other) p ⟨b, l, cs, at_b, among⟩
  · intro exact_
    rw [show (t.sent d picked).sched.failed = _ from out.failed, h.counted exact_]
    exact (countFailed_sent h fit out).symm
  · intro exact_ i e at_i p
    rw [show (t.sent d picked).sched.cfg = _ from out.cfg]
    by_cases member : i ∈ picked
    · obtain ⟨_, _, change⟩ := taken h fit out at_i member
      rw [change.flying] at p
      cases p
    · exact h.spent exact_ i e (untaken out at_i member) p

end Dispatch

theorem expireBackoffs (h : Carried strict t) (nowMs : Nat) :
    Carried strict { t with sched := t.sched.expireBackoffs nowMs } :=
  frame h _ (Scheduler.expireBackoffs_kept t.sched nowMs h.inv).1 rfl rfl rfl rfl rfl rfl

theorem markHedged (h : Carried strict t) {picked : List Nat} (nodup : picked.Nodup) :
    Carried strict { t with sched := t.sched.markHedged picked } := by
  have inv := (Scheduler.markHedged_kept t.sched picked h.inv).1
  have look := markHedged_look t.sched nodup
  unfold Scheduler.markHedged at inv look ⊢
  rw [(Scheduler.foldl_updChunk_frame _ picked _).2] at inv ⊢
  have marked : Carried strict { t with
      sched := { t.sched with hedgesUsed := t.sched.hedgesUsed + picked.length } } :=
    frame h _ { h.inv with } rfl rfl rfl rfl rfl rfl
  refine relabel marked _ inv _ look ?_ ?_
  · intro i c
    split
    · exact ⟨rfl, rfl, rfl, by simp, UInt16.le_refl _⟩
    · exact .refl c
  · intro _ i c _ _
    split
    · rfl
    · rfl

variable [F64 F]

theorem next_fit (h : Carried strict t) {nowMs : Nat} {iter : List Nat} {s : Scheduler F} {a : Assignment}
    (out : t.sched.next nowMs iter = (s, some a)) :
    ∃ u : Tracked F, Carried strict u ∧ u.unanswered = t.unanswered ∧
      u.sched.outstanding = t.sched.outstanding ∧ u.sched.nextBatchId = t.sched.nextBatchId ∧
      Fit u a.lane a.chunks a.hedge ∧ a.batch = t.sched.nextBatchId ∧
      s = (u.sched.dispatch a.lane a.chunks a.hedge nowMs).1 := by
  have expired := expireBackoffs h nowMs
  rcases Scheduler.next_cases t.sched nowMs iter with none_ | ⟨lane, picked, some_, ne, nodup, aimed⟩ |
    ⟨lane, picked, some_, free, _, sub⟩
  · rw [none_] at out
    cases out
  · rw [some_] at out
    cases out
    have target := fun ci member => Scheduler.hedgeTarget_spec (aimed ci member)
    obtain ⟨outstanding, nextId, lanes⟩ :=
      Scheduler.markHedged_frame (t.sched.expireBackoffs nowMs) picked
    have fit : Fit { t with sched := (t.sched.expireBackoffs nowMs).markHedged picked }
        lane picked true := by
      refine ⟨?_, nodup, ?_⟩
      · obtain ⟨ci, member⟩ := List.exists_mem_of_ne_nil _ ne
        have eligible := Scheduler.lt_of_mem_eligibleLanes (target ci member).1
        rw [← lanes] at eligible
        exact eligible
      · intro ci member
        obtain ⟨_, _, c, cur, rest, found, flying, unmarked, on, other⟩ := target ci member
        refine ⟨{ c with hedged := true }, ?_, ?_, .inr ⟨rfl, flying, rfl⟩⟩
        · exact (markHedged_look _ nodup ci).trans (by rw [found, Option.map_some, if_pos member])
        · -- A chunk that is not hedged has a single carrier.
          have one := expired.lone ci c found unmarked
          rw [on] at one
          have single : rest = [] := List.length_eq_zero_iff.mp (by simpa using one)
          dsimp only
          rw [on, single]
          simpa using other
    exact ⟨_, markHedged expired nodup, rfl, outstanding, nextId, fit, nextId, rfl⟩
  · rw [some_] at out
    cases out
    have nodup : picked.Nodup := (h.once.filter _).sublist sub
    refine ⟨_, expired, rfl, rfl, rfl, ⟨?_, nodup, ?_⟩, rfl, rfl⟩
    · exact Scheduler.lt_of_mem_eligibleLanes (Scheduler.mem_freeLanes.mp free).1
    · intro ci member
      obtain ⟨c, found, p⟩ := Scheduler.isPending_iff.mp (List.mem_filter.mp (sub.subset member)).2
      have bare := expired.inv.idle ci c found (by rw [p]; decide)
      exact ⟨c, found, by rw [bare]; exact List.not_mem_nil, .inl ⟨rfl, p⟩⟩

theorem next (h : Carried strict t) (nowMs : Nat) (iter : List Nat) :
    Carried strict (Event.apply t (.call (.next nowMs iter))) := by
  dsimp only [Event.apply]
  split
  · rename_i s a out
    obtain ⟨u, carried, unanswered, _, nextId, fit, batch, same⟩ := next_fit h out
    have sent := dispatch carried fit nowMs
    rw [same, batch, ← unanswered, ← nextId]
    exact sent
  · rename_i s out
    rcases Scheduler.next_cases t.sched nowMs iter with none_ | ⟨_, _, some_, _⟩ | ⟨_, _, some_, _⟩
    · rw [none_] at out
      cases out
      exact expireBackoffs h nowMs
    · rw [some_] at out
      cases out
    · rw [some_] at out
      cases out

theorem apply (h : Carried strict t) (event : Event F) (honest : Honest t event)
    (clean : Clean t event) (paid : strict → PaidFirst t event) : Carried strict (event.apply t) := by
  cases event with
  | ack batch ci ok =>
    obtain ⟨out, open_⟩ := honest
    obtain ⟨⟨lane, cs⟩, out⟩ := Option.isSome_iff_exists.mp out
    have mine : t.Carries batch lane ci := ⟨⟨cs, out⟩, open_⟩
    obtain ⟨c, found⟩ : ∃ c, t.sched.chunks[ci]? = some c :=
      ⟨_, List.getElem?_eq_getElem (h.range mine)⟩
    have addr : t.sched.chunkAddr ci = some c.addr := by
      rw [Scheduler.chunkAddr, found, Option.map_some]
    dsimp only [Event.apply]
    rw [out, addr]
    exact onAck h mine found ok
  | call call =>
    cases call with
    | admitChunks chunks => exact admitChunks h chunks
    | admitGroup chunks need => exact admitGroup h chunks need
    | next nowMs iter => exact next h nowMs iter
    | onAck lane addr ok => exact honest.elim
    | onBatchResult batch outcome nowMs =>
      obtain ⟨⟨lane, cs⟩, out⟩ := Option.isSome_iff_exists.mp honest
      exact onBatchResult h out clean paid
    | onBatchTiming lane acked elapsedMs => exact lanes h lane _
    | setLaneInfo lane info => exact lanes h lane _
    | setLaneBatchMax lane max => exact lanes h lane _
    | fundLane lane => exact lanes h lane _
    | retireLane lane => exact lanes h lane _

theorem start (lanes : List (LaneInfo F)) (cfg : Config F) (policy : CompletionPolicy) :
    Carried strict (Tracked.start lanes cfg policy) := by
  constructor
  · exact inv_withPolicy lanes cfg policy
  all_goals simp [Tracked.start, Scheduler.withPolicy, Tracked.Carries]

end CarriedX

end Hoverfly.Sched
