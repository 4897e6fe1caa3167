import Hoverfly.Sched.Honest

/-! The attempt budget of a chunk. A plain dispatch counts against it and a 402 gives
the attempt back, but a 402 gives one back for a hedge as well, which never took one. -/
namespace Hoverfly.Sched
open Lib

variable {F : Type}

namespace Scheduler

def spent (s : Scheduler F) (ci : Nat) : Nat := ((s.chunks[ci]?).map (·.attempts.toNat)).getD 0

variable {c : ChunkState}

theorem spent_of_found {s : Scheduler F} {ci : Nat} (found : s.chunks[ci]? = some c) :
    s.spent ci = c.attempts.toNat := by
  simp [spent, found]

theorem dispatch_view (s : Scheduler F) (lane : Nat) (picked : List Nat) (hedge : Bool) (nowMs : Nat) :
    let d := (s.dispatch lane picked hedge nowMs).1
    d.chunks = (picked.foldl (fun t ci => t.updChunk ci (dispatchChunk lane hedge nowMs)) s).chunks ∧
      d.outstanding = s.outstanding.insert s.nextBatchId (lane, picked) ∧
      d.nextBatchId = s.nextBatchId + 1 ∧ d.cfg = s.cfg := by
  obtain ⟨_, frame⟩ := foldl_updChunk_frame (dispatchChunk lane hedge nowMs) picked s
  unfold dispatch
  dsimp only at frame ⊢
  generalize picked.foldl (fun t ci => t.updChunk ci (dispatchChunk lane hedge nowMs)) s = t at frame
  cases hedge with
  | true => exact ⟨rfl, by rw [frame]; rfl, rfl, by rw [frame]; rfl⟩
  | false => exact ⟨rfl, by rw [frame]; rfl, rfl, by rw [frame]; rfl⟩

theorem dispatched_attempts {lane nowMs : Nat} (c : ChunkState) (n : Nat) (room : c.attempts.toNat + n < 2 ^ 16) :
    ((dispatchChunk lane false nowMs)^[n] c).attempts.toNat = c.attempts.toNat + n := by
  induction n with
  | zero => rfl
  | succ n ih =>
    rw [Function.iterate_succ_apply']
    have before := ih (by omega)
    have fits : ((dispatchChunk lane false nowMs)^[n] c).attempts.toNat + 1 < 2 ^ 16 := by omega
    simp only [dispatchChunk, Bool.false_eq_true, if_false, UInt16.toNat_add, UInt16.toNat_one]
    rw [Nat.mod_eq_of_lt fits]
    omega

theorem dispatched_pending {lane nowMs n : Nat}
    (pending : ((dispatchChunk lane false nowMs)^[n] c).phase = .pending) : n = 0 ∧ c.phase = .pending := by
  cases n with
  | zero => exact ⟨rfl, pending⟩
  | succ n =>
    rw [Function.iterate_succ_apply'] at pending
    cases pending

def refunded (c : ChunkState) : ChunkState :=
  if unresolved c then { c with attempts := if c.attempts = 0 then 0 else c.attempts - 1 } else c

theorem refunded_iterate (c : ChunkState) (n : Nat) : (refunded^[n] c).phase = c.phase ∧
    (refunded^[n] c).attempts.toNat ≤ c.attempts.toNat ∧
    c.attempts.toNat ≤ (refunded^[n] c).attempts.toNat + n := by
  induction n with
  | zero => simp
  | succ n ih =>
    rw [Function.iterate_succ_apply']
    generalize refunded^[n] c = d at ih ⊢
    have once : (refunded d).phase = d.phase ∧ (refunded d).attempts.toNat ≤ d.attempts.toNat ∧
        d.attempts.toNat ≤ (refunded d).attempts.toNat + 1 := by
      unfold refunded
      split
      · refine ⟨rfl, ?_⟩
        dsimp only
        split
        · simp [*]
        · rename_i some_
          have positive : 1 ≤ d.attempts :=
            UInt16.le_iff_toNat_le.mpr (UInt16.lt_iff_toNat_lt.mp (UInt16.pos_iff_ne_zero.mpr some_))
          rw [UInt16.toNat_sub_of_le _ _ positive, UInt16.toNat_one]
          omega
      · exact ⟨rfl, Nat.le_refl _, Nat.le_succ _⟩
    exact ⟨once.1.trans ih.1, by omega, by omega⟩

theorem refunded_resolved (final : Resolved c) (n : Nat) : refunded^[n] c = c := by
  apply Function.iterate_fixed
  simp [refunded, unresolved, final]

theorem settleLane_unpaid (s : Scheduler F) (lane : Nat) (cs : List Nat) (nowMs : Nat) :
    let t := s.settleLane lane cs .paymentRequired nowMs
    t.cfg = s.cfg ∧ t.nextBatchId = s.nextBatchId ∧ t.outstanding = s.outstanding ∧
      ∀ i : Nat, t.chunks[i]? = (s.chunks[i]?).map refunded^[cs.count i] := by
  have frame := (foldl_updChunk_frame refunded cs (s.updLane lane fun l => { l with health := .unfunded })).2
  have cfg := congrArg Scheduler.cfg frame
  have nextBatchId := congrArg Scheduler.nextBatchId frame
  have outstanding := congrArg Scheduler.outstanding frame
  exact ⟨cfg, nextBatchId, outstanding, foldl_updChunk_iterate refunded cs _⟩

def erased (s : Scheduler F) (batch lane : Nat) : Scheduler F :=
  ({ s with outstanding := s.outstanding.erase batch }).updLane lane fun l => { l with inflight := l.inflight - 1 }

theorem onBatchResult_eq {s : Scheduler F} {batch lane : Nat} {cs : List Nat}
    (found : s.outstanding.lookup batch = some (lane, cs)) (outcome : BatchOutcome) (nowMs : Nat) :
    s.onBatchResult batch outcome nowMs =
      cs.foldl (requeue lane) ((s.erased batch lane).settleLane lane cs outcome nowMs) := by
  unfold onBatchResult
  rw [found]
  rfl

end Scheduler

structure Steady (s t : Scheduler F) : Prop where
  cfg : t.cfg = s.cfg
  outstanding : t.outstanding = s.outstanding
  nextBatchId : t.nextBatchId = s.nextBatchId
  spent : ∀ i, t.spent i = s.spent i
  waits : ∀ i, t.isPending i = true → s.isPending i = true ∨ s.spent i < s.cfg.maxAttempts.toNat

namespace Steady

variable {s t u : Scheduler F}

theorem refl (s : Scheduler F) : Steady s s := ⟨rfl, rfl, rfl, fun _ => rfl, fun _ => .inl⟩

theorem trans (st : Steady s t) (tu : Steady t u) : Steady s u where
  cfg := tu.cfg.trans st.cfg
  outstanding := tu.outstanding.trans st.outstanding
  nextBatchId := tu.nextBatchId.trans st.nextBatchId
  spent i := (tu.spent i).trans (st.spent i)
  waits i pending := by
    rcases tu.waits i pending with pending | left
    · exact st.waits i pending
    · exact .inr (by rwa [st.spent, st.cfg] at left)

theorem frame (cfg : t.cfg = s.cfg) (outstanding : t.outstanding = s.outstanding)
    (nextBatchId : t.nextBatchId = s.nextBatchId) (chunks : t.chunks = s.chunks) : Steady s t :=
  ⟨cfg, outstanding, nextBatchId, fun i => by rw [Scheduler.spent, chunks, Scheduler.spent],
    fun i pending => .inl (by rwa [Scheduler.isPending, Scheduler.phase?, chunks] at pending)⟩

theorem relabel {chunks : List ChunkState} (g : Nat → ChunkState → ChunkState)
    (look : ∀ i, chunks[i]? = (s.chunks[i]?).map (g i))
    (same : ∀ i c, s.chunks[i]? = some c → (g i c).attempts = c.attempts)
    (waits : ∀ i c, s.chunks[i]? = some c → (g i c).phase = .pending →
      c.phase = .pending ∨ c.attempts < s.cfg.maxAttempts) : Steady s { s with chunks } := by
  refine ⟨rfl, rfl, rfl, fun i => ?_, fun i pending => ?_⟩
  · unfold Scheduler.spent
    rw [look]
    cases found : s.chunks[i]? with
    | none => rfl
    | some c => simp [same i c found]
  · obtain ⟨d, found, phase⟩ := Scheduler.isPending_iff.mp pending
    rw [look] at found
    obtain ⟨c, here, rfl⟩ := Option.map_eq_some_iff.mp found
    rcases waits i c here phase with phase | left
    · exact .inl (Scheduler.isPending_iff.mpr ⟨c, here, phase⟩)
    · exact .inr (by rw [Scheduler.spent_of_found here]; exact UInt16.lt_iff_toNat_lt.mp left)

theorem updChunk (ci : Nat) (f : ChunkState → ChunkState)
    (same : ∀ c, s.chunks[ci]? = some c → (f c).attempts = c.attempts)
    (waits : ∀ c, s.chunks[ci]? = some c → (f c).phase = .pending →
      c.phase = .pending ∨ c.attempts < s.cfg.maxAttempts) : Steady s (s.updChunk ci f) := by
  apply relabel (fun i c => if ci = i then f c else c) (s.getElem?_updChunk ci · f)
  · intro i c found
    by_cases here : ci = i
    · subst here
      simpa using same c found
    · simp [here]
  · intro i c found
    by_cases here : ci = i
    · subst here
      simpa using waits c found
    · simpa [here] using Or.inl

theorem setChunk {ci : Nat} {c d : ChunkState} (found : s.chunks[ci]? = some c) (same : d.attempts = c.attempts)
    (waits : d.phase = .pending → c.phase = .pending ∨ c.attempts < s.cfg.maxAttempts) :
    Steady s (s.updChunk ci fun _ => d) := by
  apply updChunk
  · intro e h
    cases found.symm.trans h
    exact same
  · intro e h
    cases found.symm.trans h
    exact waits

theorem updLane (lane : Nat) (f : Lane F → Lane F) : Steady s (s.updLane lane f) := frame rfl rfl rfl rfl

theorem givenUp {lane ci : Nat} {c : ChunkState} (found : s.chunks[ci]? = some c)
    (out : Scheduler.GivenUp s lane ci c t) : Steady s t := by
  cases out with
  | carried => exact setChunk found rfl .inl
  | spent =>
    have failed : Steady s (s.updChunk ci fun _ => { c with on := [], phase := .failed }) :=
      setChunk found rfl nofun
    exact failed.trans (frame rfl rfl rfl rfl)
  | queued _ left =>
    have queued : Steady s (s.updChunk ci fun _ => { c with on := [], phase := .pending, hedged := false }) :=
      setChunk found rfl fun _ => .inr left
    exact queued.trans (frame rfl rfl rfl rfl)

theorem requeue (lane : Nat) (s : Scheduler F) (ci : Nat) : Steady s (Scheduler.requeue lane s ci) := by
  cases found : s.chunks[ci]? with
  | none =>
    unfold Scheduler.requeue
    rw [found]
    exact .refl s
  | some c =>
    rcases Scheduler.requeue_cases lane found with ⟨_, out⟩ | ⟨_, ⟨_, _, out⟩ | ⟨_, out⟩⟩
    · rw [out]
      exact .refl s
    · rw [out]
      exact setChunk found rfl .inl
    · exact givenUp found out

variable (s)

theorem onGroupAck (ci : Nat) : Steady s (s.onGroupAck ci) := by
  unfold Scheduler.onGroupAck
  split
  · exact .refl s
  split
  · exact .refl s
  rename_i gid _
  dsimp only
  split
  · exact frame rfl rfl rfl rfl
  · let skip (c : ChunkState) : ChunkState :=
      if decide (c.group = some gid ∧ c.phase = .pending) then { c with phase := .skipped } else c
    have skipped : Steady s { s with chunks := s.chunks.map skip } := by
      apply relabel (fun _ => skip) fun i => List.getElem?_map ..
      · intro i c _
        dsimp only [skip]
        split <;> rfl
      · intro i c _ phase
        dsimp only [skip] at phase
        split at phase
        · cases phase
        · exact .inl phase
    exact skipped.trans (frame rfl rfl rfl rfl)

theorem onAck (lane : Nat) (addr : Addr) (ok : Bool) : Steady s (s.onAck lane addr ok) := by
  cases known : s.index.lookup addr with
  | none =>
    unfold Scheduler.onAck
    rw [known]
    exact .refl s
  | some ci =>
    cases found : s.chunks[ci]? with
    | none =>
      unfold Scheduler.onAck
      rw [known]
      dsimp only
      rw [found]
      exact .refl s
    | some c =>
      rcases Scheduler.onAck_cases lane known found ok with ⟨_, out⟩ | ⟨_, f, out⟩
      · rw [out]
        exact .refl s
      rw [out]
      cases ok with
      | false =>
        have given : Scheduler.GivenUp (s.updLane lane f) lane ci c ((s.updLane lane f).nack lane ci) :=
          Scheduler.nack_cases found
        exact (updLane lane f).trans (givenUp found given)
      | true =>
        have done : Steady s (s.updChunk ci fun _ => { c with phase := .done, on := [] }) :=
          setChunk found rfl nofun
        have settled : Steady s (s.settleAck ci c) := done.trans (frame rfl rfl rfl rfl)
        exact (settled.trans (updLane lane f)).trans (onGroupAck _ ci)

theorem admitOne (chunk : Addr × Nat) (budget : 0 < s.cfg.maxAttempts) :
    Steady s (s.admitOne chunk) := by
  unfold Scheduler.admitOne
  split
  · exact .refl s
  dsimp only
  refine ⟨rfl, rfl, rfl, fun i => ?_, fun i pending => ?_⟩
  · unfold Scheduler.spent
    dsimp only
    rcases Nat.lt_trichotomy i s.chunks.length with old | rfl | beyond
    · rw [List.getElem?_append_left old]
    · simp
    · rw [List.getElem?_eq_none (by simpa using Nat.succ_le_of_lt beyond), List.getElem?_eq_none beyond.le]
  · by_cases old : i < s.chunks.length
    · obtain ⟨c, found, phase⟩ := Scheduler.isPending_iff.mp pending
      rw [List.getElem?_append_left old] at found
      exact .inl (Scheduler.isPending_iff.mpr ⟨c, found, phase⟩)
    · have fresh : s.spent i = 0 := by
        simp [Scheduler.spent, List.getElem?_eq_none (Nat.le_of_not_lt old)]
      exact .inr (by rw [fresh]; exact UInt16.lt_iff_toNat_lt.mp budget)

theorem admitChunks (chunks : List (Addr × Nat)) (budget : 0 < s.cfg.maxAttempts) :
    Steady s (s.admitChunks chunks).1 := by
  have loop : ∀ t, Steady s t → Steady s (chunks.foldl Scheduler.admitOne t) := by
    induction chunks with
    | nil => exact fun t steady => steady
    | cons chunk rest ih =>
      intro t steady
      exact ih _ (steady.trans (admitOne t chunk (by rwa [steady.cfg])))
  exact loop s (.refl s)

theorem admitGroup (chunks : List (Addr × Nat)) (need : UInt16)
    (budget : 0 < s.cfg.maxAttempts) : Steady s (s.admitGroup chunks need).1 := by
  have grouped : Steady s { s with groups := s.groups ++ [{ need, acked := 0 }] } := frame rfl rfl rfl rfl
  refine (grouped.trans (admitChunks _ chunks budget)).trans (relabel _ (fun i => List.getElem?_mapIdx ..) ?_ ?_)
  · intro i c _
    dsimp only
    split <;> rfl
  · intro i c _ phase
    dsimp only at phase
    split at phase
    · exact .inl phase
    · exact .inl phase

theorem markHedged (picked : List Nat) : Steady s (s.markHedged picked) := by
  have counted : Steady s { s with hedgesUsed := s.hedgesUsed + picked.length } := frame rfl rfl rfl rfl
  refine counted.trans (foldl_related .refl .trans (fun t ci => ?_) picked _)
  exact updChunk ci _ (fun _ _ => rfl) fun _ _ => .inl

theorem hedged (lane : Nat) (picked : List Nat) (nowMs : Nat) :
    Steady s (picked.foldl (fun t ci => t.updChunk ci (Scheduler.dispatchChunk lane true nowMs)) s) := by
  refine foldl_related .refl .trans (fun t ci => ?_) picked s
  exact updChunk ci _ (fun _ _ => rfl) fun _ _ => .inl

end Steady

/-- Beside the scheduler: every assignment it has handed out, and the batches that ended in a 402. -/
structure Account (F : Type) where
  tracked : Tracked F
  issued : List Assignment
  unpaid : List Nat

namespace Account

def start [F64 F] (lanes : List (LaneInfo F)) (cfg : Config F) (policy : CompletionPolicy) : Account F :=
  { tracked := .start lanes cfg policy, issued := [], unpaid := [] }

def step [F64 F] (a : Account F) (event : Event F) : Account F where
  tracked := event.apply a.tracked
  issued := match event with
    | .call (.next nowMs iter) => a.issued ++ (a.tracked.sched.next nowMs iter).2.toList
    | _ => a.issued
  unpaid := match event with
    | .call (.onBatchResult batch .paymentRequired _) =>
      if (a.tracked.sched.outstanding.lookup batch).isSome then batch :: a.unpaid else a.unpaid
    | _ => a.unpaid

/-- The assignments of a chunk that are no hedges and did not end in a 402. -/
def tries (a : Account F) (ci : Nat) : Nat :=
  a.issued.countP fun x => !x.hedge && x.chunks.contains ci && !a.unpaid.contains x.batch

def listings (a : Account F) (ci : Nat) : Nat :=
  (a.issued.map fun x => if x.hedge ∨ x.batch ∈ a.unpaid then 0 else x.chunks.count ci).sum

theorem tries_le_listings (a : Account F) (ci : Nat) : a.tries ci ≤ a.listings ci := by
  apply countP_le_sum_map
  intro x _ counted
  simp only [Bool.and_eq_true, Bool.not_eq_true', List.contains_eq_mem, decide_eq_true_eq,
    decide_eq_false_iff_not] at counted
  obtain ⟨⟨plain, listed⟩, paid⟩ := counted
  rw [if_neg (by simp [plain, paid])]
  exact List.count_pos_iff.mpr listed

/-- A dispatch does not run the 16-bit counter over, and a hedge that ends in a 402 carries
nothing that is still open. -/
def Fair [F64 F] (a : Account F) : Event F → Prop
  | .call (.next nowMs iter) => ∀ x ∈ (a.tracked.sched.next nowMs iter).2, x.hedge = false →
    ∀ ci ∈ x.chunks, a.tracked.sched.spent ci + x.chunks.count ci < 2 ^ 16
  | .call (.onBatchResult batch .paymentRequired _) => ∀ x ∈ a.issued, x.batch = batch → x.hedge = true →
    ∀ ci ∈ x.chunks, ∀ c ∈ a.tracked.sched.chunks[ci]?, Resolved c
  | _ => True

instance [F64 F] (a : Account F) : DecidablePred a.Fair := fun event => by
  unfold Fair
  split <;> infer_instance

end Account

/-- The counters cover what the account lists, and who waits has attempts left. -/
structure Booked (limit : UInt16) (a : Account F) : Prop where
  cfg : a.tracked.sched.cfg.maxAttempts = limit
  waiting : ∀ i, a.tracked.sched.isPending i = true → a.tracked.sched.spent i < limit.toNat
  past : ∀ b ∈ a.unpaid, b < a.tracked.sched.nextBatchId
  out : ∀ b e, a.tracked.sched.outstanding.lookup b = some e → b < a.tracked.sched.nextBatchId ∧
    b ∉ a.unpaid ∧ ∃ x ∈ a.issued, x.batch = b ∧ x.chunks = e.2
  covered : ∀ ci, a.listings ci ≤ a.tracked.sched.spent ci
  within : ∀ ci, a.tries ci ≤ limit.toNat

namespace Booked

variable {limit : UInt16} {a : Account F}

theorem steady (h : Booked limit a) {s : Scheduler F} (steady : Steady a.tracked.sched s)
    (unanswered : Nat → List Nat) : Booked limit { a with tracked := { sched := s, unanswered } } where
  cfg := by rw [steady.cfg]; exact h.cfg
  waiting i pending := by
    rw [steady.spent]
    rcases steady.waits i pending with pending | left
    · exact h.waiting i pending
    · rwa [h.cfg] at left
  past := by rw [steady.nextBatchId]; exact h.past
  out := by rw [steady.nextBatchId, steady.outstanding]; exact h.out
  covered ci := by rw [steady.spent]; exact h.covered ci
  within := h.within

theorem issue (h : Booked limit a) {d : Scheduler F} {x : Assignment} (unanswered : Nat → List Nat)
    (cfg : d.cfg = a.tracked.sched.cfg) (batch : x.batch = a.tracked.sched.nextBatchId)
    (nextBatchId : d.nextBatchId = a.tracked.sched.nextBatchId + 1)
    (outstanding : d.outstanding = a.tracked.sched.outstanding.insert x.batch (x.lane, x.chunks))
    (waiting : ∀ i, d.isPending i = true → d.spent i < limit.toNat)
    (covered : ∀ ci, a.listings ci + (if x.hedge then 0 else x.chunks.count ci) ≤ d.spent ci)
    (left : ∀ ci ∈ x.chunks, x.hedge = false → a.tries ci < limit.toNat) :
    Booked limit { tracked := { sched := d, unanswered }, issued := a.issued ++ [x], unpaid := a.unpaid } := by
  have paid : x.batch ∉ a.unpaid := fun member => Nat.lt_irrefl _ (batch ▸ h.past _ member)
  refine ⟨by rw [cfg]; exact h.cfg, waiting, fun b member => ?_, fun b e found => ?_, fun ci => ?_, fun ci => ?_⟩
  · have := h.past b member
    simp only [nextBatchId]
    omega
  · simp only [outstanding, nextBatchId] at found ⊢
    rcases lookup_insert_cases found with ⟨rfl, rfl⟩ | ⟨_, found⟩
    · exact ⟨by omega, paid, x, by simp, rfl, rfl⟩
    · obtain ⟨old, unpaid, y, member, same⟩ := h.out b e found
      exact ⟨by omega, unpaid, y, List.mem_append_left _ member, same⟩
  · refine Nat.le_trans (Nat.le_of_eq ?_) (covered ci)
    simp [Account.listings, paid]
  · have before := h.within ci
    unfold Account.tries at before left ⊢
    dsimp only
    rw [List.countP_append, List.countP_singleton]
    split
    · rename_i counted
      simp only [Bool.and_eq_true, Bool.not_eq_true', List.contains_iff_mem] at counted
      have := left ci counted.1.2 counted.1.1
      omega
    · exact before

theorem hedge (h : Booked limit a) (lane : Nat) (picked : List Nat) (nowMs : Nat) (unanswered : Nat → List Nat) :
    Booked limit { tracked := { sched := (a.tracked.sched.dispatch lane picked true nowMs).1, unanswered }
                   issued := a.issued ++ [(a.tracked.sched.dispatch lane picked true nowMs).2]
                   unpaid := a.unpaid } := by
  obtain ⟨chunks, outstanding, nextBatchId, cfg⟩ := Scheduler.dispatch_view a.tracked.sched lane picked true nowMs
  have carried := Steady.hedged a.tracked.sched lane picked nowMs
  have spent : ∀ i, (a.tracked.sched.dispatch lane picked true nowMs).1.spent i = a.tracked.sched.spent i := by
    intro i
    rw [Scheduler.spent, chunks]
    exact carried.spent i
  refine issue h unanswered cfg rfl nextBatchId outstanding (fun i pending => ?_) (fun ci => ?_) nofun
  · rw [spent]
    rw [Scheduler.isPending, Scheduler.phase?, chunks] at pending
    rcases carried.waits i pending with pending | left
    · exact h.waiting i pending
    · rwa [h.cfg] at left
  · rw [spent]
    exact h.covered ci

variable {lane batch : Nat}

theorem plain (h : Booked limit a) {picked : List Nat} (nowMs : Nat) (unanswered : Nat → List Nat)
    (waiting : ∀ ci ∈ picked, a.tracked.sched.isPending ci = true)
    (room : ∀ ci ∈ picked, a.tracked.sched.spent ci + picked.count ci < 2 ^ 16) :
    Booked limit { tracked := { sched := (a.tracked.sched.dispatch lane picked false nowMs).1, unanswered }
                   issued := a.issued ++ [(a.tracked.sched.dispatch lane picked false nowMs).2]
                   unpaid := a.unpaid } := by
  obtain ⟨chunks, outstanding, nextBatchId, cfg⟩ := Scheduler.dispatch_view a.tracked.sched lane picked false nowMs
  have look : ∀ i, (a.tracked.sched.dispatch lane picked false nowMs).1.chunks[i]? =
      (a.tracked.sched.chunks[i]?).map (Scheduler.dispatchChunk lane false nowMs)^[picked.count i] := by
    intro i
    rw [chunks]
    exact Scheduler.foldl_updChunk_iterate _ picked _ i
  refine issue h unanswered cfg rfl nextBatchId outstanding (fun i pending => ?_) (fun ci => ?_) fun ci member _ => ?_
  · obtain ⟨d, found, phase⟩ := Scheduler.isPending_iff.mp pending
    rw [look] at found
    obtain ⟨c, here, rfl⟩ := Option.map_eq_some_iff.mp found
    obtain ⟨none_, same⟩ := Scheduler.dispatched_pending phase
    rw [Scheduler.spent, look, none_, Function.iterate_zero, Option.map_id]
    exact h.waiting i (Scheduler.isPending_iff.mpr ⟨c, here, same⟩)
  · have before := h.covered ci
    by_cases member : ci ∈ picked
    · obtain ⟨c, here, _⟩ := Scheduler.isPending_iff.mp (waiting ci member)
      have fits := room ci member
      rw [Scheduler.spent_of_found here] at before fits
      have found := look ci
      rw [here, Option.map_some] at found
      rw [Scheduler.spent_of_found found, Scheduler.dispatched_attempts c _ fits]
      exact Nat.add_le_add_right before _
    · have absent : picked.count ci = 0 := List.count_eq_zero.mpr member
      rw [Scheduler.spent, look, absent]
      simpa [Scheduler.dispatch, absent, Scheduler.spent] using before
  · exact (a.tries_le_listings ci).trans_lt ((h.covered ci).trans_lt (h.waiting ci (waiting ci member)))

theorem close (h : Booked limit a) {t : Scheduler F} {unpaid : List Nat}
    (unanswered : Nat → List Nat) (cfg : t.cfg = a.tracked.sched.cfg)
    (known : (a.tracked.sched.outstanding.lookup batch).isSome)
    (nextBatchId : t.nextBatchId = a.tracked.sched.nextBatchId)
    (outstanding : t.outstanding = a.tracked.sched.outstanding.erase batch)
    (ended : unpaid = a.unpaid ∨ unpaid = batch :: a.unpaid)
    (waiting : ∀ i, t.isPending i = true → t.spent i < limit.toNat)
    (covered : ∀ ci, Account.listings { a with unpaid } ci ≤ t.spent ci) :
    Booked limit { tracked := { sched := t, unanswered }, issued := a.issued, unpaid } := by
  have more : ∀ b ∈ a.unpaid, b ∈ unpaid := by
    rcases ended with rfl | rfl
    · exact fun b member => member
    · exact fun b member => List.mem_cons_of_mem _ member
  have only : ∀ b ∈ unpaid, b = batch ∨ b ∈ a.unpaid := by
    rcases ended with rfl | rfl
    · exact fun b => .inr
    · exact fun b => List.mem_cons.mp
  refine ⟨by rw [cfg]; exact h.cfg, waiting, fun b member => ?_, fun b e found => ?_, covered, fun ci => ?_⟩
  · simp only [nextBatchId]
    rcases only b member with rfl | member
    · obtain ⟨e, found⟩ := Option.isSome_iff_exists.mp known
      exact (h.out b e found).1
    · exact h.past b member
  · simp only [outstanding, nextBatchId] at found ⊢
    obtain ⟨other, found⟩ := lookup_of_erase found
    obtain ⟨old, paid, issued⟩ := h.out b e found
    exact ⟨old, fun member => (only b member).elim other paid, issued⟩
  · refine Nat.le_trans (List.countP_mono_left fun x _ counted => ?_) (h.within ci)
    simp only [Bool.and_eq_true, Bool.not_eq_true', List.contains_eq_mem, decide_eq_false_iff_not] at counted ⊢
    exact ⟨counted.1, fun member => counted.2 (more _ member)⟩

theorem covered_refund (h : Booked limit a) {cs : List Nat}
    (found : a.tracked.sched.outstanding.lookup batch = some (lane, cs))
    (hedges : ∀ x ∈ a.issued, x.batch = batch → x.hedge = true →
      ∀ ci ∈ x.chunks, ∀ c ∈ a.tracked.sched.chunks[ci]?, Resolved c) (ci : Nat) :
    Account.listings { a with unpaid := batch :: a.unpaid } ci ≤
      (((a.tracked.sched.chunks[ci]?).map Scheduler.refunded^[cs.count ci]).map (·.attempts.toNat)).getD 0 := by
  obtain ⟨_, paid, x, member, same, listed⟩ := h.out batch _ found
  have less : ∀ y : Assignment, (if y.hedge ∨ y.batch ∈ batch :: a.unpaid then 0 else y.chunks.count ci) ≤
      if y.hedge ∨ y.batch ∈ a.unpaid then 0 else y.chunks.count ci := by
    intro y
    by_cases before : y.hedge ∨ y.batch ∈ a.unpaid
    · rw [if_pos before, if_pos (before.imp_right (List.mem_cons_of_mem _))]
    · rw [if_neg before]
      split
      · exact Nat.zero_le _
      · exact Nat.le_refl _
  have dropped : Account.listings { a with unpaid := batch :: a.unpaid } ci +
      (if x.hedge then 0 else cs.count ci) ≤ a.listings ci := by
    refine sum_map_drop less member ?_
    subst same listed
    cases plain : x.hedge with
    | true => simp
    | false => simp [paid]
  have before := h.covered ci
  cases here : a.tracked.sched.chunks[ci]? with
  | none =>
    rw [Scheduler.spent, here] at before
    exact (Nat.le_add_right ..).trans (dropped.trans before)
  | some c =>
    rw [Scheduler.spent_of_found here] at before
    simp only [Option.map_some, Option.getD_some]
    cases plain : x.hedge with
    | true =>
      by_cases inside : ci ∈ cs
      · have final := hedges x member same plain ci (listed ▸ inside) c here
        rw [Scheduler.refunded_resolved final]
        simp only [plain, if_true] at dropped
        omega
      · rw [List.count_eq_zero.mpr inside]
        simp only [plain, if_true] at dropped
        exact dropped.trans before
    | false =>
      have back := (Scheduler.refunded_iterate c (cs.count ci)).2.2
      simp only [plain, Bool.false_eq_true, if_false] at dropped
      omega

theorem refund (h : Booked limit a) {cs : List Nat}
    (found : a.tracked.sched.outstanding.lookup batch = some (lane, cs))
    (hedges : ∀ x ∈ a.issued, x.batch = batch → x.hedge = true →
      ∀ ci ∈ x.chunks, ∀ c ∈ a.tracked.sched.chunks[ci]?, Resolved c) (nowMs : Nat)
    (unanswered : Nat → List Nat) :
    Booked limit { tracked := { sched := (a.tracked.sched.erased batch lane).settleLane lane cs .paymentRequired nowMs
                                unanswered }
                   issued := a.issued
                   unpaid := batch :: a.unpaid } := by
  obtain ⟨cfg, nextBatchId, outstanding, chunks⟩ :=
    Scheduler.settleLane_unpaid (a.tracked.sched.erased batch lane) lane cs nowMs
  have look : ∀ i : Nat, ((a.tracked.sched.erased batch lane).settleLane lane cs .paymentRequired nowMs).chunks[i]? =
    (a.tracked.sched.chunks[i]?).map Scheduler.refunded^[cs.count i] := chunks
  refine close h _ cfg (by rw [found]; rfl) nextBatchId outstanding (.inr rfl) (fun i pending => ?_) fun ci => ?_
  · obtain ⟨d, at_i, phase⟩ := Scheduler.isPending_iff.mp pending
    rw [look] at at_i
    obtain ⟨c, here, rfl⟩ := Option.map_eq_some_iff.mp at_i
    obtain ⟨same, less, _⟩ := Scheduler.refunded_iterate c (cs.count i)
    have before := h.waiting i (Scheduler.isPending_iff.mpr ⟨c, here, same ▸ phase⟩)
    rw [Scheduler.spent_of_found here] at before
    rw [Scheduler.spent, look, here]
    exact Nat.lt_of_le_of_lt less before
  · rw [Scheduler.spent, look]
    exact covered_refund h found hedges ci

variable [F64 F]

theorem next (h : Booked limit a) {nowMs : Nat} {iter : List Nat} (fair : a.Fair (.call (.next nowMs iter))) :
    Booked limit (a.step (.call (.next nowMs iter))) := by
  have expired : Steady a.tracked.sched (a.tracked.sched.expireBackoffs nowMs) := .frame rfl rfl rfl rfl
  unfold Account.step Event.apply
  dsimp only
  dsimp only [Account.Fair] at fair
  rcases Scheduler.next_cases a.tracked.sched nowMs iter with
    out | ⟨lane, picked, out, _⟩ | ⟨lane, picked, out, _, _, chosen⟩
  · rw [out]
    simpa using h.steady expired a.tracked.unanswered
  · rw [out]
    exact hedge (h.steady (expired.trans (.markHedged _ picked)) a.tracked.unanswered) lane picked nowMs _
  · rw [out] at fair ⊢
    refine plain (h.steady expired a.tracked.unanswered) nowMs _ (fun ci member => ?_) fun ci member => ?_
    · exact (List.mem_filter.mp (chosen.subset member)).2
    · exact fair _ rfl rfl ci member

theorem onBatchResult (h : Booked limit a) {nowMs : Nat} {outcome : BatchOutcome}
    (fair : a.Fair (.call (.onBatchResult batch outcome nowMs))) :
    Booked limit (a.step (.call (.onBatchResult batch outcome nowMs))) := by
  cases found : a.tracked.sched.outstanding.lookup batch with
  | none =>
    have same : a.tracked.sched.onBatchResult batch outcome nowMs = a.tracked.sched := by
      unfold Scheduler.onBatchResult
      rw [found]
    have kept := h.steady (.refl _) (a.tracked.close batch).unanswered
    cases outcome <;> simpa [Account.step, Event.apply, same, found] using kept
  | some entry =>
    obtain ⟨lane, cs⟩ := entry
    have closed : Booked limit { a with
        tracked := ⟨a.tracked.sched.erased batch lane, (a.tracked.close batch).unanswered⟩ } :=
      close h _ rfl (by rw [found]; rfl) rfl rfl (.inl rfl) h.waiting h.covered
    have settled : Booked limit { a with
        tracked := ⟨(a.tracked.sched.erased batch lane).settleLane lane cs outcome nowMs,
          (a.tracked.close batch).unanswered⟩
        unpaid := (a.step (.call (.onBatchResult batch outcome nowMs))).unpaid } := by
      cases outcome with
      | answered =>
        refine closed.steady ?_ _
        unfold Scheduler.settleLane
        dsimp only
        split
        · exact .updLane lane _
        · exact .updLane lane _
      | failed e => exact closed.steady (.updLane lane _) _
      | paymentRequired => simpa [Account.step, found] using refund h found fair nowMs _
    have requeued := settled.steady (foldl_related .refl .trans (Steady.requeue lane) cs _)
      (a.tracked.close batch).unanswered
    rw [← Scheduler.onBatchResult_eq found] at requeued
    exact requeued

theorem step (h : Booked limit a) (budget : 0 < limit) (event : Event F) (fair : a.Fair event) :
    Booked limit (a.step event) := by
  have some_ : 0 < a.tracked.sched.cfg.maxAttempts := by
    rw [h.cfg]
    exact budget
  cases event with
  | ack batch ci ok =>
    unfold Account.step Event.apply
    dsimp only
    split
    · exact h.steady (.onAck _ _ _ ok) _
    · exact h
  | call call =>
    cases call with
    | next nowMs iter => exact h.next fair
    | onBatchResult batch outcome nowMs => exact h.onBatchResult fair
    | admitChunks chunks => exact h.steady (.admitChunks _ chunks some_) _
    | admitGroup chunks need => exact h.steady (.admitGroup _ chunks need some_) _
    | onAck lane addr ok => exact h.steady (.onAck _ lane addr ok) _
    | _ => exact h.steady (.updLane _ _) _

theorem start (lanes : List (LaneInfo F)) (cfg : Config F) (policy : CompletionPolicy) :
    Booked cfg.maxAttempts (Account.start lanes cfg policy) := by
  constructor <;> simp [Account.start, Tracked.start, Scheduler.withPolicy, Scheduler.isPending, Scheduler.phase?,
    Account.listings, Account.tries]

end Booked

/-- With a budget that is not zero, no chunk is handed out more often than it allows, hedges and 402s
apart, in any state of a run that is fair. -/
theorem tries_within_budget [F64 F] (lanes : List (LaneInfo F)) (cfg : Config F) (policy : CompletionPolicy)
    (events : List (Event F)) (budget : 0 < cfg.maxAttempts)
    (fair : Along Account.Fair Account.step (Account.start lanes cfg policy) events) :
    ∀ pre, pre <+: events → ∀ ci,
      (run Account.step (Account.start lanes cfg policy) pre).tries ci ≤ cfg.maxAttempts.toNat := by
  rintro pre ⟨post, rfl⟩ ci
  have met := ((along_append ..).mp fair).1
  have booked := invariant_along (Booked cfg.maxAttempts) Account.Fair Account.step
    (fun a event h ok => h.step budget event ok) _ pre (.start lanes cfg policy) met
  exact booked.within ci

def twoLanes : List (LaneInfo ℚ) := [{}, {}]

def fundedRun : List (Event ℚ) :=
  [.call (.admitChunks [(Bytes.replicate 32 1, 4096)]), .call (.next 0 []),
    .call (.onBatchResult 1 .paymentRequired 0), .call (.fundLane 0), .call (.next 0 []), .call (.next 3000 []),
    .ack 2 0 true, .call (.onBatchResult 2 .answered 3000), .call (.onBatchResult 3 .paymentRequired 3000)]

theorem tries_fundedRun :
    (run Account.step (Account.start twoLanes Config.default .allAcked) fundedRun).unpaid = [3, 1] ∧
      (run Account.step (Account.start twoLanes Config.default .allAcked) fundedRun).tries 0 ≤ 6 :=
  ⟨by decide +kernel, tries_within_budget twoLanes Config.default .allAcked fundedRun (by decide) (by decide +kernel)
    fundedRun List.prefix_rfl 0⟩

def failedTry (batch nowMs : Nat) : List (Event ℚ) :=
  [.call (.next nowMs []), .call (.onBatchResult batch (.failed "reset") nowMs)]

/-- The hedge of the first batch ends in a 402, which takes back the attempt of the first batch; that
one and six more then fail. -/
def hedgeRefund : List (Event ℚ) :=
  [.call (.admitChunks [(Bytes.replicate 32 1, 4096)]), .call (.next 0 []), .call (.next 3000 []),
    .call (.onBatchResult 2 .paymentRequired 3000), .call (.onBatchResult 1 (.failed "reset") 3000)] ++
  failedTry 3 3000 ++ failedTry 4 3000 ++ failedTry 5 5000 ++ failedTry 6 5000 ++ failedTry 7 5000 ++
  failedTry 8 9000

/-- Seven plain assignments of one chunk, all of them failed, with the default budget of six. -/
theorem hedgeRefund_exceeds :
    let a := run Account.step (Account.start twoLanes Config.default .allAcked) hedgeRefund
    Along Honest Event.apply (Tracked.start twoLanes Config.default .allAcked) hedgeRefund ∧
      a.tracked.sched.cfg.maxAttempts = 6 ∧ a.unpaid = [2] ∧ a.tracked.sched.outstanding.keys = [] ∧
      a.tries 0 = 7 := by
  refine ⟨by decide +kernel, by decide +kernel, by decide +kernel, by decide +kernel, by decide +kernel⟩

end Hoverfly.Sched
