import Hoverfly.Sched.Limits

/-! Groups of chunks that need only some of their members. The ack that reaches the need retires the members that
wait; a member in flight is left to its batches. -/
namespace Hoverfly.Sched
open Lib

variable {F : Type}

def ChunkState.doneFor (gid : Nat) (c : ChunkState) : Bool := c.group = some gid ∧ c.phase = .done

namespace Scheduler

def doneIn (s : Scheduler F) (gid : Nat) : Nat := s.chunks.countP (ChunkState.doneFor gid)

def Complete (s : Scheduler F) (gid : Nat) : Prop := ∃ g ∈ s.groups[gid]?, g.need.toNat ≤ s.doneIn gid

instance (s : Scheduler F) (gid : Nat) : Decidable (s.Complete gid) :=
  inferInstanceAs (Decidable (∃ g ∈ s.groups[gid]?, g.need.toNat ≤ s.doneIn gid))

end Scheduler

theorem Call.groups_apply [F64 F] (s : Scheduler F) (call : Call F) : (call.apply s).groups = call.groups s := by
  obtain ⟨_, fixed⟩ := call.fixed_apply s
  exact congrArg (·.2.2.2.2) fixed

theorem Call.policy_apply [F64 F] (s : Scheduler F) (call : Call F) : (call.apply s).policy = s.policy := by
  obtain ⟨_, fixed⟩ := call.fixed_apply s
  exact congrArg (·.2.1) fixed

theorem Call.length_apply [F64 F] (s : Scheduler F) (call : Call F) :
    s.chunks.length ≤ (call.apply s).chunks.length := by
  obtain ⟨admitted, fixed⟩ := call.fixed_apply s
  have grown : (call.apply s).chunks.length = s.chunks.length + admitted := congrArg (·.2.2.2.1) fixed
  omega

variable {s : Scheduler F} {call : Call F} {gid : Nat}

theorem Call.credits_eq_some (credit : call.credits s = some gid) :
    ∃ lane addr ci c, call = .onAck lane addr true ∧ s.index.lookup addr = some ci ∧ s.chunks[ci]? = some c ∧
      ¬Resolved c ∧ c.group = some gid := by
  unfold Call.credits at credit
  split at credit
  · rename_i lane addr
    obtain ⟨c, located, group⟩ := Option.bind_eq_some_iff.mp credit
    obtain ⟨ci, known, found⟩ := Option.bind_eq_some_iff.mp located
    split at group
    · cases group
    · exact ⟨lane, addr, ci, c, rfl, known, found, ‹_›, group⟩
  · cases credit

theorem Call.credits_of_lands {i : Nat} {c : ChunkState}
    (found : s.chunks[i]? = some c) (lands : call.Lands s i c) (open_ : c.phase ≠ .done) : call.credits s = c.group := by
  cases call with
  | onAck lane addr ok =>
    obtain ⟨rfl, known, unskipped⟩ := lands
    have live : ¬Resolved c := fun final => final.elim open_ unskipped
    simp [Call.credits, known, found, live]
  | admitChunks | admitGroup | next | onBatchResult | onBatchTiming | setLaneInfo | setLaneBatchMax | fundLane
  | retireLane => exact lands.elim

theorem Call.doneFor_apply [F64 F] (s : Scheduler F) (call : Call F) (gid i : Nat) :
    ((call.apply s).chunks[i]?).any (ChunkState.doneFor gid) = true ↔
      (s.chunks[i]?).any (ChunkState.doneFor gid) = true ∨
        ∃ c, s.chunks[i]? = some c ∧ c.group = some gid ∧ call.Lands s i c := by
  cases found : s.chunks[i]? with
  | some c =>
    obtain ⟨d, at_d, turn⟩ := call.turn found
    rw [at_d]
    simp only [Option.any_some, ChunkState.doneFor, decide_eq_true_eq, turn.group, turn.landed, Option.some.injEq,
      exists_eq_left']
    tauto
  | none =>
    have new : s.chunks.length ≤ i := List.getElem?_eq_none_iff.mp found
    cases at_d : (call.apply s).chunks[i]? with
    | none => simp
    | some d =>
      obtain ⟨pending, _⟩ := call.fresh new at_d
      simp [ChunkState.doneFor, pending]

theorem Call.doneIn_apply [F64 F] (s : Scheduler F) (call : Call F) (gid : Nat) :
    (call.apply s).doneIn gid = s.doneIn gid + if call.credits s = some gid then 1 else 0 := by
  unfold Scheduler.doneIn
  rw [countP_range _ (call.length_apply s), countP_range _ (Nat.le_refl _)]
  split
  · rename_i credit
    obtain ⟨lane, addr, ci, c, rfl, known, found, live, group⟩ := Call.credits_eq_some credit
    have inside := (List.getElem?_eq_some_iff.mp found).1
    refine countP_add_one List.nodup_range (List.mem_range.mpr (inside.trans_le (Call.length_apply ..))) ?_ ?_ ?_
    · have open_ : c.phase ≠ .done := fun h => live (.inl h)
      simp [found, ChunkState.doneFor, open_]
    · exact (Call.doneFor_apply s _ gid ci).mpr (.inr ⟨c, found, group, rfl, known, fun h => live (.inr h)⟩)
    · intro i other
      refine Bool.eq_iff_iff.mpr ((Call.doneFor_apply s _ gid i).trans (or_iff_left ?_))
      rintro ⟨c', _, _, _, known', _⟩
      exact other (Option.some.inj (known'.symm.trans known))
  · rename_i none_
    refine List.countP_congr fun i _ => (Call.doneFor_apply s call gid i).trans (or_iff_left_of_imp ?_)
    rintro ⟨c, found, group, lands⟩
    by_cases final : c.phase = .done
    · simp [found, ChunkState.doneFor, group, final]
    · exact absurd ((Call.credits_of_lands found lands final).trans group) none_

theorem Scheduler.getElem?_credited (grouped : s.policy = .group) (credit : Option Nat) (gid : Nat) :
    (s.credited credit)[gid]? = (s.groups[gid]?).map fun g =>
      { g with acked := if credit = some gid then g.acked + 1 else g.acked } := by
  rw [credited, if_pos grouped]
  cases credit with
  | none =>
    simp only [reduceCtorEq, if_false]
    exact (congrFun Option.map_id s.groups[gid]?).symm
  | some other =>
    dsimp only [Option.elim_some]
    rw [List.getElem?_modify]
    by_cases same : other = gid
    · cases s.groups[gid]? <;> simp [same]
    · cases s.groups[gid]? <;> simp [same]

theorem Call.groups_old [F64 F] (grouped : s.policy = .group) {g : GroupState}
    (found : s.groups[gid]? = some g) (call : Call F) : (call.apply s).groups[gid]? =
      some { g with acked := if call.credits s = some gid then g.acked + 1 else g.acked } := by
  rw [call.groups_apply]
  have inside := (List.getElem?_eq_some_iff.mp found).1
  cases call with
  | admitGroup chunks need =>
    rw [Call.groups, List.getElem?_append_left inside, found]
    rfl
  | onAck lane addr ok =>
    rw [Call.groups, Scheduler.getElem?_credited grouped, found]
    rfl
  | admitChunks | next | onBatchResult | onBatchTiming | setLaneInfo | setLaneBatchMax | fundLane | retireLane =>
    exact found

theorem Call.groups_new [F64 F] (grouped : s.policy = .group)
    {g : GroupState} (new : s.groups[gid]? = none) (found : (call.apply s).groups[gid]? = some g) :
    ∃ chunks need, call = .admitGroup chunks need ∧ gid = s.groups.length ∧ g = { need, acked := 0 } := by
  rw [call.groups_apply] at found
  cases call with
  | admitGroup chunks need =>
    rw [Call.groups, List.getElem?_append_right (List.getElem?_eq_none_iff.mp new)] at found
    obtain ⟨first, rfl⟩ := List.getElem?_eq_some_iff.mp found
    have last : gid - s.groups.length = 0 := by simpa using first
    have here := List.getElem?_eq_none_iff.mp new
    refine ⟨chunks, need, rfl, by omega, ?_⟩
    simp [last]
  | onAck lane addr ok =>
    rw [Call.groups, Scheduler.getElem?_credited grouped, new] at found
    cases found
  | admitChunks | next | onBatchResult | onBatchTiming | setLaneInfo | setLaneBatchMax | fundLane | retireLane =>
    cases new.symm.trans found

theorem Call.complete_apply [F64 F] (grouped : s.policy = .group)
    (complete : s.Complete gid) (call : Call F) : (call.apply s).Complete gid := by
  obtain ⟨g, found, enough⟩ := complete
  refine ⟨_, Call.groups_old grouped found call, enough.trans ?_⟩
  rw [call.doneIn_apply]
  exact Nat.le_add_right ..

namespace Scheduler

theorem onGroupAck_retires {s : Scheduler F} (grouped : s.policy = .group) {ci gid : Nat} {c : ChunkState}
    {g : GroupState} (found : s.chunks[ci]? = some c) (group : c.group = some gid) (at_g : s.groups[gid]? = some g)
    (full : ¬g.acked + 1 < g.need) :
    ∀ d ∈ (s.onGroupAck ci).chunks, d.group = some gid → d.phase ≠ .pending := by
  intro d member mine waits
  unfold onGroupAck at member
  rw [if_neg (not_not.mpr grouped), found] at member
  dsimp only [Option.bind_some] at member
  rw [group] at member
  dsimp only at member
  rw [List.getElem?_modify, at_g] at member
  simp only [if_true, Option.map_eq_map, Option.map_some, Option.all_some, full, decide_false, Bool.false_eq_true,
    if_false] at member
  obtain ⟨c', _, made⟩ := List.mem_map.mp member
  split at made
  · rw [← made] at waits
    cases waits
  · rename_i kept
    subst made
    exact kept (decide_eq_true ⟨mine, waits⟩)

theorem onAck_retires {s : Scheduler F} (grouped : s.policy = .group) {lane ci gid : Nat} {addr : Addr}
    {c : ChunkState} {g : GroupState} (known : s.index.lookup addr = some ci) (found : s.chunks[ci]? = some c)
    (live : ¬Resolved c) (group : c.group = some gid) (at_g : s.groups[gid]? = some g)
    (full : ¬g.acked + 1 < g.need) :
    ∀ d ∈ (s.onAck lane addr true).chunks, d.group = some gid → d.phase ≠ .pending := by
  rcases onAck_cases lane known found true with ⟨final, _⟩ | ⟨_, f, out⟩
  · exact absurd final live
  · rw [out]
    have at_done : ((s.settleAck ci c).updLane lane f).chunks[ci]? = some { c with phase := .done, on := [] } :=
      found_updChunk found _
    exact onGroupAck_retires (s := (s.settleAck ci c).updLane lane f) grouped at_done group at_g full

end Scheduler

instance (s : Scheduler F) (i : Nat) (c : ChunkState) : (call : Call F) → Decidable (call.GivesBack s i c)
  | .onAck lane addr ok => inferInstanceAs (Decidable
      (ok = false ∧ s.index.lookup addr = some i ∧ c.on.filter (· ≠ lane) = [] ∧ c.attempts < s.cfg.maxAttempts))
  | .onBatchResult batch outcome _ => decidable_of_iff
      (∃ e ∈ s.outstanding.lookup batch, i ∈ e.2 ∧ c.on.filter (· ≠ e.1) = [] ∧
        (c.judged outcome (e.2.count i)).attempts < s.cfg.maxAttempts)
      ⟨fun ⟨e, found, rest⟩ => ⟨e.1, e.2, found, rest⟩, fun ⟨lane, cs, found, rest⟩ => ⟨(lane, cs), found, rest⟩⟩
  | .admitChunks _ | .admitGroup .. | .next .. | .onBatchTiming .. | .setLaneInfo .. | .setLaneBatchMax ..
  | .fundLane _ | .retireLane _ => .isFalse id

/-- Nothing is given back to the queue for a group that is complete, and a new group needs an ack and
has a number of its own. -/
def Call.Retains (s : Scheduler F) : Call F → Prop
  | .admitGroup _ need => need ≠ 0 ∧ s.groups.length < 2 ^ 32
  | call => ∀ i < s.chunks.length, ∀ c ∈ s.chunks[i]?, ∀ gid ∈ c.group, s.Complete gid → call.GivesBack s i c →
      Resolved c

instance (s : Scheduler F) : (call : Call F) → Decidable (call.Retains s)
  | .admitGroup _ need => inferInstanceAs (Decidable (need ≠ 0 ∧ s.groups.length < 2 ^ 32))
  | .onAck .. | .onBatchResult .. | .admitChunks _ | .next .. | .onBatchTiming .. | .setLaneInfo ..
  | .setLaneBatchMax .. | .fundLane _ | .retireLane _ => by unfold Call.Retains; infer_instance

def Call.Spares [F64 F] (s : Scheduler F) : Call F → Prop
  | .next nowMs iter => ∀ a ∈ (s.next nowMs iter).2, a.hedge = true →
      ∀ i ∈ a.chunks, ∀ c ∈ s.chunks[i]?, ∀ gid ∈ c.group, ¬s.Complete gid
  | _ => True

instance [F64 F] (s : Scheduler F) : (call : Call F) → Decidable (call.Spares s)
  | .next .. => by unfold Call.Spares; infer_instance
  | .admitChunks _ | .admitGroup .. | .onAck .. | .onBatchResult .. | .onBatchTiming .. | .setLaneInfo ..
  | .setLaneBatchMax .. | .fundLane _ | .retireLane _ => .isTrue trivial

def Call.LeavesOut [F64 F] (gid : Nat) (s : Scheduler F) : Call F → Prop
  | .next nowMs iter => ∀ a ∈ (s.next nowMs iter).2, a.hedge = false →
      ∀ i ∈ a.chunks, ∀ c ∈ s.chunks[i]?, c.group ≠ some gid
  | _ => True

/-- Numbers and tallies of groups are right, and no member of a complete group waits. -/
structure Grouped (s : Scheduler F) : Prop where
  policy : s.policy = .group
  known : ∀ (i : Nat) (c : ChunkState) (gid : Nat), s.chunks[i]? = some c → c.group = some gid →
    gid < s.groups.length
  counted : ∀ (gid : Nat) (g : GroupState), s.groups[gid]? = some g → s.doneIn gid < g.need.toNat →
    g.acked.toNat = s.doneIn gid
  retired : ∀ (i : Nat) (c : ChunkState) (gid : Nat), s.chunks[i]? = some c → c.group = some gid →
    s.Complete gid → c.phase ≠ .pending

theorem Call.member_cases [F64 F] (retains : call.Retains s) {i : Nat}
    {d : ChunkState} (at_d : (call.apply s).chunks[i]? = some d) (mine : d.group = some gid) :
    (∃ c, s.chunks[i]? = some c ∧ c.group = some gid ∧ Turn (call.GivesBack s i c) (call.Lands s i c) c d) ∨
      ∃ chunks need, call = .admitGroup chunks need ∧ need ≠ 0 ∧ gid = s.groups.length := by
  cases found : s.chunks[i]? with
  | some c =>
    obtain ⟨d', at_d', turn⟩ := call.turn found
    cases at_d.symm.trans at_d'
    exact .inl ⟨c, rfl, turn.group.symm.trans mine, turn⟩
  | none =>
    obtain ⟨_, none_ | ⟨chunks, need, rfl, numbered⟩⟩ := call.fresh (List.getElem?_eq_none_iff.mp found) at_d
    · rw [none_] at mine
      cases mine
    · obtain ⟨some_, small⟩ := retains
      rw [numbered, Option.some.injEq, Nat.mod_eq_of_lt small] at mine
      exact .inr ⟨chunks, need, rfl, some_, mine.symm⟩

namespace Grouped

variable [F64 F] {s : Scheduler F} {call : Call F}

theorem known_apply (h : Grouped s) (retains : call.Retains s) :
    ∀ (i : Nat) (d : ChunkState) (gid : Nat), (call.apply s).chunks[i]? = some d → d.group = some gid →
      gid < (call.apply s).groups.length := by
  intro i d gid at_d mine
  have grows : s.groups.length ≤ (call.apply s).groups.length := by
    by_contra fewer
    have inside := Nat.lt_of_not_le fewer
    have lost := Call.groups_old h.policy (List.getElem?_eq_getElem inside) call
    exact Nat.lt_irrefl _ (List.getElem?_eq_some_iff.mp lost).1
  rcases Call.member_cases retains at_d mine with ⟨c, found, group, _⟩ | ⟨chunks, need, rfl, _, rfl⟩
  · exact (h.known i c gid found group).trans_le grows
  · rw [Call.groups_apply, Call.groups, List.length_append]
    exact Nat.lt_succ_self _

omit [F64 F] in
theorem doneIn_new (h : Grouped s) : s.doneIn s.groups.length = 0 := by
  refine List.countP_eq_zero.mpr fun c member counts => ?_
  obtain ⟨i, found⟩ := List.mem_iff_getElem?.mp member
  exact Nat.lt_irrefl _ (h.known i c _ found (of_decide_eq_true counts).1)

theorem counted_apply (h : Grouped s) (call : Call F) :
    ∀ (gid : Nat) (g : GroupState), (call.apply s).groups[gid]? = some g → (call.apply s).doneIn gid < g.need.toNat →
      g.acked.toNat = (call.apply s).doneIn gid := by
  intro gid g at_g short
  cases found : s.groups[gid]? with
  | some g₀ =>
    rw [Call.groups_old h.policy found call, Option.some.injEq] at at_g
    subst at_g
    have before := h.counted gid g₀ found
    have bound := g₀.need.toNat_lt
    rw [call.doneIn_apply] at short ⊢
    dsimp only at short ⊢
    split at short
    · -- Short of the need, so that the count does not wrap.
      rename_i credit
      have same := before (by omega)
      rw [if_pos credit, if_pos credit, UInt16.toNat_add, same, UInt16.toNat_one]
      omega
    · rename_i other
      rw [if_neg other, if_neg other]
      exact before short
  | none =>
    obtain ⟨chunks, need, rfl, rfl, rfl⟩ := Call.groups_new h.policy found at_g
    rw [Call.doneIn_apply, h.doneIn_new]
    rfl

theorem completed (h : Grouped s) {gid : Nat} {g : GroupState} (at_g : s.groups[gid]? = some g)
    (before : ¬s.Complete gid) (after : (call.apply s).Complete gid) :
    ∀ d ∈ (call.apply s).chunks, d.group = some gid → d.phase ≠ .pending := by
  obtain ⟨g', at_g', enough⟩ := after
  have short : s.doneIn gid < g.need.toNat := Nat.lt_of_not_le fun full => before ⟨g, at_g, full⟩
  rw [Option.mem_def, Call.groups_old h.policy at_g call, Option.some.injEq] at at_g'
  subst at_g'
  rw [call.doneIn_apply] at enough
  dsimp only at enough
  split at enough
  · rename_i credit
    obtain ⟨lane, addr, ci, c, rfl, known, found, live, group⟩ := Call.credits_eq_some credit
    refine Scheduler.onAck_retires h.policy known found live group at_g ?_
    have same := h.counted gid g at_g short
    have bound := g.need.toNat_lt
    rw [UInt16.lt_iff_toNat_lt, UInt16.toNat_add, same, UInt16.toNat_one]
    omega
  · omega

theorem retired_apply (h : Grouped s) (retains : call.Retains s) :
    ∀ (i : Nat) (d : ChunkState) (gid : Nat), (call.apply s).chunks[i]? = some d → d.group = some gid →
      (call.apply s).Complete gid → d.phase ≠ .pending := by
  intro i d gid at_d mine complete waits
  rcases Call.member_cases retains at_d mine with ⟨c, found, group, turn⟩ | ⟨chunks, need, rfl, some_, rfl⟩
  · by_cases before : s.Complete gid
    · rcases turn.waits waits with pending | ⟨given, live⟩
      · exact h.retired i c gid found group before pending
      · have inside := (List.getElem?_eq_some_iff.mp found).1
        cases call with
        | onAck lane addr ok => exact live (retains i inside c found gid group before given)
        | onBatchResult batch outcome nowMs => exact live (retains i inside c found gid group before given)
        | admitChunks | admitGroup | next | onBatchTiming | setLaneInfo | setLaneBatchMax | fundLane | retireLane =>
          exact given
    · have inside := h.known i c gid found group
      exact h.completed (List.getElem?_eq_getElem inside) before complete d (List.mem_of_getElem? at_d) mine waits
  · -- The new group has no acks yet.
    obtain ⟨g, at_g, enough⟩ := complete
    rw [Call.doneIn_apply, h.doneIn_new] at enough
    rw [Option.mem_def, Call.groups_apply, Call.groups, List.getElem?_append_right (Nat.le_refl _), Nat.sub_self] at at_g
    cases at_g
    exact some_ (UInt16.toNat_inj.mp (Nat.le_zero.mp enough))

theorem apply (h : Grouped s) (retains : call.Retains s) : Grouped (call.apply s) where
  policy := (call.policy_apply s).trans h.policy
  known := h.known_apply retains
  counted := h.counted_apply call
  retired := h.retired_apply retains

theorem start (lanes : List (LaneInfo F)) (cfg : Config F) : Grouped (Scheduler.withPolicy lanes cfg .group) where
  policy := rfl
  known _ _ _ found := by cases found
  counted _ _ found := by cases found
  retired _ _ _ found := by cases found

theorem leavesOut (h : Grouped s) {gid : Nat} (complete : s.Complete gid) (call : Call F) : call.LeavesOut gid s := by
  cases call with
  | next nowMs iter =>
    intro a handed plain i member c found mine
    rcases Scheduler.next_selected handed with ⟨hedge, _⟩ | ⟨_, chosen⟩
    · rw [plain] at hedge
      cases hedge
    · have waits := (List.mem_filter.mp ((Scheduler.choose_spec chosen).2.2.subset member)).2
      exact h.retired i c gid found mine complete (Scheduler.phase_of_isPending waits found)
  | admitChunks | admitGroup | onAck | onBatchResult | onBatchTiming | setLaneInfo | setLaneBatchMax | fundLane
  | retireLane => trivial

end Grouped

structure Since (s : Scheduler F) (gid : Nat) (t : Scheduler F) : Prop where
  grouped : Grouped t
  inv : Inv t
  complete : t.Complete gid
  older : ∀ (b lane : Nat) (cs : List Nat) (i : Nat) (c : ChunkState), t.outstanding.lookup b = some (lane, cs) →
    i ∈ cs → t.chunks[i]? = some c → c.group = some gid → (s.outstanding.lookup b).isSome = true

namespace Since

variable {s t : Scheduler F} {gid : Nat}

theorem refl (grouped : Grouped s) (inv : Inv s) (complete : s.Complete gid) : Since s gid s where
  grouped := grouped
  inv := inv
  complete := complete
  older b lane cs i c found _ _ _ := by rw [found]; rfl

theorem apply [F64 F] (h : Since s gid t) {call : Call F} (retains : call.Retains t) (spares : call.Spares t) :
    Since s gid (call.apply t) := by
  refine ⟨h.grouped.apply retains, (call.apply_kept t h.inv).1, Call.complete_apply h.grouped.policy h.complete call, ?_⟩
  intro b lane cs i d out member at_d mine
  obtain ⟨c, found, group, _⟩ | ⟨chunks, need, rfl, _, rfl⟩ := Call.member_cases retains at_d mine
  case inr =>
    obtain ⟨g, at_g, _⟩ := h.complete
    exact absurd (List.getElem?_eq_some_iff.mp at_g).1 (Nat.lt_irrefl _)
  have older (before : t.outstanding.lookup b = some (lane, cs)) := h.older b lane cs i c before member found group
  rw [call.outstanding_apply] at out
  cases call with
  | next nowMs iter =>
    rw [Call.books] at out
    cases handed : (t.next nowMs iter).2 with
    | none =>
      rw [handed] at out
      exact older out
    | some a =>
      rw [handed] at out
      by_cases new : b = a.batch
      · -- A batch of its own would be a hedge or a first dispatch.
        rw [new, Option.elim_some, AList.lookup_insert, Option.some.injEq] at out
        cases out
        cases hedge : a.hedge with
        | true => exact absurd h.complete (spares a handed hedge i member c found gid group)
        | false => exact absurd group (h.grouped.leavesOut h.complete (.next nowMs iter) a handed hedge i member c found)
      · rw [Option.elim_some, AList.lookup_insert_ne new] at out
        exact older out
  | onBatchResult batch outcome nowMs =>
    rw [Call.books] at out
    exact older (lookup_of_erase out).2
  | admitChunks | admitGroup | onAck | onBatchTiming | setLaneInfo | setLaneBatchMax | fundLane | retireLane =>
    exact older out

theorem settled (h : Since s gid t)
    (gone : ∀ b, (s.outstanding.lookup b).isSome = true → t.outstanding.lookup b = none) {c : ChunkState}
    (member : c ∈ t.chunks) (mine : c.group = some gid) :
    c.phase = .done ∨ c.phase = .failed ∨ c.phase = .skipped := by
  obtain ⟨i, found⟩ := List.mem_iff_getElem?.mp member
  cases phase : c.phase with
  | pending => exact absurd phase (h.grouped.retired i c gid found mine h.complete)
  | inFlight =>
    obtain ⟨lane, on⟩ := List.exists_mem_of_ne_nil _ (h.inv.flying i c found phase)
    obtain no | ⟨b, cs, out, listed⟩ := h.inv.traced i c lane found on
    · exact no.elim
    · rw [gone b (h.older b lane cs i c out listed found mine)] at out
      cases out
  | done => exact .inl rfl
  | failed => exact .inr (.inl rfl)
  | skipped => exact .inr (.inr rfl)

end Since

def Event.call? (t : Tracked F) : Event F → Option (Call F)
  | .call made => some made
  | .ack batch ci ok =>
    match t.sched.outstanding.lookup batch, t.sched.chunkAddr ci with
    | some (lane, _), some addr => some (.onAck lane addr ok)
    | _, _ => none

theorem Event.sched_apply [F64 F] (t : Tracked F) (e : Event F) :
    (e.apply t).sched = (e.call? t).elim t.sched (·.apply t.sched) := by
  cases e with
  | ack batch ci ok =>
    dsimp only [Event.apply, Event.call?]
    cases t.sched.outstanding.lookup batch with
    | none => rfl
    | some entry => cases t.sched.chunkAddr ci <;> rfl
  | call made =>
    cases made with
    | next nowMs iter =>
      dsimp only [Event.apply, Event.call?, Option.elim_some, Call.apply]
      split
      · rename_i out
        exact (congrArg Prod.fst out).symm
      · rename_i out
        exact (congrArg Prod.fst out).symm
    | admitChunks | admitGroup | onAck | onBatchResult | onBatchTiming | setLaneInfo | setLaneBatchMax | fundLane
    | retireLane => rfl

def Event.Makes (ok : Scheduler F → Call F → Prop) (t : Tracked F) (e : Event F) : Prop :=
  ∀ call ∈ e.call? t, ok t.sched call

instance (ok : Scheduler F → Call F → Prop) [∀ s call, Decidable (ok s call)] (t : Tracked F) (e : Event F) :
    Decidable (e.Makes ok t) := inferInstanceAs (Decidable (∀ call ∈ e.call? t, ok t.sched call))

theorem Event.keeps [F64 F] (inv : Scheduler F → Prop) (ok : Scheduler F → Call F → Prop)
    (keep : ∀ s call, inv s → ok s call → inv (call.apply s)) (t : Tracked F) (e : Event F) (before : inv t.sched)
    (met : e.Makes ok t) : inv (e.apply t).sched := by
  rw [e.sched_apply]
  cases made : e.call? t with
  | none => exact before
  | some call => exact keep t.sched call before (met call made)

/-- Under the group policy, from the moment a group has the acks it needs: no member is in a later assignment
other than a hedge, if nothing is given back for a complete group; and if no member is hedged either, then
with the batches gone that were out at that moment, every member is done, failed or skipped. -/
theorem group_completion [F64 F] (lanes : List (LaneInfo F)) (cfg : Config F) (events more : List (Event F))
    (gid : Nat)
    (retains : Along (Event.Makes Call.Retains) Event.apply (Tracked.start lanes cfg .group) (events ++ more))
    (complete : (run Event.apply (Tracked.start lanes cfg .group) events).sched.Complete gid) :
    let t := run Event.apply (Tracked.start lanes cfg .group) events
    Along (Event.Makes (Call.LeavesOut gid)) Event.apply t more ∧
    (Along (Event.Makes Call.Spares) Event.apply t more →
      (∀ b, (t.sched.outstanding.lookup b).isSome = true →
        (run Event.apply t more).sched.outstanding.lookup b = none) →
      ∀ c ∈ (run Event.apply t more).sched.chunks, c.group = some gid →
        c.phase = .done ∨ c.phase = .failed ∨ c.phase = .skipped) := by
  obtain ⟨first, later⟩ := (along_append ..).mp retains
  have start : Grouped (Tracked.start lanes cfg .group).sched ∧ Inv (Tracked.start lanes cfg .group).sched :=
    ⟨Grouped.start lanes cfg, inv_withPolicy lanes cfg .group⟩
  have reached := invariant_along (fun t : Tracked F => Grouped t.sched ∧ Inv t.sched) _ _
    (Event.keeps (fun s => Grouped s ∧ Inv s) Call.Retains fun s call both ok =>
      ⟨both.1.apply ok, (call.apply_kept s both.2).1⟩) _ events start first
  intro t
  constructor
  · have keep := Event.keeps (fun s : Scheduler F => Grouped s ∧ s.Complete gid) Call.Retains fun s call both ok =>
      ⟨both.1.apply ok, Call.complete_apply both.1.policy both.2 call⟩
    exact along_of_invariant keep (fun u e both _ call _ => both.1.leavesOut both.2 call) more
      ⟨reached.1, complete⟩ later
  · intro spares gone c member mine
    have keep := Event.keeps (Since t.sched gid) (fun s call => call.Retains s ∧ call.Spares s) fun s call since ok =>
      since.apply ok.1 ok.2
    have since := invariant_along (fun u : Tracked F => Since t.sched gid u.sched) _ _
      (fun u e since ok => keep u e since fun call made => ⟨ok.1 call made, ok.2 call made⟩) t more
      (.refl reached.1 reached.2 complete) ((along_and ..).mpr ⟨later, spares⟩)
    exact since.settled gone member mine

def oneTry : Config ℚ := { Config.default with maxAttempts := 1 }

def groupOfThree : List (Event ℚ) :=
  [.call (.admitGroup [(Bytes.replicate 32 0, 4096), (Bytes.replicate 32 1, 4096), (Bytes.replicate 32 2, 4096)] 1),
    .call (.setLaneBatchMax 0 2), .call (.next 0 []), .ack 1 0 true]

def groupRest : List (Event ℚ) := [.ack 1 1 false, .call (.onBatchResult 1 .answered 5), .call (.next 10 [])]

theorem group_completion_groupOfThree :
    let t := run Event.apply (Tracked.start lane oneTry .group) groupOfThree
    let u := run Event.apply t groupRest
    t.sched.outstanding.keys = [1] ∧ u.sched.chunks.map (·.phase) = [.done, .failed, .skipped] ∧
      Along (Event.Makes (Call.LeavesOut 0)) Event.apply t groupRest ∧
      ∀ c ∈ u.sched.chunks, c.group = some 0 → c.phase = .done ∨ c.phase = .failed ∨ c.phase = .skipped := by
  have retains : Along (Event.Makes Call.Retains) Event.apply (Tracked.start lane oneTry .group)
      (groupOfThree ++ groupRest) := by decide +kernel
  have complete : (run Event.apply (Tracked.start lane oneTry .group) groupOfThree).sched.Complete 0 := by
    decide +kernel
  obtain ⟨left, settled⟩ := group_completion lane oneTry groupOfThree groupRest 0 retains complete
  refine ⟨by decide +kernel, by decide +kernel, left, settled (by decide +kernel) fun b _ => ?_⟩
  have none_ : (run Event.apply (run Event.apply (Tracked.start lane oneTry .group) groupOfThree)
      groupRest).sched.inFlight = 0 := by decide +kernel
  exact Scheduler.outstanding_empty none_ b

def requeuedMember : List (Event ℚ) :=
  [.call (.admitGroup [(Bytes.replicate 32 0, 4096), (Bytes.replicate 32 1, 4096)] 1), .call (.next 0 []),
    .ack 1 0 true, .ack 1 1 false, .call (.onBatchResult 1 .answered 5)]

/-- The second is queued though the group is complete and its batch gone, and it is sent again. -/
theorem requeuedMember_resent :
    let t := run Event.apply (Tracked.start lane Config.default .group) (requeuedMember.take 3)
    let u := run Event.apply (Tracked.start lane Config.default .group) requeuedMember
    Along Honest Event.apply (Tracked.start lane Config.default .group) requeuedMember ∧
      t.sched.Complete 0 ∧ t.sched.outstanding.keys = [1] ∧ u.sched.outstanding.keys = [] ∧
      u.sched.chunks.map (fun c => (c.group, c.phase)) = [(some 0, .done), (some 0, .pending)] ∧
      (u.sched.next 10 []).2.map (fun a => (a.hedge, a.chunks)) = some (false, [1]) := by
  decide +kernel

end Hoverfly.Sched
