import Hoverfly.Erasure.Streaming

/-! From one delivery to a whole split: the encoder runs the cascade of trees, its
root is the root of the object's tree, and it hashes the chunks of that tree. -/
namespace Hoverfly.Erasure
open Lib Cascade Encoder

variable {bmt : Nat → List UInt8 → Addr} {level : Level} {e e' : Encoder} {l : Nat}

def Above (bmt : Nat → List UInt8 → Addr) (level : Level) (e : Encoder) : Nat → List (List Tree) → List Tree → Prop
  | l, [], crown => Slot bmt level e l (crown.map (Tree.wire bmt level))
  | l, g :: up, crown => Slot bmt level e l (g.map (Tree.wire bmt level)) ∧ Above bmt level e (l + 1) up crown

structure Below (l : Nat) (e e' : Encoder) : Prop where
  levels : ∀ j < l, e'.levels.getD j {} = e.levels.getD j {}
  buffers : ∀ j, j + 1 < l → e'.rsBuf.getD j [] = e.rsBuf.getD j []

theorem Slot.of_eq {ws : List Wire} (slot : Slot bmt level e l ws)
    (levels : e'.levels.getD l {} = e.levels.getD l {})
    (buffers : e'.rsBuf.getD (l - 1) [] = e.rsBuf.getD (l - 1) []) : Slot bmt level e' l ws :=
  ⟨levels.trans slot.buf, buffers.trans slot.shards⟩

variable {up : List (List Tree)} {crown : List Tree} {payload data : List UInt8} {s : State Tree} {t : Tree}

theorem Above.of_eq (above : Above bmt level e l up crown)
    (levels : ∀ j, l ≤ j → e'.levels.getD j {} = e.levels.getD j {})
    (buffers : ∀ j, l ≤ j + 1 → e'.rsBuf.getD j [] = e.rsBuf.getD j []) : Above bmt level e' l up crown := by
  induction up generalizing l with
  | nil => exact Slot.of_eq above (levels l (Nat.le_refl _)) (buffers _ (by omega))
  | cons g up ih =>
    exact ⟨Slot.of_eq above.1 (levels l (Nat.le_refl _)) (buffers _ (by omega)),
      ih above.2 (fun j later => levels j (by omega)) (fun j later => buffers j (by omega))⟩

theorem Moves.above {buf : LevelBuf} {shards : List Wire} (moves : Moves e e' l buf shards)
    (above : Above bmt level e (l + 1) up crown) :
    Above bmt level e' (l + 1) up crown :=
  above.of_eq (fun j later => by rw [moves.levels, if_neg (by omega)])
    (fun j later => by rw [moves.buffers, if_neg (by omega)])

theorem Moves.below {buf : LevelBuf} {shards : List Wire} (moves : Moves e e' l buf shards) : Below l e e' where
  levels := fun j lower => by rw [moves.levels, if_neg (by omega)]
  buffers := fun j lower => by rw [moves.buffers, if_neg (by omega)]

@[simp] theorem finishWrap_levels (l : Nat) (e : Encoder) : (finishWrap l e).levels = e.levels := by
  unfold finishWrap
  split <;> rfl

@[simp] theorem finishWrap_rsBuf (l : Nat) (e : Encoder) : (finishWrap l e).rsBuf = e.rsBuf := by
  unfold finishWrap
  split <;> rfl

theorem finishWrap_sized (sized : Sized level e) (l : Nat) : Sized level (finishWrap l e) := by
  unfold finishWrap
  split
  · exact { sized with }
  · exact sized

theorem finishWrap_log {wires : List Wire} (log : Log bmt e wires) (l : Nat) : Log bmt (finishWrap l e) wires := by
  unfold finishWrap
  split
  · exact log.of_eq rfl rfl rfl
  · exact log

def chunksOf (bmt : Nat → List UInt8 → Addr) (level : Level) (trees : List Tree) : List Wire :=
  trees.flatMap (Tree.wires bmt level)

theorem Log.perm {ts us : List Tree} (log : Log bmt e (chunksOf bmt level ts)) (perm : ts.Perm us) :
    Log bmt e (chunksOf bmt level us) :=
  log.congr fun _ => (perm.flatMap_right _).mem_iff

theorem Log.node {g ts us : List Tree}
    (log : Log bmt e (nodeWire bmt level (g.map (Tree.wire bmt level)) ::
      parityWires level (g.map (Tree.wire bmt level)) ++ chunksOf bmt level ts))
    (perm : ts.Perm (g ++ us)) : Log bmt e (chunksOf bmt level (.node g :: us)) := by
  have whole : chunksOf bmt level (.node g :: us) = nodeWire bmt level (g.map (Tree.wire bmt level)) ::
      parityWires level (g.map (Tree.wire bmt level)) ++ chunksOf bmt level (g ++ us) := by
    rw [chunksOf, List.flatMap_cons, Tree.wires, List.append_assoc, ← List.flatMap_append, chunksOf]
  rw [whole]
  exact log.congr fun _ => ((perm.flatMap_right _).append_left _).mem_iff

theorem perm_delivered (t : Tree) (g : List Tree) (up : List (List Tree)) (crown rest : List Tree) :
    ((g :: up).flatten ++ crown ++ t :: rest).Perm ((g ++ [t]) ++ (up.flatten ++ crown ++ rest)) := by
  rw [List.flatten_cons, List.append_assoc, List.append_assoc, List.append_assoc g]
  refine List.Perm.append_left g ?_
  rw [← List.append_assoc]
  exact List.perm_middle

structure Delivered (bmt : Nat → List UInt8 → Addr) (level : Level) (l : Nat) (e e' : Encoder)
    (s : State Tree) (rest : List Tree) : Prop where
  sized : Sized level e'
  below : Below l e e'
  above : Above bmt level e' l s.levels s.crown
  log : Log bmt e' (chunksOf bmt level (s.levels.flatten ++ s.crown ++ rest))

theorem deliver_spec (t : Tree) (rest : List Tree) {f : List (List Tree)} (pos : 1 ≤ l)
    (height : l + f.length = maxLevel) (sized : Sized level e) (above : Above bmt level e l f crown)
    (short : ∀ g ∈ f, g.length < level.maxShards) (low : crown.length + 1 < level.maxShards)
    (log : Log bmt e (chunksOf bmt level (f.flatten ++ crown ++ t :: rest))) :
    ∃ e', deliver bmt l (t.wire bmt level) e = .ok e' ∧
      Delivered bmt level l e e' (feed level.maxShards .node t f crown) rest ∧
      (e'.full = true ↔ e.full = true ∨
        f ≠ [] ∧ crown.length < (feed level.maxShards .node t f crown).crown.length) := by
  induction f generalizing l e t with
  | nil =>
    obtain ⟨e', delivered, moves, kept⟩ := deliver_room (by simp at height; omega) pos sized above
      (t.wire bmt level) (by simpa using low)
    refine ⟨e', delivered, ⟨moves.sized _ sized, moves.below, ?_, ?_⟩, ?_⟩
    · refine ⟨?_, ?_⟩
      · rw [moves.levels, if_pos rfl]
        simp [feed]
      · rw [moves.buffers, if_pos (by omega)]
        simp [feed]
    · simpa [feed] using kept _ log
    · rw [moves.full]
      simp
  | cons g up ih =>
    have here := short g (List.mem_cons_self ..)
    simp only [List.length_cons] at height
    by_cases room : g.length + 1 < level.maxShards
    · obtain ⟨e', delivered, moves, kept⟩ := deliver_room (by omega) pos sized above.1
        (t.wire bmt level) (by simpa using room)
      have fed : feed level.maxShards .node t (g :: up) crown = ⟨(g ++ [t]) :: up, crown⟩ := by
        rw [feed, if_pos room]
      rw [fed]
      refine ⟨e', delivered, ⟨moves.sized _ sized, moves.below, ⟨⟨?_, ?_⟩, moves.above above.2⟩, ?_⟩, ?_⟩
      · rw [moves.levels, if_pos rfl]
        simp
      · rw [moves.buffers, if_pos (by omega)]
        simp
      · have placed := perm_delivered t g up crown rest
        rw [← List.append_assoc, ← List.append_assoc] at placed
        exact (kept _ log).perm placed
      · rw [moves.full]
        simp
    · obtain ⟨e₁, moves, log₁, closes⟩ := deliver_full (by omega) pos sized above.1 log
        (t.wire bmt level) (by simp only [List.length_map]; omega)
      have group : g.map (Tree.wire bmt level) ++ [t.wire bmt level] = (g ++ [t]).map (Tree.wire bmt level) := by
        simp
      rw [group, ← Tree.wire] at closes
      rw [group] at log₁
      have log₂ : Log bmt e₁ (chunksOf bmt level (up.flatten ++ crown ++ Tree.node (g ++ [t]) :: rest)) :=
        (log₁.node (perm_delivered t g up crown rest)).perm List.perm_middle.symm
      obtain ⟨e₂, delivered, after, full⟩ := ih (Tree.node (g ++ [t])) (by omega) (by omega)
        (moves.sized _ sized) (moves.above above.2)
        (fun g' member => short g' (List.mem_cons_of_mem _ member)) log₂
      have fed : feed level.maxShards .node t (g :: up) crown =
          ⟨[] :: (feed level.maxShards .node (Tree.node (g ++ [t])) up crown).levels,
            (feed level.maxShards .node (Tree.node (g ++ [t])) up crown).crown⟩ := by
        rw [feed, if_neg room]
      rw [fed]
      refine ⟨_, closes e₂ delivered after.sized, ⟨finishWrap_sized after.sized l, ⟨?_, ?_⟩, ⟨⟨?_, ?_⟩, ?_⟩, ?_⟩, ?_⟩
      · intro j lower
        rw [finishWrap_levels, after.below.levels j (by omega), moves.levels, if_neg (by omega)]
      · intro j lower
        rw [finishWrap_rsBuf, after.below.buffers j (by omega), moves.buffers, if_neg (by omega)]
      · rw [finishWrap_levels, after.below.levels l (by omega), moves.levels, if_pos rfl]
        rfl
      · rw [finishWrap_rsBuf, after.below.buffers _ (by omega), moves.buffers, if_pos (by omega)]
        simp [shardsOf]
      · exact after.above.of_eq (fun j _ => by rw [finishWrap_levels]) (fun j _ => by rw [finishWrap_rsBuf])
      · exact finishWrap_log after.log l
      · unfold finishWrap
        by_cases last : up = []
        · subst last
          have top : l + 1 = maxLevel := by simpa using height
          simp [top, feed]
        · have lower : l + 1 ≠ maxLevel := by
            have := List.length_pos_iff.mpr last
            omega
          rw [if_neg lower, full, moves.full]
          simp [last]

structure Writing (bmt : Nat → List UInt8 → Addr) (level : Level) (e : Encoder) (s : State Tree) : Prop where
  sized : Sized level e
  height : s.levels.length = 7
  short : ∀ g ∈ s.levels, g.length < level.maxShards
  above : Above bmt level e 1 s.levels s.crown
  log : Log bmt e (chunksOf bmt level (s.levels.flatten ++ s.crown))
  full : e.full = true ↔ s.crown ≠ []
  few : s.crown.length ≤ 1

theorem writing_new (bmt : Nat → List UInt8 → Addr) (level : Level) :
    Writing bmt level (Encoder.new level) ⟨List.replicate 7 [], []⟩ where
  sized := ⟨rfl, rfl, rfl, rfl, rfl⟩
  height := rfl
  short := by
    have := level.maxShards_mem
    intro g member
    rw [(List.mem_replicate.mp member).2, List.length_nil]
    omega
  above := by
    have slot : ∀ l, 1 ≤ l → l ≤ 8 → Slot bmt level (Encoder.new level) l [] := by
      intro l low high
      refine ⟨?_, ?_⟩
      · simp only [Encoder.new, List.getD_eq_getElem?_getD, List.getElem?_replicate]
        split <;> rfl
      · simp only [Encoder.new, List.getD_eq_getElem?_getD, List.getElem?_replicate]
        split <;> simp [shardsOf]
    exact ⟨slot 1 (by omega) (by omega), slot 2 (by omega) (by omega), slot 3 (by omega) (by omega),
      slot 4 (by omega) (by omega), slot 5 (by omega) (by omega), slot 6 (by omega) (by omega),
      slot 7 (by omega) (by omega), slot 8 (by omega) (by omega)⟩
  log := ⟨by simp [Encoder.new, chunksOf], by simp [Encoder.new], by simp [Encoder.new], by simp [chunksOf],
    by simp [Encoder.new]⟩
  full := by simp [Encoder.new]
  few := Nat.zero_le _

theorem length_leafWire (payload : List UInt8) : (leafWire payload).length = spanSize + payload.length := by
  simp [leafWire]

theorem span_leafWire (small : payload.length ≤ chunkSize) :
    fromLe ((leafWire payload).take spanSize) = payload.length := by
  rw [leafWire, List.take_left' (length_toLe _ _), fromLe_toLe, Nat.mod_eq_of_lt]
  exact Nat.lt_of_le_of_lt small (by decide)

theorem write_spec (writing : Writing bmt level e s) (small : payload.length ≤ chunkSize) :
    (s.crown ≠ [] → e.write bmt payload = .error (.error .trieFull)) ∧
    (s.crown = [] → ∃ e', e.write bmt payload = .ok e' ∧
      Writing bmt level e' (feed level.maxShards .node (.leaf payload) s.levels s.crown)) := by
  have branching := level.maxShards_mem
  constructor
  · intro reached
    rw [write, if_pos (writing.full.mpr reached)]
  · intro empty
    have open_ : ¬e.full = true := fun full => writing.full.mp full empty
    have length := length_leafWire payload
    have low : spanSize ≤ (leafWire payload).length := by omega
    have high : (leafWire payload).length ≤ chunkWithSpan := by
      rw [length, chunkWithSpan]
      omega
    obtain ⟨e₁, emitted, log₁, levels, buffers, full, sized₁⟩ := emit_spec writing.log low high false
    have above : Above bmt level e₁ 1 s.levels s.crown :=
      writing.above.of_eq (fun j _ => by rw [levels]) (fun j _ => by rw [buffers])
    have log : Log bmt e₁ (chunksOf bmt level (s.levels.flatten ++ s.crown ++ [.leaf payload])) := by
      refine log₁.congr fun w => ?_
      simp only [chunksOf, List.flatMap_append, List.flatMap_cons, List.flatMap_nil, List.append_nil, Tree.wires,
        List.mem_append, List.mem_cons, List.not_mem_nil, or_false]
      exact or_comm
    obtain ⟨e', delivered, after, filled⟩ := deliver_spec (.leaf payload) [] (Nat.le_refl 1)
      (by rw [writing.height]; rfl) (sized₁ _ writing.sized) above writing.short
      (by rw [empty, List.length_nil]; omega) log
    refine ⟨e', ?_, ?_⟩
    · rw [Tree.wire] at delivered
      unfold deliver at delivered
      rw [span_leafWire small] at delivered
      unfold write
      rw [if_neg open_]
      dsimp only
      rw [← leafWire, emitted]
      exact delivered
    · have few : (feed level.maxShards .node (.leaf payload) s.levels s.crown).crown.length ≤ s.crown.length + 1 :=
        length_crown_feed _
      refine ⟨after.sized, (length_feed _).trans writing.height, feed_short (by omega) writing.short _, after.above,
        by simpa using after.log, ?_, by rw [empty] at few ⊢; exact few⟩
      have some_ : s.levels ≠ [] := by
        rw [← List.length_pos_iff, writing.height]
        omega
      rw [filled, full, empty]
      simp [open_, some_, List.length_pos_iff]

theorem writes_spec (xs : List (List UInt8)) (small : ∀ x ∈ xs, x.length ≤ chunkSize)
    (writing : Writing bmt level e s) (light : weight level.maxShards s.levels s.crown ≤ level.maxShards ^ 7) :
    (weight level.maxShards s.levels s.crown + xs.length ≤ level.maxShards ^ 7 ∧
      ∃ e', xs.foldlM (write bmt) e = .ok e' ∧
        Writing bmt level e' (feedAll level.maxShards .node s (xs.map .leaf))) ∨
    (xs.foldlM (write bmt) e = .error (.error .trieFull) ∧
      level.maxShards ^ 7 < weight level.maxShards s.levels s.crown + xs.length) := by
  induction xs generalizing e s with
  | nil => exact .inl ⟨light, e, rfl, writing⟩
  | cons x xs ih =>
    obtain ⟨refused, taken⟩ := write_spec writing (small x (List.mem_cons_self ..))
    by_cases reached : s.crown = []
    · obtain ⟨e', written, writing'⟩ := taken reached
      have heavier : weight level.maxShards (feed level.maxShards .node (.leaf x) s.levels s.crown).levels
          (feed level.maxShards .node (.leaf x) s.levels s.crown).crown =
            weight level.maxShards s.levels s.crown + 1 := weight_feed writing.short _
      have room : weight level.maxShards s.levels s.crown < level.maxShards ^ 7 := by
        rw [reached, ← writing.height]
        exact weight_lt writing.short
      rw [List.foldlM_cons, written, List.length_cons]
      rcases ih (fun y member => small y (List.mem_cons_of_mem _ member)) writing' (by omega) with done | stopped
      · exact .inl ⟨by omega, done.2⟩
      · exact .inr ⟨stopped.1, by omega⟩
    · refine .inr ⟨by rw [List.foldlM_cons, refused reached]; rfl, ?_⟩
      have heavy : level.maxShards ^ s.levels.length * s.crown.length ≤ weight level.maxShards s.levels s.crown :=
        le_weight
      rw [writing.height] at heavy
      have one : level.maxShards ^ 7 * 1 ≤ level.maxShards ^ 7 * s.crown.length :=
        Nat.mul_le_mul_left _ (List.length_pos_iff.mpr reached)
      rw [List.length_cons]
      omega

def Loose (level : Level) : List (List Tree) → Prop
  | [] => True
  | g :: up => (g.length < level.maxShards ∨ level = .none ∧ g.length = level.maxShards) ∧
      ∀ g' ∈ up, g'.length < level.maxShards

theorem loose_of_short (short : ∀ g ∈ up, g.length < level.maxShards) : Loose level up := by
  cases up with
  | nil => trivial
  | cons g up => exact ⟨.inl (short g (List.mem_cons_self ..)), fun g' member => short g' (List.mem_cons_of_mem _ member)⟩

structure Closing (bmt : Nat → List UInt8 → Addr) (level : Level) (l : Nat) (e : Encoder) (s : State Tree) : Prop where
  sized : Sized level e
  height : l + s.levels.length = maxLevel
  above : Above bmt level e l s.levels s.crown
  loose : Loose level s.levels
  log : Log bmt e (chunksOf bmt level (s.levels.flatten ++ s.crown))

structure Flushed (bmt : Nat → List UInt8 → Addr) (level : Level) (l : Nat) (e' : Encoder)
    (levels : List (List Tree)) (crown : List Tree) (after : State Tree) : Prop where
  closing : Closing bmt level (l + 1) e' after
  top : top level.maxShards .node after.levels after.crown [] = top level.maxShards .node levels crown []
  few : after.crown.length ≤ crown.length + 1

theorem flushed_deliver {g : List (List Tree)} (pos : 1 ≤ l)
    (height : l + 1 + up.length = maxLevel) (sized : Sized level e) (above : Above bmt level e (l + 1) up crown)
    (short : ∀ g' ∈ up, g'.length < level.maxShards) (low : crown.length + 1 < level.maxShards)
    (log : Log bmt e (chunksOf bmt level (up.flatten ++ crown ++ [t])))
    (same : top level.maxShards .node up crown [t] = top level.maxShards .node (g ++ up) crown []) :
    ∃ e', deliver bmt (l + 1) (t.wire bmt level) e = .ok e' ∧
      Flushed bmt level l (finishWrap l e') (g ++ up) crown (feed level.maxShards .node t up crown) ∧
      Flushed bmt level l e' (g ++ up) crown (feed level.maxShards .node t up crown) := by
  have branching := level.maxShards_mem
  obtain ⟨e', delivered, after, -⟩ := deliver_spec t [] (by omega) height sized above short low log
  have closing : Closing bmt level (l + 1) e' (feed level.maxShards .node t up crown) :=
    ⟨after.sized, by rw [length_feed]; exact height, after.above, loose_of_short (feed_short (by omega) short t),
      by simpa using after.log⟩
  have tops := (top_feed (by omega) short t []).trans same
  refine ⟨e', delivered, ⟨⟨finishWrap_sized closing.sized l, closing.height, ?_, closing.loose,
    finishWrap_log closing.log l⟩, tops, length_crown_feed t⟩, ⟨closing, tops, length_crown_feed t⟩⟩
  exact closing.above.of_eq (fun j _ => by rw [finishWrap_levels]) (fun j _ => by rw [finishWrap_rsBuf])

theorem flush_carry_none (inside : l < maxLevel) (pos : 1 ≤ l) (sized : Sized .none e) {w : Wire} {ws : List Wire}
    (slot : Slot bmt .none e l [w]) (next : Slot bmt .none e (l + 1) ws) :
    ∃ e', e.flush bmt l = .ok e' ∧ Sized .none e' ∧ Slot bmt .none e' (l + 1) (ws ++ [w]) ∧
      (∀ j, l + 1 < j → e'.levels.getD j {} = e.levels.getD j {}) ∧ e'.rsBuf = e.rsBuf ∧
      (∀ wires, Log bmt e wires → Log bmt e' wires) := by
  have moved := moves_levels sized (Nat.le_of_lt inside) pos {}
  have pushed := moves_levels (moved.sized _ sized) (by omega : l + 1 ≤ maxLevel) (by omega) (bufOf bmt (ws ++ [w]))
  obtain ⟨entries, alone⟩ := slot.lone sized
  have above : ((e.levels.set l {}).getD (l + 1) {}).push false (entryOf bmt w) = bufOf bmt (ws ++ [w]) := by
    rw [← bufOf_push, ← next.buf]
    exact congrArg (·.push false (entryOf bmt w)) ((moved.levels (l + 1)).trans (if_neg (by omega)))
  refine ⟨{ e with levels := (e.levels.set l {}).set (l + 1) (bufOf bmt (ws ++ [w])) }, ?_,
    pushed.sized _ (moved.sized _ sized), ⟨(pushed.levels (l + 1)).trans (if_pos rfl), next.shards⟩, ?_, rfl,
    fun _ log => log.of_eq rfl rfl rfl⟩
  · unfold flush
    dsimp only
    rw [entries]
    dsimp only
    rw [if_neg alone, if_pos rfl, above]
    exact if_pos (.inl sized.kind)
  · intro j later
    exact (pushed.levels j).trans ((if_neg (by omega)).trans ((moved.levels j).trans (if_neg (by omega))))

theorem flushed_carry_none (pos : 1 ≤ l)
    (height : l + (up.length + 1) = maxLevel) (sized : Sized .none e) (slot : Slot bmt .none e l [t.wire bmt .none])
    (above : Above bmt .none e (l + 1) up crown) (short : ∀ g' ∈ up, g'.length < Level.none.maxShards)
    (log : Log bmt e (chunksOf bmt .none (([t] :: up).flatten ++ crown)))
    (same : top Level.none.maxShards .node up crown [t] = top Level.none.maxShards .node ([[t]] ++ up) crown []) :
    ∃ e' s, e.flush bmt l = .ok e' ∧ Flushed bmt .none l e' ([t] :: up) crown s := by
  cases up with
  | nil =>
    obtain ⟨e', flushed, sized', slot', -, -, kept⟩ := flush_carry_none (by omega) pos sized slot above
    have tops : top Level.none.maxShards .node [] (crown ++ [t]) [] = top Level.none.maxShards .node [[t]] crown [] :=
      (List.append_nil _).trans same
    refine ⟨e', ⟨[], crown ++ [t]⟩, flushed, ⟨⟨sized', height, ?_, trivial, ?_⟩, tops, by simp⟩⟩
    · simpa [Above] using slot'
    · exact (kept _ log).perm List.perm_append_comm
  | cons g' up =>
    obtain ⟨e', flushed, sized', slot', levels, buffers, kept⟩ := flush_carry_none (by omega) pos sized slot above.1
    refine ⟨e', ⟨(g' ++ [t]) :: up, crown⟩, flushed,
      ⟨⟨sized', by simp only [List.length_cons] at height ⊢; omega, ⟨?_, ?_⟩, ⟨?_, ?_⟩, ?_⟩, ?_, Nat.le_succ _⟩⟩
    · simpa using slot'
    · exact above.2.of_eq (fun j later => levels j (by omega)) (fun j _ => by rw [buffers])
    · have := short g' (List.mem_cons_self ..)
      rw [List.length_append, List.length_singleton]
      rcases Nat.lt_or_eq_of_le this with less | equal
      · exact .inl less
      · exact .inr ⟨rfl, equal⟩
    · exact fun g'' member => short g'' (List.mem_cons_of_mem _ member)
    · refine (kept _ log).perm (List.Perm.append_right crown ?_)
      rw [List.flatten_cons, List.flatten_cons, List.flatten_cons, ← List.append_assoc]
      exact List.Perm.append_right _ List.perm_append_comm
    · refine Eq.trans ?_ same
      simp [top]

theorem flush_spec {g : List Tree} (pos : 1 ≤ l)
    (closing : Closing bmt level l e ⟨g :: up, crown⟩) (low : crown.length + 1 < level.maxShards) :
    ∃ e' s, e.flush bmt l = .ok e' ∧ Flushed bmt level l e' (g :: up) crown s := by
  obtain ⟨sized, height, ⟨slot, above⟩, ⟨loose, short⟩, log⟩ := closing
  dsimp only [List.length_cons] at height above log
  match g, slot, loose, log with
  | [], slot, _, log =>
    have left : l + 1 + up.length = maxLevel := by omega
    refine ⟨e, ⟨up, crown⟩, ?_, ⟨⟨sized, left, above, loose_of_short short, log⟩, rfl, Nat.le_succ _⟩⟩
    unfold flush
    dsimp only
    rw [slot.buf]
    rfl
  | [t], slot, _, log =>
    have same : top level.maxShards .node up crown [t] = top level.maxShards .node ([[t]] ++ up) crown [] := by
      have one : climb level.maxShards Tree.node [t] = [t] := by
        have := level.maxShards_mem
        exact climb_short (by simp) (by simp; omega)
      rw [List.singleton_append, top, List.append_nil, one]
    by_cases coded : level = .none
    · subst coded
      exact flushed_carry_none pos height sized slot above short log same
    · have lower : ∃ ws, Slot bmt level e (l + 1) ws ∧ ws.length < level.maxShards := by
        cases up with
        | nil => exact ⟨_, above, by rw [List.length_map]; omega⟩
        | cons g' up => exact ⟨_, above.1, by rw [List.length_map]; exact short g' (List.mem_cons_self ..)⟩
      obtain ⟨ws, next, room⟩ := lower
      have moved := moves_levels sized (by omega) pos {}
      have log' : Log bmt { e with levels := e.levels.set l {} } (chunksOf bmt level (up.flatten ++ crown ++ [t])) :=
        (log.perm (List.perm_append_singleton ..).symm).of_eq rfl rfl rfl
      obtain ⟨e', delivered, -, flushed⟩ := flushed_deliver pos (by omega) (moved.sized _ sized) (moved.above above)
        short low log' same
      exact ⟨e', _, (flush_carry coded (by omega) pos sized slot next room).trans delivered, flushed⟩
  | x :: y :: rest, slot, loose, log =>
    obtain ⟨e₁, moves, log₁, closes⟩ := flush_close (by omega) pos sized slot log (by simp)
      (by simpa using loose)
    have log' : Log bmt e₁ (chunksOf bmt level (up.flatten ++ crown ++ [.node (x :: y :: rest)])) :=
      (log₁.node (.of_eq (List.append_assoc ..))).perm (List.perm_append_singleton ..).symm
    have same : top level.maxShards .node up crown [.node (x :: y :: rest)] =
        top level.maxShards .node ([x :: y :: rest] ++ up) crown [] := by
      have one : climb level.maxShards Tree.node (x :: y :: rest) = [.node (x :: y :: rest)] :=
        climb_short (by simp) (by omega)
      rw [List.singleton_append, top, List.append_nil, one]
    rw [← Tree.wire] at closes
    obtain ⟨e', delivered, flushed, -⟩ := flushed_deliver pos (by omega) (moves.sized _ sized) (moves.above above)
      short low log' same
    exact ⟨_, _, closes e' delivered, flushed⟩

theorem flushes_spec (n : Nat) (pos : 1 ≤ l) (all : s.levels.length = n)
    (closing : Closing bmt level l e s) (low : s.crown.length + n < level.maxShards) :
    ∃ e', (List.range' l n).foldlM (flush bmt) e = .ok e' ∧
      Closing bmt level maxLevel e' ⟨[], top level.maxShards .node s.levels s.crown []⟩ := by
  induction n generalizing l e s with
  | zero =>
    obtain ⟨levels, crown⟩ := s
    have empty : levels = [] := List.length_eq_zero_iff.mp all
    subst empty
    have last : l = maxLevel := closing.height
    rw [top, List.append_nil]
    exact ⟨e, rfl, last ▸ closing⟩
  | succ n ih =>
    obtain ⟨levels, crown⟩ := s
    obtain ⟨g, up, rfl⟩ := List.exists_cons_of_length_eq_add_one all
    dsimp only at low
    obtain ⟨e₁, s₁, flushed, after⟩ := flush_spec pos closing (by omega)
    have left : s₁.levels.length = n := by
      have now := after.closing.height
      have then_ := closing.height
      simp only [List.length_cons] at all then_
      omega
    have few := after.few
    obtain ⟨e', folded, done⟩ := ih (by omega) left after.closing (by omega)
    refine ⟨e', ?_, after.top ▸ done⟩
    rw [List.range'_succ, List.foldlM_cons, flushed]
    exact folded

theorem addReplicas_spec (replicas : List (Addr × Wire)) (e : Encoder) (count : Nat)
    (seen : ∀ a, a ∈ e.seen ↔ a ∈ e.out.map (·.1)) (distinct : (e.out.map (·.1)).Nodup) :
    ∃ added, (replicas.foldl addReplica (e, count)).1.out = e.out ++ added ∧
      (replicas.foldl addReplica (e, count)).2 = count + added.length ∧ (∀ p ∈ added, p ∈ replicas) ∧
      ((e.out ++ added).map (·.1)).Nodup ∧ (replicas.foldl addReplica (e, count)).1.hashed = e.hashed := by
  induction replicas generalizing e count with
  | nil => exact ⟨[], by simp, by simp, by simp, by simpa using distinct, rfl⟩
  | cons replica rest ih =>
    rw [List.foldl_cons, addReplica]
    split
    · obtain ⟨added, out, counted, members, nodup, hashed⟩ := ih e count seen distinct
      exact ⟨added, out, counted, fun p member => List.mem_cons_of_mem _ (members p member), nodup, hashed⟩
    · rename_i fresh
      obtain ⟨added, out, counted, members, nodup, hashed⟩ :=
        ih { e with seen := replica.1 :: e.seen, out := e.out ++ [replica] } (count + 1)
          (by
            intro a
            rw [List.mem_cons, seen a, List.map_append, List.mem_append, List.map_singleton, List.mem_singleton]
            exact or_comm)
          (by
            rw [List.map_append, List.map_singleton]
            refine List.Nodup.append distinct (List.nodup_singleton _) fun a old new => ?_
            rw [List.mem_singleton.mp new] at old
            exact fresh ((seen _).mpr old))
      refine ⟨replica :: added, ?_, ?_, ?_, ?_, hashed⟩
      · rw [out, List.append_assoc, List.singleton_append]
      · rw [counted, List.length_cons]
        omega
      · rintro p (_ | ⟨_, member⟩)
        · exact List.mem_cons_self ..
        · exact List.mem_cons_of_mem _ (members p member)
      · rw [List.append_assoc, List.singleton_append] at nodup
        exact nodup

/-- What a split stores: the chunks of a tree, and replicas of its root. -/
structure Stored (bmt : Nat → List UInt8 → Addr) (t : List Wire) (root : Wire) (replicas : List (Addr × Wire))
    (out : SplitOutput) : Prop where
  root : out.root = reference bmt root
  hashed : ∀ w, w ∈ out.hashed ↔ w ∈ t
  chunks : ∃ own added, out.chunks = own ++ added ∧ added.length = out.replicaChunks ∧ (∀ p ∈ added, p ∈ replicas) ∧
    (∀ p ∈ own, wireAddress bmt p.2 = some p.1 ∧ p.2 ∈ t) ∧ (∀ w ∈ t, ∃ p ∈ own, wireAddress bmt w = some p.1)
  distinct : (out.chunks.map (·.1)).Nodup

theorem finish_spec (dispersed : Wire → Level → Except String (List (Addr × Wire)))
    (height : s.levels.length = 7) (closing : Closing bmt level 1 e s) (few : s.crown.length ≤ 1)
    (one : top level.maxShards .node s.levels s.crown [] = [t]) :
    ∃ rootWire ∈ t.wires bmt level, wireAddress bmt rootWire = wireAddress bmt (t.wire bmt level) ∧
      match dispersed rootWire level with
      | .error text => e.finish bmt dispersed = .error (.error (.replica text))
      | .ok replicas => ∃ out, e.finish bmt dispersed = .ok out ∧
          Stored bmt (t.wires bmt level) (t.wire bmt level) replicas out := by
  have branching := level.maxShards_mem
  obtain ⟨e', folded, done⟩ := flushes_spec 7 (Nat.le_refl 1) height closing (by omega)
  rw [one] at done
  have trees : chunksOf bmt level ([] ++ [t]) = t.wires bmt level := by simp [chunksOf]
  have log : Log bmt e' (t.wires bmt level) := trees ▸ done.log
  have entries : (e'.levels.getD maxLevel {}).entries = [entryOf bmt (t.wire bmt level)] :=
    congrArg LevelBuf.entries done.above.buf
  obtain ⟨a, address, seen⟩ := log.found _ (t.wire_mem_wires bmt level)
  have named : reference bmt (t.wire bmt level) = a := by rw [reference, address]; rfl
  obtain ⟨stored, found⟩ : ∃ p, e'.out.find? (·.1 = a) = some p := by
    obtain ⟨p, member, same⟩ := List.mem_map.mp ((log.seen a).mp seen)
    exact Option.isSome_iff_exists.mp (List.find?_isSome.mpr ⟨p, member, by simpa using same⟩)
  have here : stored.1 = a := by simpa using List.find?_some found
  obtain ⟨hashes, inside⟩ := log.kept _ (List.mem_of_find?_eq_some found)
  refine ⟨stored.2, inside, by rw [hashes, address, here], ?_⟩
  have loop : (List.range' 1 (maxLevel - 1)).foldlM (flush bmt) e = .ok e' := folded
  have kind := done.sized.kind
  have run : e.finish bmt dispersed =
      match dispersed stored.2 level with
      | .error text => .error (.error (.replica text))
      | .ok replicas =>
        .ok { root := a, chunks := (replicas.foldl addReplica (e', 0)).1.out
              parityChunks := (replicas.foldl addReplica (e', 0)).1.parityChunks
              replicaChunks := (replicas.foldl addReplica (e', 0)).2
              hashed := (replicas.foldl addReplica (e', 0)).1.hashed } := by
    unfold finish
    rw [loop]
    dsimp only
    rw [entries]
    dsimp only [entryOf]
    rewrite [named, found, kind]
    rfl
  cases built : dispersed stored.2 level with
  | error text => rw [run, built]
  | ok replicas =>
    rw [run, built]
    obtain ⟨added, out, counted, members, nodup, hashed⟩ := addReplicas_spec replicas e' 0 log.seen log.distinct
    refine ⟨_, rfl, named.symm, ?_, ⟨e'.out, added, out, ?_, members, log.kept, ?_⟩, ?_⟩
    · intro w
      rw [hashed]
      exact log.hashed w
    · rw [counted, Nat.zero_add]
    · intro w member
      obtain ⟨b, hash, known⟩ := log.found w member
      obtain ⟨p, stored, same⟩ := List.mem_map.mp ((log.seen b).mp known)
      exact ⟨p, stored, by rw [hash, same]⟩
    · rw [out]
      exact nodup

theorem split_eq (dispersed : Wire → Level → Except String (List (Addr × Wire))) (data : List UInt8) (level : Level) :
    splitWithRedundancy bmt dispersed data level =
      match (leafPayloads data).foldlM (write bmt) (Encoder.new level) with
      | .error stop => .error stop
      | .ok e => e.finish bmt dispersed := by
  unfold splitWithRedundancy leafPayloads
  by_cases empty : data = []
  · subst empty
    cases written : write bmt (Encoder.new level) [] with
    | error stop => simp [chunks_nil, written, bind, Except.bind, pure, Except.pure]
    | ok e => simp [chunks_nil, written, bind, Except.bind, pure, Except.pure]
  · rewrite [if_neg empty]
    cases (chunks chunkSize data).foldlM (write bmt) (Encoder.new level) with
    | error stop => rfl
    | ok e =>
      dsimp only
      rewrite [if_neg empty]
      rfl

theorem leafPayloads_small (member : payload ∈ leafPayloads data) :
    payload.length ≤ chunkSize := by
  unfold leafPayloads at member
  split at member
  · rw [List.mem_singleton.mp member]
    exact Nat.zero_le _
  · exact (mem_chunks (by decide) member).2

theorem leafPayloads_length {k : Nat} (pos : 0 < k) :
    (leafPayloads data).length ≤ k ↔ data.length ≤ chunkSize * k := by
  unfold leafPayloads
  split
  · rename_i empty
    simp only [empty, List.length_cons, List.length_nil, Nat.zero_le, iff_true]
    omega
  · constructor
    · intro few
      exact Nat.le_trans (length_chunks (by decide) data).1 (Nat.mul_le_mul_left _ few)
    · exact length_chunks_le (by decide)

theorem climb_object (fits : data.length ≤ chunkSize * level.maxShards ^ 7) :
    (climb level.maxShards Tree.node)^[7] ((leafPayloads data).map .leaf) = [objectTree level data] := by
  have branching := level.maxShards_mem
  unfold leafPayloads objectTree
  split
  · exact Function.iterate_fixed (climb_one (by omega) _) 7
  · rename_i some_
    rw [climb_leaves, chunks_short some_ fits, List.map_singleton]

theorem split_spec (dispersed : Wire → Level → Except String (List (Addr × Wire))) (data : List UInt8) :
    (chunkSize * level.maxShards ^ 7 < data.length ∧
      splitWithRedundancy bmt dispersed data level = .error (.error .trieFull)) ∨
    (data.length ≤ chunkSize * level.maxShards ^ 7 ∧
      ∃ rootWire ∈ (objectTree level data).wires bmt level,
        wireAddress bmt rootWire = wireAddress bmt ((objectTree level data).wire bmt level) ∧
        match dispersed rootWire level with
        | .error text => splitWithRedundancy bmt dispersed data level = .error (.error (.replica text))
        | .ok replicas => ∃ out, splitWithRedundancy bmt dispersed data level = .ok out ∧
            Stored bmt ((objectTree level data).wires bmt level) ((objectTree level data).wire bmt level)
              replicas out) := by
  have branching := level.maxShards_mem
  have count : (leafPayloads data).length ≤ level.maxShards ^ 7 ↔ data.length ≤ chunkSize * level.maxShards ^ 7 :=
    leafPayloads_length (Nat.pow_pos (by omega))
  have start := writing_new bmt level
  have light : weight level.maxShards (List.replicate 7 []) ([] : List Tree) = 0 := rfl
  rw [split_eq]
  rcases writes_spec (leafPayloads data) (fun _ => leafPayloads_small) start (by rw [light]; omega) with
    ⟨few, e, written, writing⟩ | ⟨refused, many⟩
  · dsimp only at few
    rw [light, Nat.zero_add, count] at few
    refine .inr ⟨few, ?_⟩
    rw [written]
    have tops : top level.maxShards Tree.node _ _ [] = _ :=
      top_feedAll (by omega) start.short ((leafPayloads data).map .leaf) []
    dsimp only at tops
    rw [top_replicate, List.append_nil, List.nil_append, climb_object few] at tops
    have closing : Closing bmt level 1 e (feedAll level.maxShards .node ⟨List.replicate 7 [], []⟩
        ((leafPayloads data).map .leaf)) :=
      ⟨writing.sized, by rw [writing.height]; rfl, writing.above, loose_of_short writing.short, writing.log⟩
    exact finish_spec dispersed writing.height closing writing.few tops
  · dsimp only at many
    rw [light, Nat.zero_add, ← Nat.not_le, count, Nat.not_le] at many
    refine .inl ⟨many, ?_⟩
    rw [refused]

theorem bounded_object {data : List UInt8} (fits : data.length ≤ chunkSize * level.maxShards ^ 7) :
    (objectTree level data).Bounded level.maxShards := by
  have branching := level.maxShards_mem
  have rounds : ∀ n, ∀ t ∈ (climb level.maxShards Tree.node)^[n] ((leafPayloads data).map .leaf),
      t.Bounded level.maxShards := by
    intro n
    induction n with
    | zero =>
      intro t member
      obtain ⟨payload, -, rfl⟩ := List.mem_map.mp member
      exact .leaf payload
    | succ n ih =>
      rw [Function.iterate_succ_apply']
      exact bounded_climb (by omega) ih
  apply rounds 7
  rw [climb_object fits]
  exact List.mem_singleton_self _

/-- The streaming encoder computes the recursive tree: the root and the chunks of an accepted split are
those of the tree its leaves group to, each address stands once, and no split ends in inconsistent references. -/
theorem split_builds_tree (bmt : Nat → List UInt8 → Addr)
    (dispersed : Wire → Level → Except String (List (Addr × Wire))) (data : List UInt8) (level : Level) :
    splitWithRedundancy bmt dispersed data level ≠ .error (.error .inconsistentRefs) ∧
    ∀ out, splitWithRedundancy bmt dispersed data level = .ok out →
      (out.chunks.map (·.1)).Nodup ∧
      ∃ t, GroupsTo level.maxShards ((leafPayloads data).map .leaf) t ∧
        wireAddress bmt (t.specWire bmt level) = some out.root ∧
        ∃ own replicas, out.chunks = own ++ replicas ∧ replicas.length = out.replicaChunks ∧
          (∃ rootWire copies, dispersed rootWire level = .ok copies ∧ wireAddress bmt rootWire = some out.root ∧
            ∀ p ∈ replicas, p ∈ copies) ∧
          (∀ p ∈ own, p.2 ∈ t.specWires bmt level ∧ wireAddress bmt p.2 = some p.1) ∧
          (∀ w ∈ t.specWires bmt level, ∃ p ∈ own, wireAddress bmt w = some p.1) ∧
          ((∀ v ∈ t.specWires bmt level, ∀ w ∈ t.specWires bmt level,
              wireAddress bmt v = wireAddress bmt w → v = w) →
            ∀ p, p ∈ own ↔ p.2 ∈ t.specWires bmt level ∧ wireAddress bmt p.2 = some p.1) := by
  have branching := level.maxShards_mem
  rcases @split_spec bmt level dispersed data with ⟨-, refused⟩ | ⟨fits, rootWire, -, copied, outcome⟩
  · rw [refused]
    exact ⟨by simp, fun out accepted => by cases accepted⟩
  · have bounded := @bounded_object level data fits
    cases built : dispersed rootWire level with
    | error text =>
      rw [built] at outcome
      rw [outcome]
      exact ⟨by simp, fun out accepted => by cases accepted⟩
    | ok copies =>
      rw [built] at outcome
      obtain ⟨out, accepted, stored⟩ := outcome
      rw [accepted]
      refine ⟨by simp, fun _ same => ?_⟩
      cases same
      have grouped := groupsTo_of_iterate (by omega) (climb_object fits)
      obtain ⟨own, replicas, chunks, count, drawn, kept, found⟩ := stored.chunks
      have root : wireAddress bmt ((objectTree level data).wire bmt level) = some out.root := by
        obtain ⟨p, -, address⟩ := found _ (Tree.wire_mem_wires bmt level _)
        rw [stored.root, reference, address]
        rfl
      rw [root] at copied
      rw [wire_eq_specWire bounded] at root
      rw [wires_eq_specWires bounded] at kept found
      refine ⟨stored.distinct, _, grouped, root, own, replicas, chunks, count,
        ⟨rootWire, copies, built, copied, drawn⟩, fun p member => (kept p member).symm, found,
        fun injective p => ⟨fun member => (kept p member).symm, ?_⟩⟩
      rintro ⟨inside, address⟩
      obtain ⟨q, member, same⟩ := found p.2 inside
      obtain ⟨here, there⟩ := kept q member
      have wire : q.2 = p.2 := injective _ there _ inside (by rw [here, same])
      have name : q.1 = p.1 := Option.some.inj (by rw [← same, address])
      rwa [show p = q from Prod.ext name.symm wire.symm]

theorem split_builds_tree_twoLeaves :
    ∃ out, splitWithRedundancy (fun span _ => ⟨toLe 32 span, length_toLe _ _⟩) (fun _ _ => .ok [])
        (List.replicate 5000 7) .medium = .ok out ∧ (out.chunks.map (·.1)).Nodup := by
  rcases @split_spec (fun span _ => ⟨toLe 32 span, length_toLe _ _⟩) .medium (fun _ _ => .ok [])
    (List.replicate 5000 7) with ⟨long, -⟩ | ⟨-, rootWire, -, -, out, accepted, -⟩
  · rw [List.length_replicate] at long
    exact absurd long (by decide)
  · exact ⟨out, accepted, ((split_builds_tree _ _ _ _).2 out accepted).1⟩

end Hoverfly.Erasure
