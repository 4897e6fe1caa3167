import Hoverfly.Erasure.Tree
import Hoverfly.Lib.Fold

/-! The streaming encoder computes the tree: its two stacks of buffers hold the
unfinished groups of a cascade, and a group that fills up is hashed as one node. -/
namespace Hoverfly.Erasure
open Lib Cascade Encoder

variable {bmt : Nat → List UInt8 → Addr} {level : Level}

structure Sized (level : Level) (e : Encoder) : Prop where
  kind : e.level = level
  shards : e.maxShards = level.maxShards
  children : e.maxChildren = level.maxShards + level.parities level.maxShards
  levels : e.levels.length = maxLevel + 2
  buffers : e.rsBuf.length = maxLevel

structure Log (bmt : Nat → List UInt8 → Addr) (e : Encoder) (wires : List Wire) : Prop where
  hashed : ∀ w, w ∈ e.hashed ↔ w ∈ wires
  seen : ∀ a, a ∈ e.seen ↔ a ∈ e.out.map (·.1)
  kept : ∀ p ∈ e.out, wireAddress bmt p.2 = some p.1 ∧ p.2 ∈ wires
  found : ∀ w ∈ wires, ∃ a, wireAddress bmt w = some a ∧ a ∈ e.seen
  distinct : (e.out.map (·.1)).Nodup

variable {e : Encoder} {wires : List Wire} {l : Nat}

theorem Log.congr {wires' : List Wire} (log : Log bmt e wires)
    (same : ∀ w, w ∈ wires ↔ w ∈ wires') : Log bmt e wires' where
  hashed := fun w => (log.hashed w).trans (same w)
  seen := log.seen
  kept := fun p member => ⟨(log.kept p member).1, (same _).mp (log.kept p member).2⟩
  found := fun w member => log.found w ((same w).mpr member)
  distinct := log.distinct

structure Moves (e e' : Encoder) (l : Nat) (buf : LevelBuf) (shards : List Wire) : Prop where
  levels : ∀ j, e'.levels.getD j {} = if j = l then buf else e.levels.getD j {}
  buffers : ∀ j, e'.rsBuf.getD j [] = if j + 1 = l then shards else e.rsBuf.getD j []
  sized : ∀ level, Sized level e → Sized level e'
  full : e'.full = e.full

theorem Moves.trans {e₁ e₂ e₃ : Encoder} {buf buf' : LevelBuf} {shards shards' : List Wire}
    (one : Moves e₁ e₂ l buf shards) (two : Moves e₂ e₃ l buf' shards') : Moves e₁ e₃ l buf' shards' where
  levels := by
    intro j
    rw [two.levels, one.levels]
    split <;> rfl
  buffers := by
    intro j
    rw [two.buffers, one.buffers]
    split <;> rfl
  sized := fun level sized => two.sized level (one.sized level sized)
  full := two.full.trans one.full

theorem wireAddress_eq {wire : Wire} (low : spanSize ≤ wire.length) (high : wire.length ≤ chunkWithSpan) :
    wireAddress bmt wire = some (reference bmt wire) := by
  have fits : ¬(wire.length < spanSize ∨ wire.length - spanSize > chunkSize) := by
    unfold chunkWithSpan at high
    omega
  simp [reference, wireAddress, fits]

theorem emit_spec (log : Log bmt e wires) {wire : Wire}
    (low : spanSize ≤ wire.length) (high : wire.length ≤ chunkWithSpan) (parity : Bool) :
    ∃ e', e.emit bmt wire parity = .ok (e', reference bmt wire) ∧ Log bmt e' (wire :: wires) ∧
      e'.levels = e.levels ∧ e'.rsBuf = e.rsBuf ∧ e'.full = e.full ∧
      (∀ level, Sized level e → Sized level e') := by
  have address : wireAddress bmt wire = some (reference bmt wire) := wireAddress_eq low high
  have grown : ∀ p ∈ e.out, wireAddress bmt p.2 = some p.1 ∧ p.2 ∈ wire :: wires :=
    fun p member => ⟨(log.kept p member).1, List.mem_cons_of_mem _ (log.kept p member).2⟩
  have hashed : ∀ w, w ∈ wire :: e.hashed ↔ w ∈ wire :: wires := by
    intro w
    rw [List.mem_cons, List.mem_cons, log.hashed]
  unfold emit
  rw [address]
  dsimp only
  split
  · rename_i before
    refine ⟨_, rfl, ⟨hashed, log.seen, grown, ?_, log.distinct⟩, rfl, rfl, rfl, fun _ sized => { sized with }⟩
    rintro w (_ | ⟨_, member⟩)
    · exact ⟨_, address, before⟩
    · exact log.found w member
  · rename_i fresh
    refine ⟨_, rfl, ⟨hashed, ?_, ?_, ?_, ?_⟩, rfl, rfl, rfl, fun _ sized => { sized with }⟩
    · intro a
      rw [List.mem_cons, log.seen a, List.map_append, List.mem_append, List.map_singleton, List.mem_singleton]
      exact or_comm
    · intro p member
      rcases List.mem_append.mp member with old | new
      · exact grown p old
      · rw [List.mem_singleton.mp new]
        exact ⟨address, List.mem_cons_self ..⟩
    · rintro w (_ | ⟨_, member⟩)
      · exact ⟨_, address, List.mem_cons_self ..⟩
      · obtain ⟨a, named, there⟩ := log.found w member
        exact ⟨a, named, List.mem_cons_of_mem _ there⟩
    · rw [List.map_append, List.map_singleton]
      refine List.Nodup.append log.distinct (List.nodup_singleton _) ?_
      intro a old new
      rw [List.mem_singleton.mp new] at old
      exact fresh ((log.seen _).mpr old)

theorem put_eq (inside : l ≤ maxLevel) (parity : Bool) (span : Nat) (ref : Addr) (e : Encoder) :
    put bmt l parity span ref e =
      let buf := (e.levels.getD l {}).push parity ⟨span, ref⟩
      let e := { e with levels := e.levels.set l buf }
      if buf.entries.length = e.maxChildren then e.wrapLevel bmt (put bmt (l + 1)) l else .ok e := by
  have left : maxLevel + 2 - l = (maxLevel + 2 - (l + 1)) + 1 := by omega
  unfold put
  rw [left]
  rfl

theorem moves_levels (sized : Sized level e) (inside : l ≤ maxLevel) (pos : 1 ≤ l)
    (buf : LevelBuf) : Moves e { e with levels := e.levels.set l buf } l buf (e.rsBuf.getD (l - 1) []) where
  levels := by
    intro j
    rw [getD_set _ _ _ _ _ (by rw [sized.levels]; omega)]
    simp only [eq_comm]
  buffers := by
    intro j
    split
    · rename_i here
      rw [show l - 1 = j by omega]
    · rfl
  sized := fun _ s => { s with levels := by rw [List.length_set]; exact s.levels }
  full := rfl

theorem moves_buffers (sized : Sized level e) (inside : l ≤ maxLevel) (pos : 1 ≤ l) (shards : List Wire) :
    Moves e { e with rsBuf := e.rsBuf.set (l - 1) shards } l (e.levels.getD l {}) shards where
  levels := by
    intro j
    split
    · rename_i here
      rw [here]
    · rfl
  buffers := by
    intro j
    rw [getD_set _ _ _ _ _ (by rw [sized.buffers]; omega)]
    have same : l - 1 = j ↔ j + 1 = l := by omega
    simp only [same]
  sized := fun _ s => { s with buffers := by rw [List.length_set]; exact s.buffers }
  full := rfl

theorem Log.of_eq {e' : Encoder} (log : Log bmt e wires) (hashed : e'.hashed = e.hashed)
    (seen : e'.seen = e.seen) (out : e'.out = e.out) : Log bmt e' wires where
  hashed := hashed ▸ log.hashed
  seen := seen ▸ out ▸ log.seen
  kept := out ▸ log.kept
  found := seen ▸ log.found
  distinct := out ▸ log.distinct

def deliver (bmt : Nat → List UInt8 → Addr) (l : Nat) (wire : Wire) (e : Encoder) : Except Stop Encoder :=
  match put bmt l false (fromLe (wire.take spanSize)) (reference bmt wire) e with
  | .error stop => .error stop
  | .ok e => e.chunkWrite bmt (put bmt l) (l - 1) wire

def finishWrap (l : Nat) (e : Encoder) : Encoder := if l + 1 = maxLevel then { e with full := true } else e

section
variable {e : Encoder} {wires ws : List Wire} {l : Nat}

theorem putParities_spec (inside : l ≤ maxLevel) (pos : 1 ≤ l) (parities : List Wire)
    (sizes : ∀ q ∈ parities, q.length = chunkWithSpan) {entries : List Entry} {effective : Nat}
    (sized : Sized level e) (log : Log bmt e wires) (here : e.levels.getD l {} = ⟨entries, effective⟩)
    (room : entries.length + parities.length ≤ e.maxChildren) :
    ∃ e', Moves e e' l ⟨entries ++ parities.map (entryOf bmt), effective⟩ (e.rsBuf.getD (l - 1) []) ∧
      Log bmt e' (parities ++ wires) ∧
      parities.foldlM (putParity bmt (put bmt l)) e =
        if parities ≠ [] ∧ entries.length + parities.length = e.maxChildren then
          e'.wrapLevel bmt (put bmt (l + 1)) l
        else .ok e' := by
  induction parities generalizing e entries wires with
  | nil =>
    refine ⟨e, ⟨fun j => ?_, fun j => ?_, fun _ s => s, rfl⟩, log, rfl⟩
    · split
      · rename_i at_l
        rw [at_l, here, List.map_nil, List.append_nil]
      · rfl
    · split
      · rename_i at_l
        rw [show l - 1 = j by omega]
      · rfl
  | cons q rest ih =>
    have size := sizes q (List.mem_cons_self ..)
    have low : spanSize ≤ q.length := by rw [size]; decide
    obtain ⟨e₁, emitted, log₁, levels, buffers, full, sized₁⟩ := emit_spec log low (Nat.le_of_eq size) true
    have moved := moves_levels (sized₁ _ sized) inside pos ⟨entries ++ [entryOf bmt q], effective⟩
    have first : Moves e { e₁ with levels := e₁.levels.set l ⟨entries ++ [entryOf bmt q], effective⟩ } l
        ⟨entries ++ [entryOf bmt q], effective⟩ (e.rsBuf.getD (l - 1) []) := by
      refine ⟨fun j => ?_, fun j => ?_, fun k s => moved.sized k (sized₁ k s), full⟩
      · rw [moved.levels, levels]
      · rw [moved.buffers, buffers]
    have children : e₁.maxChildren = e.maxChildren :=
      (sized₁ _ sized).children.trans sized.children.symm
    have pushed : putParity bmt (put bmt l) e q =
        if entries.length + 1 = e.maxChildren then
          wrapLevel bmt (put bmt (l + 1)) l { e₁ with levels := e₁.levels.set l ⟨entries ++ [entryOf bmt q], effective⟩ }
        else .ok { e₁ with levels := e₁.levels.set l ⟨entries ++ [entryOf bmt q], effective⟩ } := by
      unfold putParity
      rw [emitted]
      dsimp only
      rw [put_eq inside, levels, here]
      simp [LevelBuf.push, children, entryOf]
    have log₂ : Log bmt { e₁ with levels := e₁.levels.set l ⟨entries ++ [entryOf bmt q], effective⟩ } (q :: wires) :=
      log₁.of_eq rfl rfl rfl
    cases rest with
    | nil =>
      refine ⟨_, first, log₂, ?_⟩
      rw [List.foldlM_cons, pushed]
      simp only [List.foldlM_nil, bind_pure]
      simp
    | cons q' rest =>
      simp only [List.length_cons] at room
      obtain ⟨e', moves, log', folded⟩ := ih (fun p member => sizes p (List.mem_cons_of_mem _ member))
        (first.sized _ sized) log₂ (by rw [first.levels, if_pos rfl])
        (by simp only [List.length_append, List.length_cons, List.length_nil, children]; omega)
      refine ⟨e', ?_, ?_, ?_⟩
      · have both := first.trans moves
        rw [first.buffers, if_pos (by omega)] at both
        simpa using both
      · refine log'.congr fun w => ?_
        simp only [List.mem_append, List.mem_cons]
        simp only [or_assoc, or_comm, or_left_comm]
      · rw [List.foldlM_cons, pushed, if_neg (by omega)]
        refine folded.trans ?_
        have count : (entries ++ [entryOf bmt q]).length + (q' :: rest).length =
            entries.length + (q :: q' :: rest).length := by simp; omega
        rw [count]
        simp [children]

def bufOf (bmt : Nat → List UInt8 → Addr) (ws : List Wire) : LevelBuf := ⟨ws.map (entryOf bmt), ws.length⟩

def shardsOf (level : Level) (ws : List Wire) : List Wire :=
  if level = .none then [] else ws.map (padTo chunkWithSpan)

structure Slot (bmt : Nat → List UInt8 → Addr) (level : Level) (e : Encoder) (l : Nat) (ws : List Wire) : Prop where
  buf : e.levels.getD l {} = bufOf bmt ws
  shards : e.rsBuf.getD (l - 1) [] = shardsOf level ws

theorem maxChildren_eq (sized : Sized level e) : e.maxChildren = 128 := by
  rw [sized.children]
  cases level <;> decide

variable {w : Wire}

theorem Slot.lone (slot : Slot bmt level e l [w]) (sized : Sized level e) :
    (e.levels.getD l {}).entries = [entryOf bmt w] ∧ [entryOf bmt w].length ≠ e.maxChildren := by
  constructor
  · rw [slot.buf, bufOf, List.map_singleton]
  · rw [maxChildren_eq sized, List.length_singleton]
    decide

theorem rsEncode_spec (coded : level ≠ .none) (inside : l ≤ maxLevel) (pos : 1 ≤ l) (sized : Sized level e)
    (log : Log bmt e wires) (slot : Slot bmt level e l ws) (some_ : ws ≠ []) (most : ws.length ≤ level.maxShards) :
    ∃ e', Moves e e' l ⟨(siblings level ws).map (entryOf bmt), ws.length⟩ [] ∧
      Log bmt e' (parityWires level ws ++ wires) ∧
      e.rsEncode bmt (put bmt l) (l - 1) =
        if ws.length = level.maxShards then e'.wrapLevel bmt (put bmt (l + 1)) l else .ok e' := by
  have fits := level.parities_fit most
  have positive := List.length_pos_iff.mpr some_
  have parities := Level.parities_pos coded positive
  obtain ⟨rs, made, fit⟩ := ReedSolomon.new_fit positive (by omega : ws.length + level.parities ws.length ≤ 256)
  have shards : e.rsBuf.getD (l - 1) [] = ws.map (padTo chunkWithSpan) := by
    rw [slot.shards, shardsOf, if_neg coded]
  have encoded : rs.encode (ws.map (padTo chunkWithSpan) ++
      List.replicate (level.parities ws.length) (List.replicate chunkWithSpan 0)) = .ok
        (ws.map (padTo chunkWithSpan) ++ (List.range (level.parities ws.length)).map fun i =>
          rs.shard (ws.map (padTo chunkWithSpan)) chunkWithSpan (ws.length + i)) := by
    refine ReedSolomon.encode_spec fit positive (List.length_map _) ?_ List.length_replicate ?_
    · simp
    · intro s member
      rw [(List.mem_replicate.mp member).2, List.length_replicate]
  have words : parityWires level ws = (List.range (level.parities ws.length)).map fun i =>
      rs.shard (ws.map (padTo chunkWithSpan)) chunkWithSpan (ws.length + i) := by
    rw [parityWires, made]
  have count := length_parityWires level some_ (by omega : ws.length + level.parities ws.length ≤ 256)
  have nonempty : parityWires level ws ≠ [] := by
    rw [← List.length_pos_iff, count]
    exact parities
  have closes : ws.length + level.parities ws.length = 128 ↔ ws.length = level.maxShards := by
    obtain ⟨low, full⟩ := level.parities_spec coded
    constructor
    · intro all
      by_contra other
      have := low ws.length (by omega)
      omega
    · intro all
      rw [all, full]
  have cleared := moves_buffers sized inside pos []
  have log₁ : Log bmt { e with rsBuf := e.rsBuf.set (l - 1) [] } wires := log.of_eq rfl rfl rfl
  obtain ⟨e', moves, log', folded⟩ := putParities_spec inside pos (parityWires level ws)
    (fun q member => length_of_mem_parityWires member) (cleared.sized _ sized) log₁
    (slot.buf : _ = (⟨_, _⟩ : LevelBuf)) (by rw [List.length_map, count, maxChildren_eq (cleared.sized _ sized)]; exact fits)
  refine ⟨e', ?_, log', ?_⟩
  · have both := cleared.trans moves
    rw [cleared.buffers, if_pos (by omega)] at both
    rw [siblings, List.map_append]
    exact both
  · have kind := sized.kind
    subst kind
    unfold rsEncode
    rw [shards, if_neg (by simp [coded, some_])]
    dsimp only
    rw [List.length_map, if_neg (by omega), made]
    dsimp only
    rw [encoded]
    dsimp only
    rw [List.drop_left' (List.length_map _), ← words, folded, List.length_map, count,
      maxChildren_eq (cleared.sized _ sized)]
    simp only [nonempty, ne_eq, not_false_eq_true, true_and, closes]

theorem wrapLevel_spec (inside : l < maxLevel) (pos : 1 ≤ l) (sized : Sized level e) (log : Log bmt e wires)
    (here : e.levels.getD l {} = ⟨(siblings level ws).map (entryOf bmt), ws.length⟩) (some_ : ws ≠ [])
    (most : ws.length ≤ level.maxShards) :
    ∃ e₁, Moves e e₁ l {} (e.rsBuf.getD (l - 1) []) ∧ Log bmt e₁ (nodeWire bmt level ws :: wires) ∧
      ∀ e₂, deliver bmt (l + 1) (nodeWire bmt level ws) e₁ = .ok e₂ →
        e.wrapLevel bmt (put bmt (l + 1)) l = .ok (finishWrap l e₂) := by
  have fits := level.parities_fit most
  have length := length_nodeWire bmt level some_ (by omega)
  have cleared := moves_levels sized (Nat.le_of_lt inside) pos {}
  have log₀ : Log bmt { e with levels := e.levels.set l {} } wires := log.of_eq rfl rfl rfl
  have high : (nodeWire bmt level ws).length ≤ chunkWithSpan := by
    rw [length, hashSize, chunkWithSpan, chunkSize]
    omega
  obtain ⟨e₁, emitted, log₁, levels, buffers, full, sized₁⟩ := emit_spec log₀ (by omega) high false
  refine ⟨e₁, ?_, log₁, ?_⟩
  · refine ⟨fun j => ?_, fun j => ?_, fun k s => sized₁ k (cleared.sized k s), full⟩
    · exact (congrArg (·.getD j {}) levels).trans (cleared.levels j)
    · exact (congrArg (·.getD j []) buffers).trans (cleared.buffers j)
  · intro e₂ delivered
    have wire : nodeSpan level ((siblings level ws).map (entryOf bmt)) ws.length ++
        refBytes (((siblings level ws).map (entryOf bmt)).map (·.reference)) = nodeWire bmt level ws := by
      rw [List.map_map]
      rfl
    have span : nodeSpan level ((siblings level ws).map (entryOf bmt)) ws.length =
        (nodeWire bmt level ws).take spanSize := by
      rw [nodeWire, List.take_left' (length_nodeSpan _ _ _)]
    have kind := sized.kind
    subst kind
    unfold wrapLevel
    rw [here]
    dsimp only
    rw [wire, emitted, span]
    dsimp only
    unfold deliver at delivered
    rw [Nat.add_sub_cancel] at delivered
    cases written : put bmt (l + 1) false (fromLe ((nodeWire bmt e.level ws).take spanSize))
        (reference bmt (nodeWire bmt e.level ws)) e₁ with
    | error stop =>
      rw [written] at delivered
      cases delivered
    | ok e' =>
      rw [written] at delivered
      dsimp only at delivered ⊢
      rw [delivered]
      rfl

theorem bufOf_push (bmt : Nat → List UInt8 → Addr) (ws : List Wire) (w : Wire) :
    (bufOf bmt ws).push false (entryOf bmt w) = bufOf bmt (ws ++ [w]) := by
  simp [bufOf, LevelBuf.push]

theorem put_room (inside : l ≤ maxLevel) (slot : Slot bmt level e l ws) (room : ws.length + 1 ≠ e.maxChildren) :
    put bmt l false (fromLe (w.take spanSize)) (reference bmt w) e =
      .ok { e with levels := e.levels.set l (bufOf bmt (ws ++ [w])) } := by
  rw [put_eq inside, slot.buf]
  have pushed := bufOf_push bmt ws w
  rw [entryOf] at pushed
  dsimp only
  rw [pushed, if_neg (by simpa [bufOf] using room)]

theorem deliver_room (inside : l ≤ maxLevel) (pos : 1 ≤ l) (sized : Sized level e) (slot : Slot bmt level e l ws)
    (w : Wire) (room : ws.length + 1 < level.maxShards) :
    ∃ e', deliver bmt l w e = .ok e' ∧ Moves e e' l (bufOf bmt (ws ++ [w])) (shardsOf level (ws ++ [w])) ∧
      (∀ wires, Log bmt e wires → Log bmt e' wires) := by
  have most := level.maxShards_mem
  have moved := moves_levels sized inside pos (bufOf bmt (ws ++ [w]))
  unfold deliver
  rw [put_room inside slot (by rw [maxChildren_eq sized]; omega)]
  dsimp only
  unfold chunkWrite
  dsimp only
  by_cases coded : level = .none
  · rw [if_pos (.inl (sized.kind.trans coded))]
    refine ⟨_, rfl, ?_, fun _ log => log.of_eq rfl rfl rfl⟩
    rw [slot.shards] at moved
    simpa [shardsOf, coded] using moved
  · have known : ¬(e.level = .none ∨ l - 1 ≥ e.rsBuf.length) := by
      rw [sized.kind, sized.buffers]
      exact not_or.mpr ⟨coded, by omega⟩
    have buf : e.rsBuf.getD (l - 1) [] ++ [padTo chunkWithSpan w] = shardsOf level (ws ++ [w]) := by
      rw [slot.shards]
      simp [shardsOf, coded]
    have count : (shardsOf level (ws ++ [w])).length ≠ e.maxShards := by
      rw [sized.shards]
      simp only [shardsOf, coded, if_false, List.length_map, List.length_append, List.length_singleton]
      omega
    rw [if_neg known, buf, if_neg count]
    have kept := moves_buffers (moved.sized _ sized) inside pos (shardsOf level (ws ++ [w]))
    rw [moved.levels, if_pos rfl] at kept
    exact ⟨_, rfl, moved.trans kept, fun _ log => log.of_eq rfl rfl rfl⟩

theorem deliver_full (inside : l < maxLevel) (pos : 1 ≤ l) (sized : Sized level e) (slot : Slot bmt level e l ws)
    (log : Log bmt e wires) (w : Wire) (fills : ws.length + 1 = level.maxShards) :
    ∃ e₁, Moves e e₁ l {} [] ∧
      Log bmt e₁ (nodeWire bmt level (ws ++ [w]) :: parityWires level (ws ++ [w]) ++ wires) ∧
      ∀ e₂, deliver bmt (l + 1) (nodeWire bmt level (ws ++ [w])) e₁ = .ok e₂ → Sized level e₂ →
        deliver bmt l w e = .ok (finishWrap l e₂) := by
  have most := level.maxShards_mem
  have some_ : ws ++ [w] ≠ [] := by simp
  have length : (ws ++ [w]).length = level.maxShards := by simpa using fills
  have moved := moves_levels sized (Nat.le_of_lt inside) pos (bufOf bmt (ws ++ [w]))
  have log₀ : Log bmt { e with levels := e.levels.set l (bufOf bmt (ws ++ [w])) } wires := log.of_eq rfl rfl rfl
  by_cases coded : level = .none
  · subst coded
    have here : (e.levels.set l (bufOf bmt (ws ++ [w]))).getD l {} =
        ⟨(siblings .none (ws ++ [w])).map (entryOf bmt), (ws ++ [w]).length⟩ := by
      rw [siblings_none]
      exact (moved.levels l).trans (if_pos rfl)
    obtain ⟨e₁, moves, log₁, wraps⟩ :=
      wrapLevel_spec inside pos (moved.sized _ sized) log₀ here some_ (Nat.le_of_eq length)
    refine ⟨e₁, ?_, ?_, fun e₂ delivered sized₂ => ?_⟩
    · have both := moved.trans moves
      rw [moved.buffers, if_pos (by omega), slot.shards] at both
      exact both
    · rw [parityWires_none]
      exact log₁
    · have filled : ((bufOf bmt ws).push false (entryOf bmt w)).entries.length = e.maxChildren := by
        rw [bufOf_push, maxChildren_eq sized, bufOf, List.length_map, length]
        decide
      have again : ∀ e' : Encoder, e'.level = .none → e'.chunkWrite bmt (put bmt l) (l - 1) w = .ok e' :=
        fun e' plain => if_pos (.inl plain)
      have plain : (finishWrap l e₂).level = .none := by
        unfold finishWrap
        split <;> exact sized₂.kind
      unfold deliver
      rw [put_eq (Nat.le_of_lt inside), slot.buf]
      rw [entryOf] at filled
      dsimp only
      rw [if_pos filled, ← entryOf, bufOf_push, wraps e₂ delivered]
      exact again _ plain
  · have known : ¬(e.level = .none ∨ l - 1 ≥ e.rsBuf.length) := by
      rw [sized.kind, sized.buffers]
      exact not_or.mpr ⟨coded, by omega⟩
    have room : ws.length + 1 ≠ e.maxChildren := by
      have := Level.parities_pos coded (by omega : 0 < level.maxShards)
      have := (level.parities_spec coded).2
      rw [maxChildren_eq sized]
      omega
    have buf : e.rsBuf.getD (l - 1) [] ++ [padTo chunkWithSpan w] = shardsOf level (ws ++ [w]) := by
      rw [slot.shards]
      simp [shardsOf, coded]
    have count : (shardsOf level (ws ++ [w])).length = e.maxShards := by
      rw [sized.shards]
      simpa [shardsOf, coded] using fills
    have kept := moves_buffers (moved.sized _ sized) (Nat.le_of_lt inside) pos (shardsOf level (ws ++ [w]))
    have both := moved.trans kept
    have slot' : Slot bmt level { e with
        levels := e.levels.set l (bufOf bmt (ws ++ [w]))
        rsBuf := e.rsBuf.set (l - 1) (shardsOf level (ws ++ [w])) } l (ws ++ [w]) := by
      refine ⟨?_, (both.buffers (l - 1)).trans (if_pos (by omega))⟩
      exact (both.levels l).trans ((if_pos rfl).trans ((moved.levels l).trans (if_pos rfl)))
    obtain ⟨e', coding, log', encodes⟩ := rsEncode_spec coded (Nat.le_of_lt inside) pos (both.sized _ sized)
      (log₀.of_eq rfl rfl rfl) slot' some_ (Nat.le_of_eq length)
    obtain ⟨e₁, moves, log₁, wraps⟩ := wrapLevel_spec inside pos (coding.sized _ (both.sized _ sized)) log'
      ((coding.levels l).trans (if_pos rfl)) some_ (Nat.le_of_eq length)
    refine ⟨e₁, ?_, log₁, fun e₂ delivered _ => ?_⟩
    · have all := (both.trans coding).trans moves
      rw [coding.buffers, if_pos (by omega)] at all
      exact all
    · unfold deliver
      rw [put_room (Nat.le_of_lt inside) slot room]
      dsimp only
      unfold chunkWrite
      dsimp only
      rw [if_neg known, buf, if_pos count, encodes, if_pos length]
      exact wraps e₂ delivered

theorem flush_close (inside : l < maxLevel) (pos : 1 ≤ l) (sized : Sized level e) (slot : Slot bmt level e l ws)
    (log : Log bmt e wires) (two : 2 ≤ ws.length)
    (loose : ws.length < level.maxShards ∨ level = .none ∧ ws.length = level.maxShards) :
    ∃ e₁, Moves e e₁ l {} [] ∧ Log bmt e₁ (nodeWire bmt level ws :: parityWires level ws ++ wires) ∧
      ∀ e₂, deliver bmt (l + 1) (nodeWire bmt level ws) e₁ = .ok e₂ → e.flush bmt l = .ok (finishWrap l e₂) := by
  have some_ : ws ≠ [] := by
    rw [← List.length_pos_iff]
    omega
  have most : ws.length ≤ level.maxShards := by omega
  obtain ⟨entry, rest, split⟩ : ∃ entry rest, ws.map (entryOf bmt) = entry :: rest :=
    List.exists_cons_of_ne_nil (by simpa using some_)
  have count : (entry :: rest).length = ws.length := by rw [← split, List.length_map]
  have several : rest ≠ [] := by
    intro none_
    rw [none_] at count
    simp only [List.length_cons, List.length_nil] at count
    omega
  have entries : (e.levels.getD l {}).entries = entry :: rest := by
    rw [slot.buf, bufOf, split]
  by_cases coded : level = .none
  · subst coded
    obtain ⟨e₁, moves, log₁, wraps⟩ := wrapLevel_spec inside pos sized log
      (by rw [siblings_none]; exact slot.buf) some_ most
    rw [slot.shards] at moves
    refine ⟨e₁, moves, by rw [parityWires_none]; exact log₁, fun e₂ delivered => ?_⟩
    have wrapped := wraps e₂ delivered
    have idle : e.rsEncode bmt (put bmt l) (l - 1) = .ok e := if_pos (.inl sized.kind)
    unfold flush
    dsimp only
    rw [entries]
    dsimp only
    split
    · exact wrapped
    · rw [idle]
      exact wrapped
  · have less : ws.length < level.maxShards := loose.resolve_right fun plain => coded plain.1
    obtain ⟨e', coding, log', encodes⟩ := rsEncode_spec coded (Nat.le_of_lt inside) pos sized log slot some_ most
    obtain ⟨e₁, moves, log₁, wraps⟩ := wrapLevel_spec inside pos (coding.sized _ sized) log'
      ((coding.levels l).trans (if_pos rfl)) some_ most
    refine ⟨e₁, ?_, log₁, fun e₂ delivered => ?_⟩
    · have both := coding.trans moves
      rw [coding.buffers, if_pos (by omega)] at both
      exact both
    · have room : (entry :: rest).length ≠ e.maxChildren := by
        have := level.maxShards_mem
        rw [count, maxChildren_eq sized]
        omega
      unfold flush
      dsimp only
      rw [entries]
      dsimp only
      rw [if_neg room, if_neg several, encodes, if_neg (by omega)]
      exact wraps e₂ delivered

theorem flush_carry (coded : level ≠ .none) (inside : l < maxLevel) (pos : 1 ≤ l) (sized : Sized level e)
    (slot : Slot bmt level e l [w]) (next : Slot bmt level e (l + 1) ws) (room : ws.length < level.maxShards) :
    e.flush bmt l = deliver bmt (l + 1) w { e with levels := e.levels.set l {} } := by
  have most := level.maxShards_mem
  have moved := moves_levels sized (Nat.le_of_lt inside) pos {}
  have next' : Slot bmt level { e with levels := e.levels.set l {} } (l + 1) ws :=
    ⟨(moved.levels (l + 1)).trans ((if_neg (by omega)).trans next.buf), next.shards⟩
  have free : ws.length + 1 ≠ e.maxChildren := by
    have := Level.parities_pos coded (by omega : 0 < level.maxShards)
    have := (level.parities_spec coded).2
    rw [maxChildren_eq sized]
    omega
  have lone : e.rsBuf.getD (l - 1) [] = [padTo chunkWithSpan w] := by
    rw [slot.shards, shardsOf, if_neg coded, List.map_singleton]
  obtain ⟨entries, alone⟩ := slot.lone sized
  have above : ((e.levels.set l {}).getD (l + 1) {}).push false (entryOf bmt w) = bufOf bmt (ws ++ [w]) := by
    rw [next'.buf, bufOf_push]
  have known : ¬(e.level = .none ∨ l - 1 ≥ e.rsBuf.length) := by
    rw [sized.kind, sized.buffers]
    exact not_or.mpr ⟨coded, by omega⟩
  have known' : ¬(e.level = .none ∨ l + 1 - 1 ≥ e.rsBuf.length) := by
    rw [sized.kind, sized.buffers]
    exact not_or.mpr ⟨coded, by omega⟩
  have up : l - 1 + 1 = l := by omega
  have upper : l - 1 + 2 = l + 1 := by omega
  have higher : l < e.rsBuf.length := by rw [sized.buffers]; exact inside
  unfold flush deliver
  dsimp only
  rw [entries, put_room (by omega) next' free]
  dsimp only
  rw [if_neg alone, if_pos rfl, above]
  unfold elevateCarrierChunk chunkWrite
  dsimp only
  rw [if_neg known, if_neg known', lone]
  dsimp only
  rw [up, upper, if_pos higher, Nat.add_sub_cancel]

end

end Hoverfly.Erasure
