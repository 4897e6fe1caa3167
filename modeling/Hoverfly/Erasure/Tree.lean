import Hoverfly.Erasure.Encoder
import Hoverfly.Lib.Cascade

/-! The tree an object is, defined without a stream: leaves of 4096 bytes, grouped
from the left until one is left over. -/
namespace Hoverfly.Erasure
open Lib Cascade

inductive Tree where
  | leaf (payload : List UInt8)
  | node (children : List Tree)

def zeroAddr : Addr := Bytes.replicate 32 0

def parityWires (level : Level) (wires : List Wire) : List Wire :=
  match ReedSolomon.new wires.length (level.parities wires.length) with
  | .error _ => []
  | .ok rs =>
    (List.range (level.parities wires.length)).map fun i =>
      rs.shard (wires.map (padTo chunkWithSpan)) chunkWithSpan (wires.length + i)

section
variable (bmt : Nat → List UInt8 → Addr) (level : Level)

def reference (wire : Wire) : Addr := (wireAddress bmt wire).getD zeroAddr

def entryOf (wire : Wire) : Entry := ⟨fromLe (wire.take spanSize), reference bmt wire⟩

def siblings (wires : List Wire) : List Wire := wires ++ parityWires level wires

def nodeWire (wires : List Wire) : Wire :=
  nodeSpan level ((siblings level wires).map (entryOf bmt)) wires.length ++
    refBytes ((siblings level wires).map (reference bmt))

def leafWire (payload : List UInt8) : Wire := toLe spanSize payload.length ++ payload

def Tree.wire : Tree → Wire
  | .leaf payload => leafWire payload
  | .node children => nodeWire bmt level (children.map Tree.wire)

def Tree.wires : Tree → List Wire
  | .leaf payload => [leafWire payload]
  | .node children =>
    nodeWire bmt level (children.map (Tree.wire bmt level)) ::
      parityWires level (children.map (Tree.wire bmt level)) ++ children.flatMap Tree.wires

def Tree.size : Tree → Nat
  | .leaf payload => payload.length
  | .node children => (children.map Tree.size).sum

def spanOf (parities len : Nat) : List UInt8 :=
  if parities > 0 then (toLe spanSize len).set (spanSize - 1) (level.toU8 ||| 0x80) else toLe spanSize len

def Tree.specWire : Tree → Wire
  | .leaf payload => leafWire payload
  | .node children =>
    spanOf level (level.parities children.length) (Tree.node children).size ++
      refBytes ((siblings level (children.map Tree.specWire)).map (reference bmt))

def Tree.specWires : Tree → List Wire
  | .leaf payload => [leafWire payload]
  | .node children =>
    (Tree.node children).specWire bmt level :: parityWires level (children.map (Tree.specWire bmt level)) ++
      children.flatMap Tree.specWires

inductive Tree.Bounded (b : Nat) : Tree → Prop
  | leaf (payload : List UInt8) : Bounded b (.leaf payload)
  | node (children : List Tree) (some_ : children ≠ []) (most : children.length ≤ b)
      (all : ∀ c ∈ children, Bounded b c) : Bounded b (.node children)

def leafPayloads (data : List UInt8) : List (List UInt8) := if data = [] then [[]] else chunks chunkSize data

/-- Grouping from the left, again and again, until one is left. -/
inductive GroupsTo (b : Nat) : List Tree → Tree → Prop
  | one (t : Tree) : GroupsTo b [t] t
  | more (ts : List Tree) (t : Tree) (two : 2 ≤ ts.length) (rest : GroupsTo b (climb b .node ts) t) : GroupsTo b ts t

def treeOf : Nat → List UInt8 → Tree
  | 0, bytes => .leaf bytes
  | h + 1, bytes => pack .node ((chunks (chunkSize * level.maxShards ^ h) bytes).map (treeOf h))

def objectTree (data : List UInt8) : Tree := if data = [] then .leaf [] else treeOf level 7 data

end

theorem Tree.wire_mem_wires (bmt : Nat → List UInt8 → Addr) (level : Level) (t : Tree) :
    t.wire bmt level ∈ t.wires bmt level := by
  cases t <;> simp [Tree.wire, Tree.wires]

@[simp] theorem length_padTo (n : Nat) (bytes : List UInt8) : (padTo n bytes).length = n := by
  simp [padTo]
  omega

variable {wires : List Wire} {b : Nat}

theorem length_parityWires (level : Level) (some_ : wires ≠ [])
    (fits : wires.length + level.parities wires.length ≤ 256) :
    (parityWires level wires).length = level.parities wires.length := by
  obtain ⟨rs, made, -⟩ := ReedSolomon.new_fit (List.length_pos_iff.mpr some_) fits
  simp [parityWires, made]

theorem parityWires_none (ws : List Wire) : parityWires .none ws = [] := by
  unfold parityWires
  split <;> rfl

theorem siblings_none (ws : List Wire) : siblings .none ws = ws := by
  rw [siblings, parityWires_none, List.append_nil]

theorem length_of_mem_parityWires {level : Level} {parity : Wire}
    (member : parity ∈ parityWires level wires) : parity.length = chunkWithSpan := by
  unfold parityWires at member
  split at member
  · cases member
  · obtain ⟨i, -, rfl⟩ := List.mem_map.mp member
    exact length_combine _ (by simp)

theorem length_nodeSpan (level : Level) (entries : List Entry) (effective : Nat) :
    (nodeSpan level entries effective).length = spanSize := by
  unfold nodeSpan
  dsimp only
  split <;> simp

theorem length_nodeWire (bmt : Nat → List UInt8 → Addr) (level : Level) (some_ : wires ≠ [])
    (fits : wires.length + level.parities wires.length ≤ 256) :
    (nodeWire bmt level wires).length =
      spanSize + hashSize * (wires.length + level.parities wires.length) := by
  rw [nodeWire, List.length_append, length_nodeSpan, length_refBytes, List.length_map, siblings,
    List.length_append, length_parityWires level some_ fits]

theorem top_replicate {node : List Tree → Tree} (n : Nat) (crown xs : List Tree) :
    top b node (List.replicate n []) crown xs = crown ++ (climb b node)^[n] xs := by
  induction n generalizing xs with
  | zero => rfl
  | succ n ih => rw [List.replicate_succ, top, List.nil_append, ih, Function.iterate_succ_apply]

theorem climb_leaves (level : Level) (data : List UInt8) (h : Nat) :
    (climb level.maxShards Tree.node)^[h] ((chunks chunkSize data).map .leaf) =
      (chunks (chunkSize * level.maxShards ^ h) data).map (treeOf level h) := by
  have branching : 0 < level.maxShards := by
    have := level.maxShards_mem
    omega
  induction h with
  | zero =>
    rw [Nat.pow_zero, Nat.mul_one]
    rfl
  | succ h ih =>
    have piece : 0 < chunkSize * level.maxShards ^ h := Nat.mul_pos (by decide) (Nat.pow_pos branching)
    rw [Function.iterate_succ_apply', ih, climb, ← map_chunks branching, chunks_chunks branching piece,
      List.map_map, List.map_map, Nat.mul_assoc, ← Nat.pow_succ]
    rfl

theorem climb_one (pos : 0 < b) (t : Tree) : climb b .node [t] = [t] :=
  climb_short (List.cons_ne_nil _ _) (Nat.succ_le_of_lt pos)

theorem groupsTo_of_iterate {n : Nat} (pos : 0 < b) {ts : List Tree} {t : Tree}
    (one : (climb b Tree.node)^[n] ts = [t]) : GroupsTo b ts t := by
  induction n generalizing ts with
  | zero =>
    have here : ts = [t] := one
    exact here ▸ .one t
  | succ n ih =>
    rw [Function.iterate_succ_apply] at one
    match ts, one with
    | [], one => exact absurd (ih one) (by intro h; cases h; simp_all)
    | [x], one => exact climb_one pos x ▸ ih one
    | x :: y :: rest, one => exact .more _ t (by simp) (ih one)

theorem bounded_climb (pos : 0 < b) {ts : List Tree} (all : ∀ t ∈ ts, t.Bounded b) :
    ∀ t ∈ climb b .node ts, t.Bounded b := by
  intro t member
  obtain ⟨g, group, rfl⟩ := List.mem_map.mp member
  obtain ⟨some_, most⟩ := mem_chunks pos group
  have inside : ∀ c ∈ g, c.Bounded b := by
    intro c here
    apply all c
    rw [← flatten_chunks pos ts]
    exact List.mem_flatten.mpr ⟨g, group, here⟩
  match g, some_, most, inside with
  | [x], _, _, inside => exact inside x (List.mem_singleton_self x)
  | x :: y :: rest, some_, most, inside => exact .node _ some_ most inside

theorem foldl_wrapAdd (entries : List Entry) (acc : Nat) :
    entries.foldl (fun acc e => wrapAdd 64 acc e.span) acc % 2 ^ 64 = (acc + (entries.map (·.span)).sum) % 2 ^ 64 := by
  induction entries generalizing acc with
  | nil => rfl
  | cons e rest ih =>
    rw [List.foldl_cons, ih, wrapAdd, Nat.mod_add_mod, List.map_cons, List.sum_cons, Nat.add_assoc]

theorem toLe_mod (k n : Nat) : toLe k (n % 256 ^ k) = toLe k n := by
  have bytes := toLe_fromLe (toLe k n)
  rw [length_toLe, fromLe_toLe] at bytes
  exact bytes

theorem spanOf_congr {level : Level} {parities m n : Nat}
    (same : m % 2 ^ 64 = n % 2 ^ 64 ∨ 0 < parities ∧ m % 2 ^ 56 = n % 2 ^ 56) :
    spanOf level parities m = spanOf level parities n := by
  rcases same with whole | ⟨coded, low⟩
  · rw [spanOf, spanOf, spanSize, ← toLe_mod 8 m, ← toLe_mod 8 n]
    rw [show (256 : Nat) ^ 8 = 2 ^ 64 by norm_num, whole]
  · have seven : ∀ k : Nat, (toLe spanSize k).set (spanSize - 1) (level.toU8 ||| 0x80) =
        toLe 7 (k % 2 ^ 56) ++ [level.toU8 ||| 0x80] := by
      intro k
      rw [spanSize, toLe_last, List.set_append_right _ _ (by simp)]
      rw [show (2 : Nat) ^ 56 = 256 ^ 7 by norm_num, toLe_mod]
      simp
    rw [spanOf, spanOf, if_pos coded, if_pos coded, seven, seven, low]

section
variable {bmt : Nat → List UInt8 → Addr} {level : Level}

theorem fromLe_nodeSpan_mod (entries : List Entry) (effective : Nat) :
    fromLe (nodeSpan level entries effective) % 2 ^ 56 = ((entries.take effective).map (·.span)).sum % 2 ^ 56 ∧
      (entries.length - effective = 0 → fromLe (nodeSpan level entries effective) =
        ((entries.take effective).map (·.span)).sum % 2 ^ 64) := by
  have total := foldl_wrapAdd (entries.take effective) 0
  rw [Nat.zero_add] at total
  have cut : ∀ n : Nat, n % 2 ^ 64 % 2 ^ 56 = n % 2 ^ 56 := fun n => Nat.mod_mod_of_dvd n (by norm_num)
  have bytes : (256 : Nat) ^ 8 = 2 ^ 64 := by norm_num
  unfold nodeSpan
  dsimp only
  split
  · refine ⟨?_, fun none_ => by omega⟩
    rw [spanSize, toLe_last, List.set_append_right _ _ (by simp)]
    simp only [length_toLe, Nat.reduceSub, Nat.sub_self, List.set_cons_zero]
    rw [fromLe_append, fromLe_toLe, length_toLe, show (256 : Nat) ^ 7 = 2 ^ 56 by norm_num, Nat.add_mul_mod_self_left,
      Nat.mod_mod, ← cut, total, cut]
  · refine ⟨?_, fun _ => ?_⟩
    · rw [spanSize, fromLe_toLe, bytes, total, cut]
    · rw [spanSize, fromLe_toLe, bytes, total]

theorem rawSpan_nodeWire (ws : List Wire) :
    fromLe ((nodeWire bmt level ws).take spanSize) =
      fromLe (nodeSpan level ((siblings level ws).map (entryOf bmt)) ws.length) := by
  rw [nodeWire, List.take_left' (length_nodeSpan _ _ _)]

theorem take_siblings (ws : List Wire) :
    ((siblings level ws).map (entryOf bmt)).take ws.length = ws.map (entryOf bmt) := by
  rw [siblings, List.map_append, List.take_left' (List.length_map _)]

theorem sum_mod_congr {A : Type} (xs : List A) (f g : A → Nat) (m : Nat) (same : ∀ x ∈ xs, f x % m = g x % m) :
    (xs.map f).sum % m = (xs.map g).sum % m := by
  induction xs with
  | nil => rfl
  | cons x xs ih =>
    have rest := ih fun y member => same y (List.mem_cons_of_mem _ member)
    rw [List.map_cons, List.map_cons, List.sum_cons, List.sum_cons, Nat.add_mod, same x (List.mem_cons_self ..), rest,
      ← Nat.add_mod]

variable {t : Tree}

theorem rawSpan_wire (bounded : t.Bounded level.maxShards) :
    fromLe ((t.wire bmt level).take spanSize) % 2 ^ 56 = t.size % 2 ^ 56 ∧
      (level = .none → fromLe ((t.wire bmt level).take spanSize) = t.size % 2 ^ 64) := by
  have cut : ∀ n : Nat, n % 2 ^ 64 % 2 ^ 56 = n % 2 ^ 56 := fun n => Nat.mod_mod_of_dvd n (by norm_num)
  induction bounded with
  | leaf payload =>
    have span : fromLe (((Tree.leaf payload).wire bmt level).take spanSize) = payload.length % 2 ^ 64 := by
      rw [Tree.wire, leafWire, List.take_left' (length_toLe _ _), fromLe_toLe]
      rfl
    rw [span, Tree.size]
    exact ⟨cut _, fun _ => rfl⟩
  | node children some_ most all ih =>
    have spans : ((children.map (Tree.wire bmt level)).map (entryOf bmt)).map (·.span) =
        children.map fun c => fromLe ((c.wire bmt level).take spanSize) := by
      simp [entryOf]
    have sums := @fromLe_nodeSpan_mod level
      ((siblings level (children.map (Tree.wire bmt level))).map (entryOf bmt)) (children.map (Tree.wire bmt level)).length
    obtain ⟨low, whole⟩ := sums
    rw [take_siblings, spans] at low whole
    rw [Tree.wire, rawSpan_nodeWire, Tree.size, low]
    refine ⟨sum_mod_congr _ _ _ _ fun c member => (ih c member).1, fun plain => ?_⟩
    rw [whole (by rw [plain, siblings_none]; simp)]
    exact sum_mod_congr _ _ _ _ fun c member => by rw [(ih c member).2 plain, Nat.mod_mod]

theorem nodeSpan_siblings {ws : List Wire} (some_ : ws ≠ []) (most : ws.length ≤ level.maxShards) (len : Nat)
    (sum : ((ws.map (entryOf bmt)).map (·.span)).sum % 2 ^ 56 = len % 2 ^ 56)
    (whole : level = .none → ((ws.map (entryOf bmt)).map (·.span)).sum % 2 ^ 64 = len % 2 ^ 64) :
    nodeSpan level ((siblings level ws).map (entryOf bmt)) ws.length = spanOf level (level.parities ws.length) len := by
  have fits := level.parities_fit most
  have count := length_parityWires level some_ (by omega)
  have parities : ((siblings level ws).map (entryOf bmt)).length - ws.length = level.parities ws.length := by
    rw [List.length_map, siblings, List.length_append, count, Nat.add_sub_cancel_left]
  have total := foldl_wrapAdd (ws.map (entryOf bmt)) 0
  rw [Nat.zero_add] at total
  have cut : ∀ n : Nat, n % 2 ^ 64 % 2 ^ 56 = n % 2 ^ 56 := fun n => Nat.mod_mod_of_dvd n (by norm_num)
  unfold nodeSpan
  dsimp only
  rw [parities, take_siblings]
  refine spanOf_congr ?_
  by_cases plain : level = .none
  · exact .inl (total.trans (whole plain))
  · refine .inr ⟨Level.parities_pos plain (List.length_pos_iff.mpr some_), ?_⟩
    rw [← cut, total, cut, sum]

theorem wire_eq_specWire (bounded : t.Bounded level.maxShards) :
    t.wire bmt level = t.specWire bmt level := by
  induction bounded with
  | leaf payload => rw [Tree.wire, Tree.specWire]
  | node children some_ most all ih =>
    have wires : children.map (Tree.wire bmt level) = children.map (Tree.specWire bmt level) := List.map_congr_left ih
    have spans : ((children.map (Tree.wire bmt level)).map (entryOf bmt)).map (·.span) =
        children.map fun c => fromLe ((c.wire bmt level).take spanSize) := by
      simp [entryOf]
    have span : nodeSpan level ((siblings level (children.map (Tree.wire bmt level))).map (entryOf bmt))
        (children.map (Tree.wire bmt level)).length =
          spanOf level (level.parities (children.map (Tree.wire bmt level)).length) (Tree.node children).size := by
      apply nodeSpan_siblings
      · simpa using some_
      · simpa using most
      · rw [spans, Tree.size]
        exact sum_mod_congr _ _ _ _ fun c member => (rawSpan_wire (all c member)).1
      · intro plain
        rw [spans, Tree.size]
        exact sum_mod_congr _ _ _ _ fun c member => by rw [(rawSpan_wire (all c member)).2 plain, Nat.mod_mod]
    rw [Tree.wire, Tree.specWire, nodeWire, span, List.length_map, wires]

theorem wires_eq_specWires (bounded : t.Bounded level.maxShards) :
    t.wires bmt level = t.specWires bmt level := by
  induction bounded with
  | leaf payload => rw [Tree.wires, Tree.specWires]
  | node children some_ most all ih =>
    have whole : (Tree.node children).wire bmt level = (Tree.node children).specWire bmt level :=
      wire_eq_specWire (.node children some_ most all)
    have wires : children.map (Tree.wire bmt level) = children.map (Tree.specWire bmt level) :=
      List.map_congr_left fun c member => wire_eq_specWire (all c member)
    have below : children.flatMap (Tree.wires bmt level) = children.flatMap (Tree.specWires bmt level) := by
      rw [List.flatMap_def, List.flatMap_def, List.map_congr_left ih]
    rw [Tree.wire] at whole
    rw [Tree.wires, Tree.specWires, whole, wires, below]

end

end Hoverfly.Erasure
