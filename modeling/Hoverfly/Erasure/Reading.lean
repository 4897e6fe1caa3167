import Hoverfly.Erasure.Siblings

/-! Reading a tree: the joiner follows the chunks the encoder stored, and what it rebuilds reads as
what was lost. -/
namespace Hoverfly.Erasure
open Lib Cascade

def Tree.bytes : Tree → List UInt8
  | .leaf payload => payload
  | .node children => children.flatMap Tree.bytes

theorem bytes_pack (ts : List Tree) : (pack .node ts).bytes = ts.flatMap Tree.bytes := by
  unfold pack
  split
  · simp
  · rw [Tree.bytes]

theorem size_pack (ts : List Tree) : (pack .node ts).size = (ts.map Tree.size).sum := by
  unfold pack
  split
  · simp
  · rw [Tree.size]

section
variable {level : Level}

theorem piece_pos (level : Level) (h : Nat) : 0 < chunkSize * level.maxShards ^ h :=
  Nat.mul_pos (by decide) (Nat.pow_pos (Nat.lt_of_lt_of_le (by decide) level.maxShards_mem.1))

theorem bytes_treeOf (level : Level) (h : Nat) (bytes : List UInt8) : (treeOf level h bytes).bytes = bytes := by
  induction h generalizing bytes with
  | zero => rw [treeOf, Tree.bytes]
  | succ h ih =>
    have each : ∀ g, (treeOf level h g).bytes = g := ih
    rw [treeOf, bytes_pack, List.flatMap_map]
    simp only [each]
    rw [List.flatMap_id', flatten_chunks (piece_pos level h)]

theorem size_treeOf (level : Level) (h : Nat) (bytes : List UInt8) : (treeOf level h bytes).size = bytes.length := by
  induction h generalizing bytes with
  | zero => rw [treeOf, Tree.size]
  | succ h ih =>
    have each : Tree.size ∘ treeOf level h = List.length := funext ih
    rw [treeOf, size_pack, List.map_map, each, ← List.length_flatten, flatten_chunks (piece_pos level h)]

/-- A tree of height at most `h` in which all children but the last are full. -/
inductive Tree.Filled (level : Level) : Nat → Tree → Prop
  | leaf (h : Nat) (payload : List UInt8) (short : payload.length ≤ chunkSize) : Filled level h (.leaf payload)
  | node (g h : Nat) (children : List Tree) (lower : g < h) (two : 2 ≤ children.length)
      (most : children.length ≤ level.maxShards)
      (low : chunkSize * level.maxShards ^ g * (children.length - 1) < (Tree.node children).size)
      (high : (Tree.node children).size ≤ chunkSize * level.maxShards ^ g * children.length)
      (all : ∀ c ∈ children, Filled level g c) : Filled level h (.node children)

theorem Tree.Filled.lift {h : Nat} {t : Tree} (filled : t.Filled level h) : t.Filled level (h + 1) := by
  cases filled with
  | leaf _ payload short => exact .leaf _ payload short
  | node g _ children lower two most low high all => exact .node g _ children (by omega) two most low high all

theorem filled_treeOf (h : Nat) {bytes : List UInt8} (some_ : bytes ≠ [])
    (fits : bytes.length ≤ chunkSize * level.maxShards ^ h) : (treeOf level h bytes).Filled level h := by
  induction h generalizing bytes with
  | zero => exact .leaf 0 bytes (by simpa using fits)
  | succ h ih =>
    have pos := piece_pos level h
    have below : ∀ c ∈ (chunks (chunkSize * level.maxShards ^ h) bytes).map (treeOf level h), c.Filled level h := by
      intro c member
      obtain ⟨g, piece, rfl⟩ := List.mem_map.mp member
      obtain ⟨some_, short⟩ := mem_chunks pos piece
      exact ih some_ short
    have size := size_treeOf level (h + 1) bytes
    rw [treeOf] at size ⊢
    have most : (chunks (chunkSize * level.maxShards ^ h) bytes).length ≤ level.maxShards :=
      length_chunks_le pos (by rwa [Nat.mul_assoc, ← Nat.pow_succ])
    obtain ⟨high, low⟩ := length_chunks pos bytes
    have positive := List.length_pos_iff.mpr some_
    have last := low some_
    generalize listed : (chunks (chunkSize * level.maxShards ^ h) bytes).map (treeOf level h) = ts at below size ⊢
    have length : ts.length = (chunks (chunkSize * level.maxShards ^ h) bytes).length := by
      rw [← listed, List.length_map]
    rw [← length] at most high last
    match ts, below, size with
    | [], _, size =>
      rw [List.length_nil, Nat.mul_zero] at high
      omega
    | [t], below, _ => exact (below t (List.mem_singleton_self t)).lift
    | t :: u :: rest, below, size =>
      rw [pack_of_two (by simp)] at size ⊢
      refine .node h _ _ (Nat.lt_succ_self h) (by simp) most ?_ (size ▸ high) below
      rw [size, Nat.mul_sub_one]
      omega

theorem filled_object {data : List UInt8} (fits : data.length ≤ chunkSize * level.maxShards ^ 7) :
    (objectTree level data).Filled level 7 := by
  unfold objectTree
  split
  · exact .leaf 7 [] (Nat.zero_le _)
  · exact filled_treeOf 7 ‹_› fits

theorem bytes_object (level : Level) (data : List UInt8) : (objectTree level data).bytes = data := by
  unfold objectTree
  split
  · rename_i empty
    rw [Tree.bytes, empty]
  · exact bytes_treeOf level 7 data

theorem size_object (level : Level) (data : List UInt8) : (objectTree level data).size = data.length := by
  unfold objectTree
  split
  · rename_i empty
    rw [Tree.size, empty]
  · exact size_treeOf level 7 data

end

def Tree.label (level : Level) : Tree → Level × Nat
  | .leaf payload => (.none, payload.length)
  | .node children => (level, (Tree.node children).size)

section
variable (bmt : Nat → List UInt8 → Addr) (level : Level)

def refsOf (children : List Tree) : List Addr :=
  (siblings level (children.map (Tree.specWire bmt level))).map (reference bmt)

def Tree.span : Tree → List UInt8
  | .leaf payload => toLe spanSize payload.length
  | .node children => spanOf level (level.parities children.length) (Tree.node children).size

def Tree.payload : Tree → List UInt8
  | .leaf payload => payload
  | .node children => refBytes (refsOf bmt level children)

/-- A decoded chunk that reads as a tree: a node may be followed by zero references. -/
structure Shows (t : Tree) (dc : DecodedChunk) : Prop where
  label : dc.levelAndLen = t.label level
  data : ∃ z, dc.data = t.payload bmt level ++ List.replicate (hashSize * z) 0 ∧
    (∀ payload, t = .leaf payload → z = 0) ∧ dc.data.length ≤ chunkSize

/-- Spans count bytes in 56 bits, or in 64 without levels. -/
def Countable (n : Nat) : Prop := n < 2 ^ 56 ∨ level = .none ∧ n < 2 ^ 63

end

section
variable {bmt : Nat → List UInt8 → Addr} {level : Level}

theorem Countable.mono {m n : Nat} (countable : Countable level n) (le : m ≤ n) : Countable level m := by
  rcases countable with short | ⟨plain, short⟩
  · exact .inl (by omega)
  · exact .inr ⟨plain, by omega⟩

theorem specWire_eq (t : Tree) : t.specWire bmt level = t.span level ++ t.payload bmt level := by
  cases t <;> rw [Tree.specWire, Tree.span, Tree.payload] <;> rfl

theorem length_span (t : Tree) : (t.span level).length = spanSize := by
  cases t with
  | leaf payload => exact length_toLe _ _
  | node children =>
    rw [Tree.span, spanOf]
    split <;> simp

theorem length_refsOf {children : List Tree} (some_ : 0 < children.length)
    (most : children.length ≤ level.maxShards) :
    (refsOf bmt level children).length = children.length + level.parities children.length := by
  have fits := level.parities_fit most
  have wires : children.map (Tree.specWire bmt level) ≠ [] := List.length_pos_iff.mp (by simpa using some_)
  have parities := length_parityWires level wires (by rw [List.length_map]; omega)
  rw [refsOf, List.length_map, siblings, List.length_append, parities, List.length_map]

variable {h g fuel : Nat} {t c : Tree} {dc : DecodedChunk} {below : List Tree}

theorem length_payload (filled : t.Filled level h) :
    (t.payload bmt level).length ≤ chunkSize := by
  cases filled with
  | leaf _ payload short => exact short
  | node g _ children lower two most low high all =>
    have fits := level.parities_fit most
    rw [Tree.payload, length_refBytes, length_refsOf (by omega) most, hashSize, chunkSize]
    omega

theorem decodeSpan_span (filled : t.Filled level h) (countable : Countable level t.size) :
    decodeSpan (t.span level) = t.label level := by
  cases filled with
  | leaf _ payload short =>
    rw [Tree.span, Tree.label, spanSize, decodeSpan_plain (by rw [chunkSize] at short; omega)]
  | node g _ children lower two most low high all =>
    rw [Tree.span, Tree.label, spanOf]
    by_cases plain : level = .none
    · subst plain
      rw [Level.parities_none, if_neg (Nat.lt_irrefl 0), spanSize, decodeSpan_plain]
      rcases countable with short | ⟨-, short⟩ <;> omega
    · have short := countable.resolve_right fun none_ => plain none_.1
      rw [if_pos (Level.parities_pos plain (by omega)), spanSize, decodeSpan_level plain, Nat.mod_eq_of_lt short]

theorem toLe_span (level : Level) (t : Tree) (rest : List UInt8) :
    toLe spanSize (fromLe ((t.span level ++ rest).take spanSize)) = t.span level := by
  have bytes := toLe_fromLe (t.span level)
  rw [length_span] at bytes
  rw [List.take_left' (length_span t), bytes]

theorem shows_fetched (filled : t.Filled level h) (countable : Countable level t.size)
    (parsed : DecodedChunk.fromWire (t.specWire bmt level) = .ok dc) : Shows bmt level t dc := by
  have long : spanSize ≤ (t.specWire bmt level).length := by
    rw [specWire_eq, List.length_append, length_span]
    exact Nat.le_add_right _ _
  rw [fromWire_ok long, specWire_eq] at parsed
  cases parsed
  refine ⟨?_, 0, ?_, fun _ _ => rfl, ?_⟩
  · rw [DecodedChunk.levelAndLen, toLe_span, decodeSpan_span filled countable]
  · simp [List.drop_left' (length_span t)]
  · rw [List.drop_left' (length_span t)]
    exact length_payload filled

theorem padTo_eq {n : Nat} {bytes : List UInt8} (fits : bytes.length ≤ n) :
    padTo n bytes = bytes ++ List.replicate (n - bytes.length) 0 := by
  rw [padTo, List.take_of_length_le fits]

theorem padTo_specWire (filled : t.Filled level h) :
    padTo chunkWithSpan (t.specWire bmt level) =
      t.span level ++ (t.payload bmt level ++ List.replicate (chunkSize - (t.payload bmt level).length) 0) := by
  have short : (t.payload bmt level).length ≤ chunkSize := length_payload filled
  have length : (t.specWire bmt level).length = spanSize + (t.payload bmt level).length := by
    rw [specWire_eq, List.length_append, length_span]
  rw [padTo_eq (by rw [length, chunkWithSpan]; omega), length, chunkWithSpan, Nat.add_sub_add_left, specWire_eq,
    List.append_assoc]

theorem chunkSize_lt_size {children : List Tree} (two : 2 ≤ children.length)
    (low : chunkSize * level.maxShards ^ h * (children.length - 1) < (Tree.node children).size) :
    chunkSize < (Tree.node children).size := by
  have powers : 0 < level.maxShards ^ h := Nat.pow_pos (Nat.lt_of_lt_of_le (by decide) level.maxShards_mem.1)
  refine Nat.lt_of_le_of_lt ?_ low
  rw [Nat.mul_assoc]
  exact Nat.le_mul_of_pos_right _ (Nat.mul_pos powers (by omega))

theorem shows_rebuilt (filled : t.Filled level h) (countable : Countable level t.size)
    (parsed : decodeWire (padTo chunkWithSpan (t.specWire bmt level)) = .ok dc) :
    Shows bmt level t dc := by
  have label := decodeSpan_span filled countable
  have short : (t.payload bmt level).length ≤ chunkSize := length_payload filled
  have body : (t.payload bmt level ++ List.replicate (chunkSize - (t.payload bmt level).length) 0).length =
      chunkSize := by
    simp only [List.length_append, List.length_replicate]
    omega
  rw [padTo_specWire filled, decodeWire, if_neg (by simp [length_span])] at parsed
  dsimp only at parsed
  rw [List.take_left' (length_span t), List.drop_left' (length_span t), label, body] at parsed
  cases parsed
  refine ⟨?_, ?_⟩
  · have span := toLe_span level t []
    rw [List.append_nil, List.take_of_length_le (Nat.le_of_eq (length_span t))] at span
    rw [DecodedChunk.levelAndLen, span, label]
  cases filled with
  | leaf _ payload small =>
    have kept : (Tree.label level (.leaf payload)).2 = payload.length := rfl
    refine ⟨0, ?_, fun _ _ => rfl, ?_⟩
    · rw [kept, if_pos small, Nat.min_eq_left small]
      simp [Tree.payload]
    · rw [List.length_take, body]
      exact Nat.min_le_right _ _
  | node g _ children lower two most low high all =>
    have kept : ¬(Tree.label level (.node children)).2 ≤ chunkSize := Nat.not_le.mpr (chunkSize_lt_size two low)
    have fits := level.parities_fit most
    have padding : chunkSize - (Tree.payload bmt level (.node children)).length =
        hashSize * (128 - (children.length + level.parities children.length)) := by
      rw [Tree.payload, length_refBytes, length_refsOf (by omega) most, hashSize, chunkSize]
      omega
    dsimp only
    rw [if_neg kept, List.take_of_length_le (Nat.le_of_eq body)]
    exact ⟨_, by rw [padding], by simp, Nat.le_of_eq body⟩

theorem parityOf_node (countable : Countable level (Tree.node below).size)
    (two : 2 ≤ below.length) (most : below.length ≤ level.maxShards)
    (low : chunkSize * level.maxShards ^ g * (below.length - 1) < (Tree.node below).size)
    (high : (Tree.node below).size ≤ chunkSize * level.maxShards ^ g * below.length) :
    parityOf (Tree.label level (.node below)) = some (level.parities below.length) := by
  unfold parityOf Tree.label
  dsimp only
  split
  · rename_i plain
    rw [plain, Level.parities_none]
  · rename_i coded
    have short := countable.resolve_right fun plain => coded plain.1
    rw [referenceCount_spec short two most low high]
    rfl

theorem children_spec {refs : List Addr} {k p z : Nat} (split : refs.length = k + p) (some_ : 0 < k)
    (nonzero : ∀ a ∈ refs, a ≠ zeroAddr) :
    children (refBytes refs ++ List.replicate (hashSize * z) 0) p = .ok (refs, k) := by
  have any : refs ≠ [] := List.length_pos_iff.mp (by omega)
  have last : (refs.getLast any).val ≠ List.replicate hashSize 0 := fun zero =>
    nonzero _ (List.getLast_mem any) (Subtype.ext zero)
  have size := chunkPayloadSize_spec refs.dropLast (refs.getLast any) last z
  have length : refs.dropLast.length + 1 = refs.length := by
    rw [List.length_dropLast]
    omega
  rw [List.dropLast_append_getLast, length] at size
  unfold children
  rw [size]
  dsimp only
  rw [List.take_left' (length_refBytes refs), chunkAddresses_spec refs split, if_neg]
  dsimp only
  omega

theorem parityWires_getElem? {ws : List Wire} {rs : ReedSolomon}
    (made : ReedSolomon.new ws.length (level.parities ws.length) = .ok rs) {i : Nat} {s : Wire}
    (found : (parityWires level ws)[i]? = some s) :
    s = rs.shard (ws.map (padTo chunkWithSpan)) chunkWithSpan (ws.length + i) := by
  unfold parityWires at found
  rw [made] at found
  simp only [List.getElem?_map, Option.map_eq_some_iff] at found
  obtain ⟨j, at_j, rfl⟩ := found
  obtain ⟨-, rfl⟩ := List.getElem?_eq_some_iff.mp at_j
  rw [List.getElem_range]

theorem codeword_siblings {content : Addr → Option Wire} {ws : List Wire} (some_ : 0 < ws.length)
    (most : ws.length ≤ level.maxShards) (long : ∀ w ∈ ws, spanSize ≤ w.length)
    (held : ∀ s ∈ siblings level ws, content (reference bmt s) = some s) :
    Codeword content ((siblings level ws).map (reference bmt)) (ws.map (padTo chunkWithSpan)) := by
  have fits := level.parities_fit most
  have count := length_parityWires level (List.length_pos_iff.mp some_) (by omega)
  have length : ((siblings level ws).map (reference bmt)).length = ws.length + level.parities ws.length := by
    rw [List.length_map, siblings, List.length_append, count]
  refine ⟨by simpa using some_, by rw [length, List.length_map]; omega, by omega, by simp, ?_, ?_⟩
  · intro a member w here
    obtain ⟨s, sibling, rfl⟩ := List.mem_map.mp member
    rw [held s sibling] at here
    cases here
    rcases List.mem_append.mp sibling with own | parity
    · exact long w own
    · rw [length_of_mem_parityWires parity]
      decide
  · intro rs made i a w at_i here
    rw [List.length_map, length, Nat.add_sub_cancel_left] at made
    obtain ⟨rs', same, fit⟩ := ReedSolomon.new_fit some_ (Nat.le_trans fits (by decide))
    rw [made] at same
    cases same
    rw [List.getElem?_map, Option.map_eq_some_iff] at at_i
    obtain ⟨s, found, rfl⟩ := at_i
    rw [held s (List.mem_of_getElem? found)] at here
    cases here
    rw [siblings] at found
    by_cases own : i < ws.length
    · rw [List.getElem?_append_left own] at found
      rw [ReedSolomon.shard_data fit (List.length_map _) (by simp) own, List.getD_eq_getElem?_getD,
        List.getElem?_map, found]
      rfl
    · rw [List.getElem?_append_right (Nat.not_lt.mp own)] at found
      have whole := length_of_mem_parityWires (List.mem_of_getElem? found)
      have shard := parityWires_getElem? made found
      rw [Nat.add_sub_cancel' (Nat.not_lt.mp own)] at shard
      rw [padTo_eq (Nat.le_of_eq whole), whole, Nat.sub_self, List.replicate_zero, List.append_nil]
      exact shard

/-- Every node has, of its references, as many that are not lost as it has data children. -/
inductive Tree.Retrievable (bmt : Nat → List UInt8 → Addr) (level : Level) (kept : Addr → Bool) : Tree → Prop
  | leaf (payload : List UInt8) : Retrievable bmt level kept (.leaf payload)
  | node (children : List Tree) (enough : children.length ≤ (refsOf bmt level children).countP kept)
      (all : ∀ c ∈ children, Retrievable bmt level kept c) : Retrievable bmt level kept (.node children)

variable {content : Addr → Option Wire} {kept : Addr → Bool}

structure Held (content : Addr → Option Wire) (bmt : Nat → List UInt8 → Addr) (wires : List Wire) : Prop where
  content : ∀ w ∈ wires, content (reference bmt w) = some w
  nonzero : ∀ w ∈ wires, reference bmt w ≠ zeroAddr

def Reads (content : Addr → Option Wire) (bmt : Nat → List UInt8 → Addr) (level : Level) (kept : Addr → Bool)
    (fuel : Nat) (t : Tree) : Prop :=
  ∀ inFlight dc j, Shows bmt level t dc → j.env.All (Serves content kept ·.answer) →
    ∃ parity env, parityOf dc.levelAndLen = some parity ∧
      readNode inFlight fuel dc.data dc.levelAndLen.2 parity j = (.ok (), { out := j.out ++ t.bytes, env }) ∧
      env.All (Serves content kept ·.answer)

theorem readChildren_spec {inFlight : Nat} {dcs : List DecodedChunk}
    (all : ∀ c ∈ below, Reads content bmt level kept fuel c) (shows : List.Forall₂ (Shows bmt level) below dcs)
    {j : Join} (serves : j.env.All (Serves content kept ·.answer)) :
    ∃ env, readChildren (readNode inFlight fuel) dcs j = (.ok (), { out := j.out ++ below.flatMap Tree.bytes, env }) ∧
      env.All (Serves content kept ·.answer) := by
  induction shows generalizing j with
  | nil => exact ⟨j.env, by simp [readChildren], serves⟩
  | @cons c dc trees dcs first rest ih =>
    obtain ⟨parity, env, counted, read, later⟩ := all c (List.mem_cons_self ..) inFlight dc j first serves
    obtain ⟨env', done, last⟩ := ih (fun c member => all c (List.mem_cons_of_mem _ member))
      (j := { out := j.out ++ c.bytes, env }) later
    refine ⟨env', ?_, last⟩
    rw [readChildren, counted]
    simp only [read, done, List.flatMap_cons, List.append_assoc]

theorem wires_of_child (member : c ∈ below) {w : Wire}
    (inside : w ∈ c.specWires bmt level) : w ∈ (Tree.node below).specWires bmt level := by
  rw [Tree.specWires]
  exact List.mem_append_right _ (List.mem_flatMap.mpr ⟨c, member, inside⟩)

theorem specWire_mem_specWires (bmt : Nat → List UInt8 → Addr) (level : Level) (t : Tree) :
    t.specWire bmt level ∈ t.specWires bmt level := by
  cases t with
  | leaf payload => simp [Tree.specWire, Tree.specWires]
  | node below => simp [Tree.specWires]

theorem siblings_mem_specWires {s : Wire} (sibling : s ∈ siblings level (below.map (Tree.specWire bmt level))) :
    s ∈ (Tree.node below).specWires bmt level := by
  rcases List.mem_append.mp sibling with own | parity
  · obtain ⟨c, member, rfl⟩ := List.mem_map.mp own
    exact wires_of_child member (specWire_mem_specWires bmt level c)
  · rw [Tree.specWires]
    exact List.mem_append_left _ (List.mem_cons_of_mem _ parity)

theorem shows_child (all : ∀ c ∈ below, c.Filled level g) (countable : ∀ c ∈ below, Countable level c.size)
    (held : ∀ w ∈ (Tree.node below).specWires bmt level, content (reference bmt w) = some w) {i : Nat}
    (at_i : below[i]? = some c)
    (child : Child content (refsOf bmt level below)
      ((below.map (Tree.specWire bmt level)).map (padTo chunkWithSpan)) i dc) : Shows bmt level c dc := by
  have member := List.mem_of_getElem? at_i
  rcases child with ⟨a, w, found, here, parsed⟩ | parsed
  · have inside : i < (below.map (Tree.specWire bmt level)).length := by
      rw [List.length_map]
      exact (List.getElem?_eq_some_iff.mp at_i).1
    rw [refsOf, List.getElem?_map, siblings, List.getElem?_append_left inside, List.getElem?_map, at_i] at found
    cases found
    rw [held _ (wires_of_child member (specWire_mem_specWires bmt level c))] at here
    cases here
    exact shows_fetched (all c member) (countable c member) parsed
  · rw [List.getD_eq_getElem?_getD, List.getElem?_map, List.getElem?_map, at_i] at parsed
    exact shows_rebuilt (all c member) (countable c member) parsed

theorem size_child_le (member : c ∈ below) : c.size ≤ (Tree.node below).size := by
  rw [Tree.size]
  exact List.single_le_sum (by simp) _ (List.mem_map_of_mem member)

theorem reads_leaf (fuel : Nat) (payload : List UInt8) : Reads content bmt level kept (fuel + 1) (.leaf payload) := by
  intro inFlight dc j shows serves
  obtain ⟨label, z, data, none_, -⟩ := shows
  rw [none_ payload rfl, Nat.mul_zero, List.replicate_zero, List.append_nil] at data
  refine ⟨0, j.env, by rw [label]; rfl, ?_, serves⟩
  rw [readNode, if_pos]
  · rw [data, Tree.payload, Tree.bytes]
  · rw [label, data, Tree.label, Tree.payload]

theorem reads_node (two : 2 ≤ below.length) (most : below.length ≤ level.maxShards)
    (low : chunkSize * level.maxShards ^ g * (below.length - 1) < (Tree.node below).size)
    (high : (Tree.node below).size ≤ chunkSize * level.maxShards ^ g * below.length)
    (all : ∀ c ∈ below, c.Filled level g) (countable : Countable level (Tree.node below).size)
    (held : Held content bmt ((Tree.node below).specWires bmt level))
    (enough : below.length ≤ (refsOf bmt level below).countP kept)
    (read : ∀ c ∈ below, Reads content bmt level kept fuel c) :
    Reads content bmt level kept (fuel + 1) (.node below) := by
  intro inFlight dc j shows serves
  obtain ⟨label, z, data, -, short⟩ := shows
  have count : (refsOf bmt level below).length = below.length + level.parities below.length :=
    length_refsOf (by omega) most
  have nonzero : ∀ a ∈ refsOf bmt level below, a ≠ zeroAddr := by
    intro a member
    obtain ⟨s, sibling, rfl⟩ := List.mem_map.mp member
    exact held.nonzero s (siblings_mem_specWires sibling)
  have laid : children dc.data (level.parities below.length) = .ok (refsOf bmt level below, below.length) := by
    rw [data, Tree.payload]
    exact children_spec count (by omega) nonzero
  have codeword : Codeword content (refsOf bmt level below)
      ((below.map (Tree.specWire bmt level)).map (padTo chunkWithSpan)) := by
    refine codeword_siblings (by rw [List.length_map]; omega) (by rw [List.length_map]; exact most) ?_
      fun s sibling => held.content s (siblings_mem_specWires sibling)
    intro w member
    obtain ⟨c, -, rfl⟩ := List.mem_map.mp member
    rw [specWire_eq, List.length_append, length_span]
    exact Nat.le_add_right _ _
  obtain ⟨gathers, later⟩ := fetchNodeChildren_spec codeword inFlight serves
  rw [List.length_map, List.length_map] at gathers later
  refine ⟨level.parities below.length, ?_⟩
  rw [readNode, label, if_neg, laid]
  · dsimp only
    cases fetched : fetchNodeChildren (refsOf bmt level below) below.length inFlight j.env with
    | mk result env =>
      rw [fetched] at gathers later
      cases result with
      | error halt =>
        rw [Gathers, List.length_map, List.length_map] at gathers
        exact absurd enough (Nat.not_le.mpr gathers)
      | ok dcs =>
        obtain ⟨length, each⟩ := gathers
        rw [List.length_map, List.length_map] at length
        have shown : List.Forall₂ (Shows bmt level) below dcs := by
          refine List.forall₂_iff_get.mpr ⟨length.symm, fun i inside there => ?_⟩
          have at_i : below[i]? = some (below.get ⟨i, inside⟩) := List.getElem?_eq_getElem inside
          refine shows_child all (fun c member => countable.mono (size_child_le member)) held.content at_i
            (each i _ (List.getElem?_eq_getElem there))
        obtain ⟨env', done, last⟩ := readChildren_spec read shown (j := { j with env }) later
        refine ⟨env', parityOf_node countable two most low high, ?_, last⟩
        dsimp only
        rw [List.take_of_length_le (Nat.le_of_eq length), done, Tree.bytes]
  · have large := chunkSize_lt_size two low
    dsimp only [Tree.label]
    omega

theorem reads_tree (filled : t.Filled level h) (countable : Countable level t.size)
    (held : Held content bmt (t.specWires bmt level)) (enough : t.Retrievable bmt level kept)
    (deep : h < fuel) : Reads content bmt level kept fuel t := by
  induction filled generalizing fuel with
  | leaf h payload short =>
    obtain ⟨less, rfl⟩ : ∃ less, fuel = less + 1 := ⟨fuel - 1, by omega⟩
    exact reads_leaf less payload
  | node g h below lower two most low high all ih =>
    obtain ⟨less, rfl⟩ : ∃ less, fuel = less + 1 := ⟨fuel - 1, by omega⟩
    cases enough with
    | node _ here rest =>
      refine reads_node two most low high all countable held here fun c member => ?_
      exact ih c member (countable.mono (size_child_le member))
        ⟨fun w inside => held.content w (wires_of_child member inside),
          fun w inside => held.nonzero w (wires_of_child member inside)⟩ (rest c member) (by omega)

end

end Hoverfly.Erasure
