import Hoverfly.Erasure.Siblings

/-! What one root can be read as. A fetched chunk is checked against its address; a rebuilt one is not, so two
readers agree when the siblings of every node are shards of one codeword. -/
namespace Hoverfly.Erasure
open Lib

/-- Two chunks that are read alike: the same leaf, or nodes with the same references. -/
structure Alike (a b : DecodedChunk) : Prop where
  label : a.levelAndLen = b.levelAndLen
  leaf : a.levelAndLen.2 ≤ a.data.length ↔ b.levelAndLen.2 ≤ b.data.length
  data : a.levelAndLen.2 ≤ a.data.length → a.data = b.data
  refs : a.data.length < a.levelAndLen.2 → ∀ parity, children a.data parity = children b.data parity

/-- Below every good node the chunks are shards of one codeword, and whatever a reader takes for child `i`, fetched
or rebuilt, is good and is read alike. -/
def Consistent (content : Addr → Option Wire) (good : DecodedChunk → Prop) : Prop :=
  ∀ dc, good dc → dc.data.length < dc.levelAndLen.2 → ∀ parity addrs k, parityOf dc.levelAndLen = some parity →
    children dc.data parity = .ok (addrs, k) →
    ∃ shards, shards.length = k ∧ (∀ s ∈ shards, s.length = chunkWithSpan) ∧
      (∀ rs, ReedSolomon.new k (addrs.length - k) = .ok rs → Coded content addrs rs shards) ∧
      ∀ i < k, ∀ c c', Child content addrs shards i c → Child content addrs shards i c' → good c ∧ Alike c c'

theorem children_ok {data : List UInt8} {parity k : Nat} {addrs : List Addr} (short : data.length ≤ chunkSize)
    (laid : children data parity = .ok (addrs, k)) : 0 < k ∧ k ≤ addrs.length ∧ addrs.length ≤ 256 := by
  unfold children at laid
  split at laid
  · cases laid
  dsimp only at laid
  split at laid
  · cases laid
  rename_i size _ counts
  have pair := Except.ok.inj laid
  rw [pair] at counts
  dsimp only at counts
  have listed : addrs = (chunkAddresses (data.take size) parity).1 := by rw [pair]
  refine ⟨by omega, by omega, ?_⟩
  rw [listed]
  refine Nat.le_trans (List.length_filterMap_le _ _) (length_chunks_le (by decide) ?_)
  have := List.length_take_le' size data
  rw [chunkSize] at short
  rw [hashSize]
  omega

section
variable {content : Addr → Option Wire} {addrs : List Addr} {shards : List Wire}

def Addressed (bmt : Nat → List UInt8 → Addr) (content : Addr → Option Wire) : Prop :=
  ∀ a w, content a = some w → wireAddress bmt w = some a

variable {bmt : Nat → List UInt8 → Addr}

theorem Addressed.sized (addressed : Addressed bmt content) {a : Addr} {w : Wire}
    (held : content a = some w) : spanSize ≤ w.length ∧ w.length ≤ chunkWithSpan := by
  have address := addressed a w held
  unfold wireAddress at address
  split at address
  · cases address
  · rw [chunkWithSpan]
    omega

theorem length_child (addressed : Addressed bmt content)
    (sized : ∀ s ∈ shards, s.length = chunkWithSpan) {i : Nat} {dc : DecodedChunk} (inside : i < shards.length)
    (child : Child content addrs shards i dc) : dc.data.length ≤ chunkSize := by
  rcases child with ⟨a, w, -, held, parsed⟩ | parsed
  · obtain ⟨long, short⟩ := addressed.sized held
    rw [fromWire_ok long] at parsed
    cases parsed
    rw [chunkWithSpan] at short
    rw [List.length_drop]
    omega
  · have length : (shards.getD i []).length = chunkWithSpan := by
      rw [List.getD_eq_getElem?_getD, List.getElem?_eq_getElem inside]
      exact sized _ (List.getElem_mem inside)
    rw [decodeWire, if_neg (by rw [length]; decide)] at parsed
    cases parsed
    simp only [List.length_take, List.length_drop, length, chunkWithSpan]
    omega

/-- An answer that is nothing but the chunk under the address. -/
abbrev Honest (content : Addr → Option Wire) (env : Env) : Prop := env.All (Serves content (fun _ => false) ·.answer)

structure Agrees (content : Addr → Option Wire) (j r j' r' : Join) : Prop where
  bytes : ∃ bytes, r.out = j.out ++ bytes ∧ r'.out = j'.out ++ bytes
  honest : Honest content r.env
  honest' : Honest content r'.env

structure Twins (good : DecodedChunk → Prop) (dc dc' : DecodedChunk) : Prop where
  good : good dc
  alike : Alike dc dc'
  short : dc.data.length ≤ chunkSize
  short' : dc'.data.length ≤ chunkSize

def ReadAlike (content : Addr → Option Wire) (good : DecodedChunk → Prop) (inFlight inFlight' fuel fuel' : Nat) : Prop :=
  ∀ dc dc' parity j j' r r', Twins good dc dc' → parityOf dc.levelAndLen = some parity →
    Honest content j.env → Honest content j'.env →
    readNode inFlight fuel dc.data dc.levelAndLen.2 parity j = (.ok (), r) →
    readNode inFlight' fuel' dc'.data dc'.levelAndLen.2 parity j' = (.ok (), r') → Agrees content j r j' r'

variable {good : DecodedChunk → Prop} {inFlight inFlight' fuel fuel' : Nat}

theorem readChildren_alike (each : ReadAlike content good inFlight inFlight' fuel fuel') {dcs dcs' : List DecodedChunk}
    (twins : List.Forall₂ (Twins good) dcs dcs') {j j' r r' : Join} (honest : Honest content j.env)
    (honest' : Honest content j'.env) (read : readChildren (readNode inFlight fuel) dcs j = (.ok (), r))
    (read' : readChildren (readNode inFlight' fuel') dcs' j' = (.ok (), r')) : Agrees content j r j' r' := by
  induction twins generalizing j j' with
  | nil =>
    cases read
    cases read'
    exact ⟨⟨[], (List.append_nil _).symm, (List.append_nil _).symm⟩, honest, honest'⟩
  | @cons dc dc' rest rest' first more ih =>
    rw [readChildren] at read read'
    rw [← first.alike.label] at read'
    cases counted : parityOf dc.levelAndLen with
    | none =>
      rw [counted] at read
      cases read
    | some parity =>
      simp only [counted] at read read'
      split at read
      · cases read
      rename_i mid here
      split at read'
      · cases read'
      rename_i mid' here'
      rw [first.alike.label] at here'
      obtain ⟨⟨bytes, out, out'⟩, later, later'⟩ := each dc dc' parity j j' mid mid' first counted honest honest' here here'
      obtain ⟨⟨more, last, last'⟩, done, done'⟩ := ih later later' read read'
      exact ⟨⟨bytes ++ more, by rw [last, out, List.append_assoc], by rw [last', out', List.append_assoc]⟩, done, done'⟩

theorem twins_of_children (addressed : Addressed bmt content) (sized : ∀ s ∈ shards, s.length = chunkWithSpan)
    (alike : ∀ i < shards.length, ∀ c c', Child content addrs shards i c → Child content addrs shards i c' →
      good c ∧ Alike c c')
    {dcs dcs' : List DecodedChunk} (gathers : Gathers content (fun _ => false) addrs shards (.ok dcs))
    (gathers' : Gathers content (fun _ => false) addrs shards (.ok dcs')) : List.Forall₂ (Twins good) dcs dcs' := by
  obtain ⟨length, each⟩ := gathers
  obtain ⟨length', each'⟩ := gathers'
  refine List.forall₂_iff_get.mpr ⟨length.trans length'.symm, fun i here there => ?_⟩
  have inside : i < shards.length := length ▸ here
  have child := each i _ (List.getElem?_eq_getElem here)
  have child' := each' i _ (List.getElem?_eq_getElem there)
  obtain ⟨fine, same⟩ := alike i inside _ _ child child'
  exact ⟨fine, same, length_child addressed sized inside child, length_child addressed sized inside child'⟩

theorem readNode_alike (addressed : Addressed bmt content)
    (consistent : Consistent content good) (fuel fuel' : Nat) :
    ReadAlike content good inFlight inFlight' fuel fuel' := by
  induction fuel generalizing fuel' with
  | zero =>
    intro dc dc' parity j j' r r' _ _ _ _ read
    cases read
  | succ fuel ih =>
    intro dc dc' parity j j' r r' twins counted honest honest' read read'
    cases fuel' with
    | zero => cases read'
    | succ fuel' =>
      rw [readNode] at read read'
      by_cases leaf : dc.levelAndLen.2 ≤ dc.data.length
      · rw [if_pos leaf] at read
        rw [if_pos (twins.alike.leaf.mp leaf), ← twins.alike.data leaf] at read'
        cases read
        cases read'
        exact ⟨⟨dc.data, rfl, rfl⟩, honest, honest'⟩
      · rw [if_neg leaf] at read
        rw [if_neg (fun other => leaf (twins.alike.leaf.mpr other)),
          ← twins.alike.refs (Nat.not_le.mp leaf)] at read'
        cases laid : children dc.data parity with
        | error e =>
          rw [laid] at read
          cases read
        | ok layout =>
          obtain ⟨addrs, k⟩ := layout
          obtain ⟨some_, most, fits⟩ := children_ok twins.short laid
          obtain ⟨shards, rfl, sized, coded, alike⟩ :=
            consistent dc twins.good (Nat.not_le.mp leaf) parity addrs k counted laid
          have codeword : Codeword content addrs shards :=
            ⟨some_, most, fits, sized, fun a _ w held => (addressed.sized held).1, coded⟩
          obtain ⟨gathers, later⟩ := fetchNodeChildren_spec codeword inFlight honest
          obtain ⟨gathers', later'⟩ := fetchNodeChildren_spec codeword inFlight' honest'
          simp only [laid] at read read'
          split at read
          · cases read
          rename_i dcs env fetched
          split at read'
          · cases read'
          rename_i dcs' env' fetched'
          rw [fetched] at gathers later
          rw [fetched'] at gathers' later'
          rw [List.take_of_length_le (Nat.le_of_eq gathers.1)] at read
          rw [List.take_of_length_le (Nat.le_of_eq gathers'.1)] at read'
          obtain ⟨bytes, done, done'⟩ := readChildren_alike (ih fuel')
            (twins_of_children addressed sized alike gathers gathers') later later' read read'
          exact ⟨bytes, done, done'⟩

theorem fetch_ok {root : Addr} {env : Env} {x : List UInt8} (fetched : fetchErasureBytes fuel root inFlight env = .ok x) :
    ∃ wire dc parity r, env.head.answer root = .ok wire ∧ DecodedChunk.fromWire wire = .ok dc ∧
      parityOf dc.levelAndLen = some parity ∧
      readNode (max inFlight 1) fuel dc.data dc.levelAndLen.2 parity { out := [], env := env.tail } = (.ok (), r) ∧
      x = r.out.take dc.levelAndLen.2 := by
  unfold fetchErasureBytes at fetched
  split at fetched
  · cases fetched
  rename_i wire got
  split at fetched
  · cases fetched
  rename_i dc parsed
  dsimp only at fetched
  split at fetched
  · cases fetched
  rename_i parity counted
  split at fetched
  · cases fetched
  rename_i r read
  cases fetched
  exact ⟨wire, dc, parity, r, got, parsed, counted, read, rfl⟩

end

def serving (content : Addr → Option Wire) (lost : Addr → Bool) : Env :=
  Stream'.const ⟨0, fun a =>
    match content a with
    | none => .error "not found"
    | some w => if lost a then .error "not found" else .ok w⟩

theorem serving_verified (content : Addr → Option Wire) (lost : Addr → Bool) (n : Nat) (a : Addr) (w : Wire)
    (got : ((serving content lost).get n).answer a = .ok w) : content a = some w := by
  simp only [serving, Stream'.get_const] at got
  split at got
  · cases got
  · rename_i v held
    split at got
    · cases got
    · cases got
      exact held

def sizeHash (span : Nat) (payload : List UInt8) : Addr :=
  ⟨toLe 32 (1 + span + 2 ^ 64 * payload.length), length_toLe _ _⟩

def pairRoot (child parity : Wire) : Wire :=
  (toLe spanSize 4096).set 7 0x81 ++ refBytes [reference sizeHash child, reference sizeHash parity, sizeHash 5 []]

def contentOf (wires : List Wire) (a : Addr) : Option Wire := wires.find? fun w => wireAddress sizeHash w = some a

theorem contentOf_addressed (wires : List Wire) : Addressed sizeHash (contentOf wires) := by
  intro a w held
  have here := List.find?_some held
  simpa using here

def pairContent (child parity : Wire) : Addr → Option Wire := contentOf [pairRoot child parity, child, parity]

def zerosWire : Wire := leafWire [0, 0, 0]

def zerosParity : Wire := padTo chunkWithSpan zerosWire

theorem pairContent_eq {child parity : Wire} (apart : [pairRoot child parity, child, parity].map (wireAddress sizeHash) =
      [pairRoot child parity, child, parity].map fun w => some (reference sizeHash w))
    (distinct : (([pairRoot child parity, child, parity].map (reference sizeHash)) ++ [sizeHash 5 []]).Nodup) :
    pairContent child parity (reference sizeHash (pairRoot child parity)) = some (pairRoot child parity) ∧
      pairContent child parity (reference sizeHash child) = some child ∧
      pairContent child parity (reference sizeHash parity) = some parity ∧
      pairContent child parity (sizeHash 5 []) = none := by
  simp only [List.map_cons, List.map_nil, List.cons.injEq, and_true] at apart
  obtain ⟨root, data, code⟩ := apart
  simp only [List.map_cons, List.map_nil, List.cons_append, List.nil_append, List.nodup_cons, List.mem_cons,
    List.not_mem_nil, or_false, not_or] at distinct
  simp [pairContent, contentOf, root, data, code, distinct]

theorem zeros_addresses : [pairRoot zerosWire zerosParity, zerosWire, zerosParity].map (wireAddress sizeHash) =
    [pairRoot zerosWire zerosParity, zerosWire, zerosParity].map fun w => some (reference sizeHash w) := by
  decide +kernel

theorem zeros_distinct : (([pairRoot zerosWire zerosParity, zerosWire, zerosParity].map (reference sizeHash)) ++
    [sizeHash 5 []]).Nodup := by decide +kernel

def zerosGood (dc : DecodedChunk) : Prop :=
  DecodedChunk.fromWire (pairRoot zerosWire zerosParity) = .ok dc ∨ dc = { rawSpan := 3, data := [0, 0, 0] }

theorem zeros_child {i : Nat} (first : i < 1) {c : DecodedChunk}
    (child : Child (pairContent zerosWire zerosParity)
      [reference sizeHash zerosWire, reference sizeHash zerosParity, sizeHash 5 []] [zerosParity] i c) :
    c = { rawSpan := 3, data := [0, 0, 0] } := by
  obtain rfl : i = 0 := by omega
  have here := (pairContent_eq zeros_addresses zeros_distinct).2.1
  have fetched : (DecodedChunk.fromWire zerosWire).toOption = some { rawSpan := 3, data := [0, 0, 0] } := by
    decide +kernel
  have rebuilt : (decodeWire zerosParity).toOption = some { rawSpan := 3, data := [0, 0, 0] } := by decide +kernel
  rcases child with ⟨a, w, found, held, parsed⟩ | parsed
  · cases found
    rw [here] at held
    cases held
    rw [parsed] at fetched
    exact Option.some.inj fetched
  · change decodeWire zerosParity = .ok c at parsed
    rw [parsed] at rebuilt
    exact Option.some.inj rebuilt

theorem zeros_coded {rs : ReedSolomon} (made : ReedSolomon.new 1 2 = .ok rs) :
    Coded (pairContent zerosWire zerosParity)
      [reference sizeHash zerosWire, reference sizeHash zerosParity, sizeHash 5 []] rs [zerosParity] := by
  obtain ⟨rs', same, fit⟩ := ReedSolomon.new_fit (k := 1) (p := 2) (by decide) (by decide)
  rw [made] at same
  cases same
  obtain ⟨-, data, code, none_⟩ := pairContent_eq zeros_addresses zeros_distinct
  have length : zerosParity.length = chunkWithSpan := length_padTo _ _
  have shard : ∀ i < 3, rs.shard [zerosParity] chunkWithSpan i = zerosParity := by
    intro i inside
    rw [← length]
    exact ReedSolomon.shard_replicate made fit (by decide) (by decide) (by decide) inside zerosParity
  intro i a w found held
  have inside : i < 3 := (List.getElem?_eq_some_iff.mp found).1
  rw [shard i inside]
  obtain rfl | rfl | rfl : i = 0 ∨ i = 1 ∨ i = 2 := by omega
  · have name : reference sizeHash zerosWire = a := Option.some.inj found
    rw [← name, data] at held
    cases held
    rfl
  · have name : reference sizeHash zerosParity = a := Option.some.inj found
    rw [← name, code] at held
    cases held
    rw [padTo, length, Nat.sub_self, List.replicate_zero, List.append_nil, List.take_of_length_le (Nat.le_of_eq length)]
  · have name : sizeHash 5 [] = a := Option.some.inj found
    rw [← name, none_] at held
    cases held

theorem zeros_consistent : Consistent (pairContent zerosWire zerosParity) zerosGood := by
  intro dc fine more parity addrs k counted laid
  rcases fine with root | rfl
  · have node : ((DecodedChunk.fromWire (pairRoot zerosWire zerosParity)).toOption.bind fun dc =>
        (parityOf dc.levelAndLen).bind fun parity => (children dc.data parity).toOption) =
          some ([reference sizeHash zerosWire, reference sizeHash zerosParity, sizeHash 5 []], 1) := by decide +kernel
    rw [root] at node
    simp only [Except.toOption, Option.bind_some, counted, laid] at node
    cases node
    refine ⟨[zerosParity], rfl, by simp [zerosParity], fun rs made => zeros_coded made, fun i first c c' child child' => ?_⟩
    rw [zeros_child first child, zeros_child first child']
    exact ⟨.inr rfl, rfl, Iff.rfl, fun _ => rfl, fun _ _ => rfl⟩
  · exact absurd more (by decide)

def abcWire : Wire := leafWire [97, 98, 99]

def blankWire : Wire := padTo chunkWithSpan (leafWire [])

end Hoverfly.Erasure
