import Hoverfly.Erasure.Level
import Hoverfly.Erasure.ReedSolomon

/-! The streaming splitter: trie levels 1 to 8 of pending references, and below each
a buffer of the chunks those references name, encoded when a codeword closes. -/
namespace Hoverfly.Erasure
open Lib

def chunkWithSpan : Nat := spanSize + chunkSize
def maxLevel : Nat := 8

inductive EncodeError where
  | rs (e : RsError)
  | oversizedChunk (len : Nat)
  | trieFull
  | inconsistentRefs
  | replica (text : String)

def EncodeError.message : EncodeError → String
  | .rs e => s!"erasure encode: reed-solomon: {e.message}"
  | .oversizedChunk len => s!"erasure encode: chunk body exceeds {chunkSize} bytes ({len})"
  | .trieFull => "erasure encode: trie full (content exceeds the addressable 8-level tree)"
  | .inconsistentRefs => "erasure encode: inconsistent references at the root level"
  | .replica text => s!"erasure encode: dispersed replica: {text}"

/-- What stops the encoder: an error it returns, or an index past the last trie level. -/
inductive Stop where
  | error (e : EncodeError)
  | outOfBounds

structure Entry where
  span : Nat
  reference : Addr

structure LevelBuf where
  entries : List Entry := []
  /-- How many of the entries are data references. -/
  effective : Nat := 0

def LevelBuf.push (buf : LevelBuf) (parity : Bool) (entry : Entry) : LevelBuf :=
  { entries := buf.entries ++ [entry]
    effective := if parity then buf.effective else buf.effective + 1 }

structure SplitOutput where
  root : Addr
  chunks : List (Addr × Wire)
  parityChunks : Nat
  replicaChunks : Nat
  /-- Every wire form that was hashed, before deduplication. Nothing reads it. -/
  hashed : List Wire

structure Encoder where
  level : Level
  maxShards : Nat
  maxChildren : Nat
  /-- Index 0 is unused. -/
  levels : List LevelBuf
  /-- Buffer `i` holds the chunks whose references land on trie level `i + 1`. -/
  rsBuf : List (List Wire)
  full : Bool
  out : List (Addr × Wire)
  seen : List Addr
  parityChunks : Nat
  /-- Every wire form that was hashed. Nothing reads it. -/
  hashed : List Wire

/-- `Vec::resize` with zeros. -/
def padTo (n : Nat) (bytes : List UInt8) : List UInt8 := bytes.take n ++ List.replicate (n - bytes.length) 0

def nodeSpan (level : Level) (entries : List Entry) (effective : Nat) : List UInt8 :=
  let span := (entries.take effective).foldl (fun acc e => wrapAdd 64 acc e.span) 0
  let spanBytes := toLe spanSize span
  if entries.length - effective > 0 then spanBytes.set (spanSize - 1) (level.toU8 ||| 0x80) else spanBytes

/-- `write_to_level` at one fixed level: whether the child is parity, its span and its reference. -/
abbrev Put := Bool → Nat → Addr → Encoder → Except Stop Encoder

namespace Encoder

def new (level : Level) : Encoder :=
  { level
    maxShards := level.maxShards
    maxChildren := level.maxShards + level.parities level.maxShards
    levels := List.replicate (maxLevel + 2) {}
    rsBuf := List.replicate maxLevel []
    full := false
    out := []
    seen := []
    parityChunks := 0
    hashed := [] }

section
variable (bmt : Nat → List UInt8 → Addr)

def emit (e : Encoder) (wire : Wire) (parity : Bool) : Except Stop (Encoder × Addr) :=
  match wireAddress bmt wire with
  | none => .error (.error (.oversizedChunk (wire.length - spanSize)))
  | some address =>
    let e := { e with hashed := wire :: e.hashed }
    if address ∈ e.seen then .ok (e, address)
    else
      .ok ({ e with
        seen := address :: e.seen
        out := e.out ++ [(address, wire)]
        parityChunks := if parity then e.parityChunks + 1 else e.parityChunks }, address)

def putParity (put : Put) (e : Encoder) (parity : Wire) : Except Stop Encoder :=
  match e.emit bmt parity true with
  | .error stop => .error stop
  | .ok (e, reference) => put true (fromLe (parity.take spanSize)) reference e

/-- `put` writes to the trie level above the buffer. -/
def rsEncode (put : Put) (rsLevel : Nat) (e : Encoder) : Except Stop Encoder :=
  let buf := e.rsBuf.getD rsLevel []
  if e.level = .none ∨ buf = [] then .ok e
  else
    let shards := buf.length
    let parities := e.level.parities shards
    let e := { e with rsBuf := e.rsBuf.set rsLevel [] }
    if parities = 0 then .ok e
    else
      match ReedSolomon.new shards parities with
      | .error err => .error (.error (.rs err))
      | .ok rs =>
        match rs.encode (buf ++ List.replicate parities (List.replicate chunkWithSpan 0)) with
        | .error err => .error (.error (.rs err))
        | .ok coded => (coded.drop shards).foldlM (putParity bmt put) e

def chunkWrite (put : Put) (rsLevel : Nat) (wire : Wire) (e : Encoder) : Except Stop Encoder :=
  if e.level = .none ∨ rsLevel ≥ e.rsBuf.length then .ok e
  else
    let buf := e.rsBuf.getD rsLevel [] ++ [padTo chunkWithSpan wire]
    let e := { e with rsBuf := e.rsBuf.set rsLevel buf }
    if buf.length = e.maxShards then e.rsEncode bmt put rsLevel else .ok e

/-- `put` writes to the trie level above this one. -/
def wrapLevel (put : Put) (level : Nat) (e : Encoder) : Except Stop Encoder :=
  let buf := e.levels.getD level {}
  let e := { e with levels := e.levels.set level {} }
  let spanBytes := nodeSpan e.level buf.entries buf.effective
  let wire := spanBytes ++ refBytes (buf.entries.map (·.reference))
  match e.emit bmt wire false with
  | .error stop => .error stop
  | .ok (e, reference) =>
    match put false (fromLe spanBytes) reference e with
    | .error stop => .error stop
    | .ok e =>
      match e.chunkWrite bmt put level wire with
      | .error stop => .error stop
      | .ok e => .ok (if level + 1 = maxLevel then { e with full := true } else e)

/-- `left` counts the trie levels from `level` to the last one. -/
def writeToLevel : (left level : Nat) → Put
  | 0, _, _, _, _, _ => .error .outOfBounds
  | left + 1, level, parity, span, reference, e =>
    let buf := (e.levels.getD level {}).push parity ⟨span, reference⟩
    let e := { e with levels := e.levels.set level buf }
    if buf.entries.length = e.maxChildren then e.wrapLevel bmt (writeToLevel left (level + 1)) level else .ok e

def put (level : Nat) : Put := writeToLevel bmt (maxLevel + 2 - level) level

def write (e : Encoder) (payload : List UInt8) : Except Stop Encoder :=
  if e.full then .error (.error .trieFull)
  else
    let wire := toLe spanSize payload.length ++ payload
    match e.emit bmt wire false with
    | .error stop => .error stop
    | .ok (e, reference) =>
      match put bmt 1 false payload.length reference e with
      | .error stop => .error stop
      | .ok e => e.chunkWrite bmt (put bmt 1) 0 wire

def elevateCarrierChunk (rsLevel : Nat) (e : Encoder) : Except Stop Encoder :=
  if e.level = .none ∨ rsLevel ≥ e.rsBuf.length then .ok e
  else
    match e.rsBuf.getD rsLevel [] with
    | [carrier] =>
      if rsLevel + 1 < e.rsBuf.length then
        let buf := e.rsBuf.getD (rsLevel + 1) [] ++ [carrier]
        let e := { e with rsBuf := e.rsBuf.set (rsLevel + 1) buf }
        if buf.length = e.maxShards then e.rsEncode bmt (put bmt (rsLevel + 2)) (rsLevel + 1) else .ok e
      else .ok e
    | _ => .ok e

def flush (e : Encoder) (level : Nat) : Except Stop Encoder :=
  let buf := e.levels.getD level {}
  match buf.entries with
  | [] => .ok e
  | entry :: rest =>
    if (entry :: rest).length = e.maxChildren then e.wrapLevel bmt (put bmt (level + 1)) level
    else if rest = [] then
      let e := { e with levels := e.levels.set level {} }
      let above := (e.levels.getD (level + 1) {}).push false entry
      elevateCarrierChunk bmt (level - 1) { e with levels := e.levels.set (level + 1) above }
    else
      match e.rsEncode bmt (put bmt level) (level - 1) with
      | .error stop => .error stop
      | .ok e => e.wrapLevel bmt (put bmt (level + 1)) level

def addReplica (acc : Encoder × Nat) (replica : Addr × Wire) : Encoder × Nat :=
  let (e, count) := acc
  if replica.1 ∈ e.seen then (e, count)
  else ({ e with seen := replica.1 :: e.seen, out := e.out ++ [replica] }, count + 1)

def finish (dispersedReplicas : Wire → Level → Except String (List (Addr × Wire))) (e : Encoder) :
    Except Stop SplitOutput :=
  match (List.range' 1 (maxLevel - 1)).foldlM (flush bmt) e with
  | .error stop => .error stop
  | .ok e =>
    match (e.levels.getD maxLevel {}).entries with
    | [top] =>
      match e.out.find? (·.1 = top.reference) with
      | none => .error (.error .inconsistentRefs)
      | some (_, rootWire) =>
        match dispersedReplicas rootWire e.level with
        | .error text => .error (.error (.replica text))
        | .ok replicas =>
          let (e, replicaChunks) := replicas.foldl addReplica (e, 0)
          .ok { root := top.reference, chunks := e.out, parityChunks := e.parityChunks, replicaChunks,
                hashed := e.hashed }
    | _ => .error (.error .inconsistentRefs)

end

end Encoder

def splitWithRedundancy (bmt : Nat → List UInt8 → Addr)
    (dispersedReplicas : Wire → Level → Except String (List (Addr × Wire))) (data : List UInt8) (level : Level) :
    Except Stop SplitOutput :=
  match (chunks chunkSize data).foldlM (Encoder.write bmt) (Encoder.new level) with
  | .error stop => .error stop
  | .ok e =>
    match if data = [] then e.write bmt [] else .ok e with
    | .error stop => .error stop
    | .ok e => e.finish bmt dispersedReplicas

end Hoverfly.Erasure
