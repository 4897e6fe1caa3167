import Hoverfly.Erasure.Encoder
import Hoverfly.Lib.Window

/-! The joiner: it walks the tree from the root and rebuilds from a node's parity
siblings the data children it cannot fetch. Fetches end in the order, and with the
answers, that a stream of completions gives. -/
namespace Hoverfly.Erasure
open Lib

inductive ErasureError where
  | fetch (text : String)
  | malformed (text : String)
  | rs (e : RsError)
  | unrecoverable (have_ need : Nat)

def ErasureError.message : ErasureError → String
  | .fetch text => s!"erasure: chunk fetch failed: {text}"
  | .malformed text => s!"erasure: malformed tree: {text}"
  | .rs e => s!"erasure: reed-solomon: {e.message}"
  | .unrecoverable have_ need =>
    s!"erasure: could not recover an intermediate node ({have_}/{need} shards available)"

inductive Halt where
  | error (e : ErasureError)
  /-- The recursion, or a count, needs more fuel. -/
  | outOfFuel
  /-- `unwrap` of a slot that was never filled. -/
  | unwrapNone

abbrev Answer := Addr → Except String Wire

abbrev Env := Stream' (Completion Answer)

structure DecodedChunk where
  rawSpan : Nat
  data : List UInt8
deriving DecidableEq

namespace DecodedChunk

def fromWire (wire : Wire) : Except ErasureError DecodedChunk :=
  if wire.length < spanSize then .error (.malformed "chunk shorter than its span")
  else .ok { rawSpan := fromLe (wire.take spanSize), data := wire.drop spanSize }

def levelAndLen (dc : DecodedChunk) : Level × Nat := decodeSpan (toLe spanSize dc.rawSpan)

end DecodedChunk

def toWirePadded (dc : DecodedChunk) (size : Nat) : Wire := padTo size (toLe spanSize dc.rawSpan ++ dc.data)

def decodeWire (wire : Wire) : Except ErasureError DecodedChunk :=
  if wire.length < spanSize then .error (.malformed "reconstructed shard too short")
  else
    let spanBytes := wire.take spanSize
    let realLen := (decodeSpan spanBytes).2
    let body := wire.drop spanSize
    let payloadLen := if realLen ≤ chunkSize then min realLen body.length else body.length
    .ok { rawSpan := fromLe spanBytes, data := body.take payloadLen }

def clamp (x low high : Nat) : Nat := if x < low then low else if x > high then high else x

def unwrapAll : List (Option DecodedChunk) → Except Halt (List DecodedChunk)
  | [] => .ok []
  | none :: _ => .error .unwrapNone
  | some dc :: rest =>
    match unwrapAll rest with
    | .error halt => .error halt
    | .ok dcs => .ok (dc :: dcs)

def takeDirect (addrs : List Addr) (i : Nat) (answer : Answer) (slots : List (Option DecodedChunk)) :
    Except ErasureError (List (Option DecodedChunk)) :=
  match (addrs[i]?).map answer with
  | none => .ok slots
  | some (.error text) => .error (.fetch text)
  | some (.ok wire) =>
    match DecodedChunk.fromWire wire with
    | .error e => .error e
    | .ok dc => .ok (slots.set i (some dc))

structure Race where
  rsShards : List (Option Wire)
  decodedData : List (Option DecodedChunk)
  present : Nat := 0
  failed : Nat := 0

def takeSibling (addrs : List Addr) (shardCnt i : Nat) (answer : Answer) (race : Race) :
    Except (Except ErasureError Race) Race :=
  match (addrs[i]?).map answer with
  | none => .ok race
  | some (.ok wire) =>
    match DecodedChunk.fromWire wire with
    | .error e => .error (.error e)
    | .ok dc =>
      let race :=
        { race with
          rsShards := race.rsShards.set i (some (toWirePadded dc chunkWithSpan))
          decodedData := if i < shardCnt then race.decodedData.set i (some dc) else race.decodedData
          present := race.present + 1 }
      if race.present ≥ shardCnt then .error (.ok race) else .ok race
  | some (.error _) =>
    let race := { race with failed := race.failed + 1 }
    if addrs.length - race.failed < shardCnt then .error (.ok race) else .ok race

def childAt (shards : List (Option Wire)) (slot : Option DecodedChunk × Nat) : Except ErasureError DecodedChunk :=
  match slot.1 with
  | some dc => .ok dc
  | none =>
    match shards.getD slot.2 none with
    | none => .error (.malformed "reconstruction left a hole")
    | some wire => decodeWire wire

def materialise (shardCnt parityCnt : Nat) (race : Race) : Except Halt (List DecodedChunk) :=
  if race.present < shardCnt then .error (.error (.unrecoverable race.present shardCnt))
  else if race.decodedData.countP Option.isSome = shardCnt then unwrapAll race.decodedData
  else
    match ReedSolomon.new shardCnt parityCnt with
    | .error e => .error (.error (.rs e))
    | .ok rs =>
      match rs.reconstructData race.rsShards with
      | .error e => .error (.error (.rs e))
      | .ok shards =>
        match race.decodedData.zipIdx.mapM (childAt shards) with
        | .error e => .error (.error e)
        | .ok children => .ok children

def fetchNodeChildren (addrs : List Addr) (shardCnt inFlight : Nat) (env : Env) :
    Except Halt (List DecodedChunk) × Env :=
  let total := addrs.length
  let parityCnt := total - shardCnt
  if parityCnt = 0 then
    let window := clamp inFlight 1 (max shardCnt 1)
    match Window.drain shardCnt (takeDirect addrs) shardCnt (.start window) (List.replicate shardCnt none) env with
    | (.error e, env) => (.error (.error e), env)
    | (.ok slots, env) => (unwrapAll slots, env)
  else
    let window := clamp inFlight 1 total
    let race := { rsShards := List.replicate total none, decodedData := List.replicate shardCnt none }
    match Window.drain total (takeSibling addrs shardCnt) total (.start window) race env with
    | (.error (.error e), env) => (.error (.error e), env)
    | (.error (.ok race), env) => (materialise shardCnt parityCnt race, env)
    | (.ok race, env) => (materialise shardCnt parityCnt race, env)

structure Join where
  out : List UInt8
  env : Env

def parityOf (span : Level × Nat) : Option Nat :=
  if span.1 = .none then some 0 else (referenceCount span.2 span.1).map (·.2)

def readChildren (read : List UInt8 → Nat → Nat → Join → Except Halt Unit × Join) :
    List DecodedChunk → Join → Except Halt Unit × Join
  | [], j => (.ok (), j)
  | child :: rest, j =>
    match parityOf child.levelAndLen with
    | none => (.error .outOfFuel, j)
    | some childParity =>
      match read child.data child.levelAndLen.2 childParity j with
      | (.error halt, j) => (.error halt, j)
      | (.ok (), j) => readChildren read rest j

def children (data : List UInt8) (parity : Nat) : Except ErasureError (List Addr × Nat) :=
  match chunkPayloadSize data with
  | none => .error (.malformed "node has no children")
  | some payloadSize =>
    let layout := chunkAddresses (data.take payloadSize) parity
    if layout.2 = 0 ∨ layout.2 > layout.1.length then .error (.malformed "bad shard count")
    else .ok layout

/-- `fuel` bounds the depth of the recursion. -/
def readNode (inFlight : Nat) : Nat → List UInt8 → Nat → Nat → Join → Except Halt Unit × Join
  | 0, _, _, _, j => (.error .outOfFuel, j)
  | fuel + 1, data, subtrieSize, parity, j =>
    if subtrieSize ≤ data.length then (.ok (), { j with out := j.out ++ data })
    else
      match children data parity with
      | .error e => (.error (.error e), j)
      | .ok (addrs, shardCnt) =>
        match fetchNodeChildren addrs shardCnt inFlight j.env with
        | (.error halt, env) => (.error halt, { j with env })
        | (.ok dcs, env) => readChildren (readNode inFlight fuel) (dcs.take shardCnt) { j with env }

/-- `fetch_erasure_bytes_progress`: the first completion answers the root's fetch. -/
def fetchErasureBytes (fuel : Nat) (root : Addr) (inFlight : Nat) (env : Env) : Except Halt (List UInt8) :=
  match env.head.answer root with
  | .error text => .error (.error (.fetch text))
  | .ok rootWire =>
    match DecodedChunk.fromWire rootWire with
    | .error e => .error (.error e)
    | .ok rootDc =>
      let span := rootDc.levelAndLen.2
      match parityOf rootDc.levelAndLen with
      | none => .error .outOfFuel
      | some rootParity =>
        match readNode (max inFlight 1) fuel rootDc.data span rootParity { out := [], env := env.tail } with
        | (.error halt, _) => .error halt
        | (.ok (), j) => .ok (j.out.take span)

end Hoverfly.Erasure
