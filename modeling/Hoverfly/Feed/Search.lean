import Hoverfly.Lib.Window
import Hoverfly.Lib.Word

/-! The search for a feed's latest update: confirm an anchor, gallop forward in bands of concurrent
probes until one is absent, then narrow the bracket. Indices are `u64`. -/
namespace Hoverfly
open Lib

structure Feed where
  owner : Bytes 20
  topic : Bytes 32

namespace Feed

inductive FeedError where
  | shortPayload (len : Nat)
  | noUpdate

def FeedError.message : FeedError → String
  | .shortPayload len => s!"feed update payload too short: {len} bytes"
  | .noUpdate => "feed has no updates"

inductive ResolveError where
  | feed (e : FeedError)
  | fetch (text : String)

def ResolveError.message : ResolveError → String
  | .feed e => e.message
  | .fetch text => s!"feed update fetch failed: {text}"

inductive Halt where
  | error (e : ResolveError)
  | overflow
  | fuel

/-- The result of a `u64` operation; without `overflow-checks` it wraps. -/
def u64 (checks : Bool) (exact : Int) : Except Halt Nat :=
  if 0 ≤ exact ∧ exact.toNat < 2 ^ 64 then .ok exact.toNat
  else if checks then .error .overflow
  else .ok (exact % (2 ^ 64 : Nat)).toNat

def updateAddress (keccak256 : List UInt8 → Bytes 32) (feed : Feed) (i : Nat) : Bytes 32 :=
  keccak256 ((keccak256 (feed.topic.val ++ (toLe 8 i).reverse)).val ++ feed.owner.val)

abbrev Chunk := List UInt8

def payloadPrefix : Nat := 8

def referenceFromPayload (data : Chunk) : Except FeedError (Bytes 32) :=
  if h : data.length < payloadPrefix + 32 then .error (.shortPayload data.length)
  else .ok ⟨(data.drop payloadPrefix).take 32, by rw [List.length_take, List.length_drop]; omega⟩

def bracketIndex (checks : Bool) (low span probes j : Nat) : Except Halt Nat := do
  let scaled ← u64 checks ((span : Int) * j)
  let parts ← u64 checks ((probes : Int) + 1)
  let base ← u64 checks ((low : Int) + (scaled / parts : Nat))
  u64 checks ((base : Int) + 1)

def bracketLoop (checks : Bool) (low high span probes : Nat) : List Nat → (out : List Nat) → Except Halt (List Nat)
  | [], out => .ok out
  | j :: rest, out => do
    let idx ← bracketIndex checks low span probes j
    bracketLoop checks low high span probes rest
      (if idx > low ∧ idx < high ∧ out.getLast? ≠ some idx then out ++ [idx] else out)

def bracketCandidates (checks : Bool) (low high k : Nat) : Except Halt (List Nat) := do
  let next ← u64 checks ((low : Int) + 1)
  if high ≤ next then .ok []
  else
    let gap ← u64 checks ((high : Int) - low)
    let span ← u64 checks ((gap : Int) - 1)
    let probes := min k span
    bracketLoop checks low high span probes (List.range' 1 probes) []

def maxProbeIndex : Nat := 2 ^ 20
def probeBand : Nat := 12
def anchorAttempts : Nat := 4

def unset : Nat := 2 ^ 64 - 1

inductive Reply where
  | chunk (data : Chunk)
  | notFound
  /-- `ChunkStoreError::Other`: its message, and the error as shown. -/
  | other (msg shown : String)
  | failed (shown : String)
  | timedOut

inductive Probe where
  | present (chunk : Chunk)
  | absent
  | unresolved

def containsText (text part : List Char) : Bool := text.tails.any part.isPrefixOf

def isAbsentRetrieval (msg : String) : Bool :=
  let m := msg.toLower.toList
  containsText m "no peer found".toList || containsText m "not found".toList || containsText m "all peers failed".toList

def probeUpdateWith : Reply → Except ResolveError Probe
  | .chunk data => .ok (.present data)
  | .notFound => .ok .absent
  | .other msg shown => if isAbsentRetrieval msg then .ok .unresolved else .error (.fetch shown)
  | .failed shown => .error (.fetch shown)
  | .timedOut => .ok .unresolved

def getUpdate (reply : Reply) : Except ResolveError (Option Chunk) :=
  match probeUpdateWith reply with
  | .error e => .error e
  | .ok (.present chunk) => .ok (some chunk)
  | .ok .absent => .ok none
  | .ok .unresolved => .ok none

abbrev Round := List (Nat × Option Chunk)

/-- The store may answer differently each time it is asked. -/
abbrev Env := Stream' (Completion (Bytes 32 → Reply))

section
variable (checks : Bool) (address : Nat → Bytes 32)

def confirmAnchor (i : Nat) : (attempts : Nat) → Env → Except Halt (Option Chunk) × Env
  | 0, env => (.ok none, env)
  | attempts + 1, env =>
    match probeUpdateWith (env.head.answer (address i)) with
    | .error e => (.error (.error e), env.tail)
    | .ok (.present chunk) => (.ok (some chunk), env.tail)
    | .ok .absent => (.ok none, env.tail)
    | .ok .unresolved => confirmAnchor i attempts env.tail

def findAnchor (after : Nat) (env : Env) : Except Halt (Nat × Chunk) × Env :=
  match confirmAnchor address after anchorAttempts env with
  | (.error halt, env) => (.error halt, env)
  | (.ok (some chunk), env) => (.ok (after, chunk), env)
  | (.ok none, env) =>
    if after ≠ 0 then
      match confirmAnchor address 0 anchorAttempts env with
      | (.error halt, env) => (.error halt, env)
      | (.ok (some chunk), env) => (.ok (0, chunk), env)
      | (.ok none, env) => (.error (.error (.feed .noUpdate)), env)
    else (.error (.error (.feed .noUpdate)), env)

structure Bracket where
  low : Nat
  high : Nat
  chunk : Option Chunk := none
  anyPresent : Bool := false
  /-- The round's answers. Nothing reads it. -/
  asked : Round := []

def takeProbe (idxs : List Nat) (i : Nat) (answer : Bytes 32 → Reply) (b : Bracket) : Except Halt Bracket :=
  match idxs[i]? with
  | none => .ok b
  | some idx =>
    match getUpdate (answer (address idx)) with
    | .error e => .error (.error e)
    | .ok (some chunk) =>
      let b := { b with anyPresent := true, asked := b.asked ++ [(idx, some chunk)] }
      .ok (if idx > b.low then { b with low := idx, chunk := some chunk } else b)
    | .ok none =>
      let b := { b with asked := b.asked ++ [(idx, none)] }
      .ok (if idx < b.high then { b with high := idx } else b)

def probeRound (idxs : List Nat) (b : Bracket) (env : Env) : Except Halt Bracket × Env :=
  Window.drain idxs.length (takeProbe address idxs) idxs.length (.start idxs.length) b env

/-- `lo + step`, `lo + 2 · step`, … up to the last index ever probed. -/
def band (lo step : Nat) : List Nat :=
  ((List.range probeBand).map fun k => satAdd 64 lo (min (step * 2 ^ k) (2 ^ 64 - 1))).takeWhile (· ≤ maxProbeIndex)

structure Found where
  lo : Nat
  chunk : Chunk
  hi : Nat
  /-- The rounds so far. Nothing reads it. -/
  log : List Round

def gallop : (fuel step : Nat) → Found → Env → Except Halt Found × Env
  | 0, _, _, env => (.error .fuel, env)
  | fuel + 1, step, f, env =>
    let idxs := band f.lo step
    let probedTop := idxs.foldl max f.lo
    if f.hi ≠ unset ∨ idxs = [] then (.ok f, env)
    else
      match probeRound address idxs { low := f.lo, high := f.hi } env with
      | (.error halt, env) => (.error halt, env)
      | (.ok b, env) =>
        let f := { lo := b.low, chunk := b.chunk.getD f.chunk, hi := b.high, log := f.log ++ [b.asked] }
        if f.hi ≠ unset then (.ok f, env)
        else if b.anyPresent = false ∨ probedTop ≥ maxProbeIndex then (.ok f, env)
        else
          match u64 checks ((probedTop : Int) - f.lo) with
          | .error halt => (.error halt, env)
          | .ok gap => gallop fuel (satAdd 64 gap 1) f env

def narrow : (fuel low high : Nat) → Found → Env → Except Halt Found × Env
  | 0, _, _, _, env => (.error .fuel, env)
  | fuel + 1, low, high, f, env =>
    match u64 checks ((high : Int) - low) with
    | .error halt => (.error halt, env)
    | .ok gap =>
      if gap > 1 then
        match bracketCandidates checks low high probeBand with
        | .error halt => (.error halt, env)
        | .ok candidates =>
          if candidates = [] then (.ok f, env)
          else
            match probeRound address candidates { low, high } env with
            | (.error halt, env) => (.error halt, env)
            | (.ok b, env) =>
              let f := { f with log := f.log ++ [b.asked] }
              if b.low = low ∧ b.high = high then (.ok f, env)
              else
                let f := match b.chunk with
                  | some chunk => { f with chunk, lo := b.low }
                  | none => f
                narrow fuel b.low b.high f env
      else (.ok f, env)

def search (fuel : Nat) (lo : Nat) (chunk : Chunk) (env : Env) : Except Halt Found × Env :=
  match gallop checks address fuel 1 { lo, chunk, hi := unset, log := [[(lo, some chunk)]] } env with
  | (.error halt, env) => (.error halt, env)
  | (.ok f, env) => if f.hi ≠ unset then narrow checks address fuel f.lo f.hi f env else (.ok f, env)

end

def headOf (chunk : Chunk) (lo : Nat) : Except Halt (Bytes 32 × Nat) :=
  match referenceFromPayload chunk with
  | .error e => .error (.error (.feed e))
  | .ok reference => .ok (reference, lo)

def resolveLatest (checks : Bool) (keccak256 : List UInt8 → Bytes 32) (feed : Feed) (after : UInt64) (fuel : Nat)
    (env : Env) : Except Halt (Bytes 32 × Nat) :=
  let address := feed.updateAddress keccak256
  match findAnchor address after.toNat env with
  | (.error halt, _) => .error halt
  | (.ok (lo, chunk), env) =>
    match (search checks address fuel lo chunk env).1 with
    | .error halt => .error halt
    | .ok f => headOf f.chunk f.lo

end Feed
end Hoverfly
