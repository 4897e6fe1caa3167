import Hoverfly.Erasure.Encoder
import Hoverfly.Lib.Window

/-! Dispersed replicas of the root: single-owner chunks at addresses that are searched for so that
they fall into different neighbourhoods, and the recovery of a root from any of them. -/
namespace Hoverfly.Erasure
open Lib

def replicasOwner : List UInt8 :=
  [0xdc, 0x5b, 0x20, 0x84, 0x7f, 0x43, 0xd6, 0x79, 0x28, 0xf4, 0x9c, 0xd4, 0xf8, 0x5d, 0x69, 0x6b, 0x5a, 0x76, 0x17, 0xb5]

def replicaCounts : List Nat := [0, 2, 4, 8, 16]

def replicaIndexBases : List Nat := [0, 2, 6, 14, 0]

def Level.depth (level : Level) : Nat := level.toU8.toNat

def Level.replicaCount (level : Level) : Nat := replicaCounts.getD level.depth 0

structure Candidate where
  mined : UInt8
  addr : Addr

structure Replicator where
  /-- Replicas in dispersal order, each depth in its own range of slots. -/
  queue : List (Option Candidate)
  exist : List Bool
  /-- The next slot of each depth. -/
  sizes : List Nat

namespace Replicator

def new : Replicator := { queue := List.replicate 16 none, exist := List.replicate 30 false, sizes := replicaCounts }

def replicate (keccak256 : List UInt8 → Addr) (root : Addr) (i : UInt8) : Candidate :=
  { mined := i, addr := keccak256 (root.val.set 0 i ++ replicasOwner) }

def nh (depth : Nat) (addr : Addr) : Nat :=
  replicaIndexBases.getD (depth - 1) 0 + (addr.val.getD 0 0 >>> UInt8.ofNat (8 - depth)).toNat

/-- `add`, on the level as a number: what was placed (0 if nothing), the slot, and the state. -/
def add (c : Candidate) : (depth : Nat) → Replicator → (Nat × Nat) × Replicator
  | 0, r => ((0, 0), r)
  | depth + 1, r =>
    let nh := nh (depth + 1) c.addr
    if r.exist.getD nh false then ((0, 0), r)
    else
      let ((placed, slot), r) := add c depth { r with exist := r.exist.set nh true }
      if placed = 0 then
        let slot := r.sizes.getD depth 0
        ((replicaCounts.getD (depth + 1) 0, slot),
          { r with
            sizes := r.sizes.set depth (slot + 1)
            queue := if slot < r.queue.length then r.queue.set slot (some c) else r.queue })
      else ((placed, slot), r)

/-- Pushes the filled slots up to the first hole; also the last index looked at. -/
def flush : (slots : List (Option Candidate)) → (idx advanced : Nat) → (out : List Candidate) → Nat × List Candidate
  | [], _, advanced, out => (advanced, out)
  | none :: _, idx, _, out => (idx, out)
  | some c :: rest, idx, _, out => flush rest (idx + 1) idx (out ++ [c])

def runLoop (want depth : Nat) : List Candidate → Replicator → (n : Nat) → (out : List Candidate) → List Candidate
  | [], _, _, out => out
  | c :: rest, r, n, out =>
    if out.length < want then
      let ((placed, _), r) := r.add c depth
      if placed = 0 then runLoop want depth rest r n out
      else
        let (advanced, out) := flush (r.queue.drop n) 0 0 out
        runLoop want depth rest r (n + advanced) out
    else out

def candidates (keccak256 : List UInt8 → Addr) (root : Addr) : List Candidate :=
  (List.range 255).map fun i => replicate keccak256 root (UInt8.ofNat i)

def run (keccak256 : List UInt8 → Addr) (root : Addr) (level : Level) : List Candidate :=
  (runLoop level.replicaCount level.depth (candidates keccak256 root) new 0 []).take level.replicaCount

end Replicator

def defaultDownloadLevel : Level := .paranoid

def replicaAddresses (keccak256 : List UInt8 → Addr) (root : Addr) (level : Level) : List Addr :=
  if level = .none then [] else (Replicator.run keccak256 root level).map (·.addr)

/-- A replica's wire form is `id(32) | signature(65) | span(8) | payload`. -/
def socPrefix : Nat := hashSize + 65

def unwrapReplica (bmt : Nat → List UInt8 → Addr) (wire : Wire) (root : Addr) : Option Wire :=
  if wire.length ≤ socPrefix then none
  else if wireAddress bmt (wire.drop socPrefix) ≠ some root then none
  else some (wire.drop socPrefix)

def recoverWindow : Nat := 4

/-- One completed fetch of a replica: an `.error` is the recovered root. -/
def takeReplica (bmt : Nat → List UInt8 → Addr) (root : Addr) (addrs : List Addr) (i : Nat)
    (answer : Addr → Except String Wire) (_ : Unit) : Except Wire Unit :=
  match (addrs[i]?).map answer with
  | some (.ok wire) =>
    match unwrapReplica bmt wire root with
    | some inner => .error inner
    | none => .ok ()
  | _ => .ok ()

def recoverRoot (bmt : Nat → List UInt8 → Addr) (keccak256 : List UInt8 → Addr) (root : Addr) (level : Level)
    (env : Stream' (Completion (Addr → Except String Wire))) : Option Wire :=
  let addrs := replicaAddresses keccak256 root level
  if addrs = [] then none
  else
    match Window.drain addrs.length (takeReplica bmt root addrs) addrs.length
        (.start (min recoverWindow addrs.length)) () env with
    | (.error inner, _) => some inner
    | (.ok (), _) => none

structure Soc where
  address : Addr
  wire : Wire

def signReplica (sign : UInt8 → Wire → Except String Soc) (rootWire : Wire) (c : Candidate) :
    Except String (Addr × Wire) :=
  match sign c.mined rootWire with
  | .error text => .error text
  | .ok soc =>
    if soc.address ≠ c.addr then .error "replica address does not match the mined address"
    else .ok (soc.address, soc.wire)

/-- `parseError` is the text for bytes that are no content chunk, `sign` is `new_dispersed_replica`. -/
def dispersedReplicas (bmt : Nat → List UInt8 → Addr) (keccak256 : List UInt8 → Addr) (parseError : Wire → String)
    (sign : UInt8 → Wire → Except String Soc) (rootWire : Wire) (level : Level) : Except String (List (Addr × Wire)) :=
  if level = .none then .ok []
  else
    match wireAddress bmt rootWire with
    | none => .error (parseError rootWire)
    | some root => (Replicator.run keccak256 root level).mapM (signReplica sign rootWire)

end Hoverfly.Erasure
