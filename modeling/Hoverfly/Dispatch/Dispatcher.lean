import Hoverfly.Dispatch.Race
import Hoverfly.Lib.Run
import Hoverfly.Push.Frame

/-! The push dispatcher: a window of dispatches over the work list, refilled from a queue, and a retry that goes
back into the window. Work items go by their number, since two may have one address. -/
namespace Hoverfly.Dispatch
open Lib Push

def maxChunkRetries : Nat := 60

structure Flight where
  item : Nat
  chunk : StampedChunk
  attempts : Nat

structure ChunkDone where
  item : Nat
  addr : Bytes 32
  result : Except String PushInfo

structure Dispatcher where
  iter : List (StampedChunk × Nat)
  inflight : List Flight
  moreChunks : Bool
  pushed : Nat
  calls : List ChunkDone
  dispatched : List Nat
  result : Option (Except ClientError Unit)

namespace Dispatcher

def launch (d : Dispatcher) (item : Nat) (chunk : StampedChunk) (attempts : Nat) : Dispatcher :=
  { d with inflight := d.inflight ++ [{ item, chunk, attempts }], dispatched := d.dispatched ++ [item] }

def fill : Nat → Dispatcher → Dispatcher
  | 0, d => d
  | n + 1, d =>
    match d.iter with
    | [] => d
    | (chunk, item) :: rest => fill n ({ d with iter := rest }.launch item chunk 0)

def refill (d : Dispatcher) : Dispatcher :=
  match d.iter with
  | [] => { d with moreChunks := false }
  | (chunk, item) :: rest => { d with iter := rest }.launch item chunk 0

def report (d : Dispatcher) (f : Flight) (result : Except String PushInfo) : Dispatcher :=
  { d with calls := d.calls ++ [{ item := f.item, addr := f.chunk.addr, result }] }

def abort (d : Dispatcher) (f : Flight) (e : ClientError) : Dispatcher :=
  { d.report f (.error e.message) with result := some (.error e) }

def finish (d : Dispatcher) (f : Flight) : Nat × Except ClientError PushInfo → Dispatcher
  | (pushed, .ok info) => ({ d with pushed }.report f (.ok info)).refill
  | (pushed, .error (.batchNotFound reason)) => { d with pushed }.abort f (.batchNotFound reason)
  | (pushed, .error e) =>
    if f.attempts + 1 < maxChunkRetries then { d with pushed }.launch f.item f.chunk (f.attempts + 1)
    else
      match e with
      -- Forwarded into the network every time: accepted in the end.
      | .shallowOnly =>
        ({ d with pushed := pushed + 1 }.report f (.ok { po := 0, ms := 0, shallow := true, bestPo := 0 })).refill
      | e => { d with pushed }.abort f e

def close (d : Dispatcher) : Dispatcher :=
  if d.result = none ∧ d.moreChunks = false ∧ d.inflight = [] then { d with result := some (.ok ()) } else d

end Dispatcher

/-- What the loop selects: a dispatch that has ended, a background dial or the heartbeat. The last two
act on the pool alone, which every dispatch sees as it is. -/
inductive Event where
  | push (pick : Nat) (world : World)
  | dial
  | heartbeat

namespace Dispatcher

def step (maxRetries : Nat) (d : Dispatcher) : Event → Dispatcher
  | .push pick world =>
    if d.result.isSome then d
    else
      match d.inflight[pick % d.inflight.length]? with
      | none => d
      | some f =>
        ({ d with inflight := d.inflight.eraseIdx (pick % d.inflight.length) }.finish f
          (world.dispatch maxRetries d.pushed)).close
  | .dial => d
  | .heartbeat => d

def fresh (work : List StampedChunk) : Dispatcher :=
  { iter := work.zipIdx, inflight := [], moreChunks := true, pushed := 0, calls := [], dispatched := [], result := none }

def start (poolLen mult : Nat) (work : List StampedChunk) : Dispatcher :=
  if work = [] then { fresh work with result := some (.ok ()) }
  else if poolLen = 0 then { fresh work with result := some (.error (.noPeers "no reachable ws peers")) }
  else (fresh work).fill (max (min (128 * mult % 2 ^ 64) work.length) poolLen)

end Dispatcher

/-- `push_chunks_with_pool_inner`. The loop has returned when the result is there. -/
def pushChunksWithPoolInner (poolLen mult maxRetries : Nat) (work : List StampedChunk) (events : List Event) :
    Dispatcher :=
  run (Dispatcher.step maxRetries) (.start poolLen mult work) events

end Hoverfly.Dispatch
