import Hoverfly.Dispatch.Resolution
import Hoverfly.Lib.Map
import Hoverfly.Relay.Push

/-! The response of a push request, line by line: from the frame loop, from the dispatcher's callback, and for what
an aborted dispatcher leaves. -/
namespace Hoverfly.Relay
open Lib Push Dispatch

def pushMaxRetries : Nat := 20

inductive Line where
  | ack (line : AckLine)
  | pushed (addr : Bytes 32) (info : PushInfo)
  | doneEmpty (rejected : Bool) (dedup : Nat)
  | done (pushed total : Nat) (dedup : Option Nat) (error : Option String)

def AckLine.addr : AckLine → Bytes 32
  | .err addr _ => addr
  | .dedup addr => addr

namespace Line

def addr : Line → Option (Bytes 32)
  | .ack line => some line.addr
  | .pushed addr _ => some addr
  | .doneEmpty .. => none
  | .done .. => none

def ok : Line → Bool
  | .ack (.dedup _) => true
  | .pushed .. => true
  | _ => false

def ofCall (c : ChunkDone) : Line :=
  match c.result with
  | .ok info => .pushed c.addr info
  | .error e => .ack (.err c.addr e)

end Line

structure PushRun where
  lines : List Line
  /-- What goes into the recent-ack cache, in some order. -/
  cached : List (Bytes 32 × Bytes 32) := []
  bytesPushed : Nat := 0

def batchOf (w : FrameWorld) (accepted : List StampedChunk) : AList (fun _ : Bytes 32 => Bytes 32) :=
  insertAll ∅ (accepted.filterMap fun c => (w.validate c).toOption.map fun vs => (c.addr, vs.batchId))

def reconcile (w : FrameWorld) (st : FrameLoop) (d : Dispatcher) (result : Except ClientError Unit) : PushRun :=
  let addrs := st.accepted.map (·.addr)
  let total := st.accepted.length
  let bytes := (st.accepted.map (·.wire.length)).sum
  let seen := insertAll ∅ (d.calls.map fun c => (c.addr, c.result.isOk))
  let landed := seen.entries.filter (·.2)
  let error := match result with
    | .ok () => none
    | .error e => some e.message
  let message := error.getD "dispatcher exited before this chunk resolved"
  { lines := st.acks.map .ack ++ d.calls.map .ofCall ++
      (addrs.filter (· ∉ seen)).map (fun a => .ack (.err a message)) ++
      [.done landed.length total (if st.dedupHits > 0 then some st.dedupHits else none) error]
    cached := landed.map fun e => (e.1, ((batchOf w st.accepted).lookup e.1).getD (Bytes.replicate 32 0))
    bytesPushed := if total > 0 then bytes * landed.length / total else 0 }

/-- `run_push`, but for the ledger and the shadow meter. `pool` is what `get_pool` gives. The call of
`push_chunks_with_pool_ex` does not own the pool's upkeep, so it is the dispatcher itself; nothing comes of it
while the dispatcher has not returned. -/
def runPush (guard : Option Admitted) (w : FrameWorld) (pool : Except String Nat) (mult : Nat)
    (chunks : List StampedChunk) (events : List Dispatch.Event) : Option PushRun :=
  let st := frameLoop guard w chunks
  if st.accepted = [] then
    some { lines := st.acks.map .ack ++ [.doneEmpty (st.dedupHits = 0) st.dedupHits] }
  else
    match pool with
    | .error e =>
      some { lines := st.acks.map .ack ++ st.accepted.map fun c => .ack (.err c.addr s!"pool: {e}") }
    | .ok poolLen =>
      let d := pushChunksWithPoolInner poolLen mult pushMaxRetries st.accepted events
      d.result.map (reconcile w st d)

def RecentHit (w : FrameWorld) (chunks : List StampedChunk) (addr : Bytes 32) : Prop :=
  ∃ (i : Nat) (c : StampedChunk) (vs : ValidStamp), chunks[i]? = some c ∧ c.addr = addr ∧ w.validate c = .ok vs ∧
    w.recent i addr vs.batchId = true

def ReportedPushed (guard : Option Admitted) (w : FrameWorld) (pool : Except String Nat) (mult : Nat)
    (chunks : List StampedChunk) (events : List Dispatch.Event) (addr : Bytes 32) : Prop :=
  ∃ poolLen, pool = .ok poolLen ∧
    ∃ c ∈ (pushChunksWithPoolInner poolLen mult pushMaxRetries (frameLoop guard w chunks).accepted events).calls,
      c.addr = addr ∧ c.result.isOk = true

theorem frameLoop_acked (guard : Option Admitted) (w : FrameWorld) (chunks : List StampedChunk) :
    ((frameLoop guard w chunks).acks.map AckLine.addr ++ (frameLoop guard w chunks).accepted.map (·.addr)).Perm
        (chunks.map (·.addr)) ∧
      ∀ addr, .dedup addr ∈ (frameLoop guard w chunks).acks → RecentHit w chunks addr := by
  have loop := foldl_invariant (fun seen (st : FrameLoop) => st.index = seen.length ∧
    (st.acks.map AckLine.addr ++ st.accepted.map (·.addr)).Perm (seen.map (·.addr)) ∧
    ∀ addr, .dedup addr ∈ st.acks → RecentHit w seen addr) (FrameLoop.frame guard w) chunks {}
    ⟨rfl, .refl _, nofun⟩ ?_
  · exact loop.2
  rintro seen chunk st - ⟨index, perm, hits⟩
  refine ⟨?_, ?_⟩
  · rw [List.length_append, ← index]
    rfl
  have older : ∀ addr, RecentHit w seen addr → RecentHit w (seen ++ [chunk]) addr := by
    rintro addr ⟨i, c, vs, found, rest⟩
    have inside := (List.getElem?_eq_some_iff.mp found).1
    exact ⟨i, c, vs, by rwa [List.getElem?_append_left inside], rest⟩
  rcases FrameLoop.took_frame guard w st chunk with ⟨_, accepted, ack, acks, answer⟩ | ⟨_, accepted, acks⟩
  · have addr : ack.addr = chunk.addr := by
      rcases answer with ⟨rfl, _⟩ | ⟨message, rfl⟩
      · rfl
      · rfl
    rw [acks, accepted]
    refine ⟨?_, fun a member => ?_⟩
    · simp only [List.map_append, List.map_cons, List.map_nil, List.append_assoc, List.singleton_append, addr]
      exact List.perm_middle.trans ((List.Perm.cons _ perm).trans (List.perm_append_singleton ..).symm)
    · rcases List.mem_append.mp member with before | new
      · exact older a (hits a before)
      · rcases answer with ⟨rfl, vs, valid, hit⟩ | ⟨message, rfl⟩
        · cases List.mem_singleton.mp new
          exact ⟨seen.length, chunk, vs, by simp, rfl, valid, index ▸ hit⟩
        · cases List.mem_singleton.mp new
  · rw [acks, accepted]
    refine ⟨?_, fun a member => older a (hits a member)⟩
    simp only [List.map_append, List.map_cons, List.map_nil]
    rw [← List.append_assoc]
    exact perm.append_right _

theorem Line.addr_ofCall (c : ChunkDone) : (ofCall c).addr = some c.addr := by
  unfold ofCall
  split <;> rfl

theorem Line.ok_ofCall (c : ChunkDone) : (ofCall c).ok = c.result.isOk := by
  unfold ofCall
  cases c.result <;> rfl

theorem reconciled_addrs {work : List StampedChunk} {d : Dispatcher} (parts : Parts work [] d)
    (distinct : (work.map (·.addr)).Nodup) :
    (d.calls.map (·.addr) ++ (work.map (·.addr)).filter
      (· ∉ insertAll ∅ (d.calls.map fun c => (c.addr, c.result.isOk)))).Perm (work.map (·.addr)) := by
  have keys : ∀ a, a ∈ insertAll ∅ (d.calls.map fun c => (c.addr, c.result.isOk)) ↔ a ∈ d.calls.map (·.addr) := by
    intro a
    rw [mem_insertAll, List.map_map]
    exact or_iff_left (AList.notMem_empty a)
  have known : ∀ a ∈ d.calls.map (·.addr), a ∈ work.map (·.addr) := by
    intro a member
    obtain ⟨c, inside, rfl⟩ := List.mem_map.mp member
    obtain ⟨chunk, here, addr⟩ := parts.called c inside
    rw [addr]
    exact List.mem_map_of_mem (List.mem_of_getElem? here)
  refine (List.perm_ext_iff_of_nodup ?_ distinct).mpr fun a => ?_
  · refine List.nodup_append.mpr ⟨parts.nodup_addrs distinct, distinct.filter _, fun a called b left same => ?_⟩
    subst same
    have unseen := (List.mem_filter.mp left).2
    simp only [decide_eq_true_eq, keys] at unseen
    exact unseen called
  · simp only [List.mem_append, List.mem_filter, decide_eq_true_eq, keys]
    constructor
    · rintro (called | ⟨inside, _⟩)
      · exact known a called
      · exact inside
    · intro inside
      by_cases called : a ∈ d.calls.map (·.addr)
      · exact .inl called
      · exact .inr ⟨inside, called⟩

section

variable {guard : Option Admitted} {w : FrameWorld} {pool : Except String Nat} {mult : Nat}
  {chunks : List StampedChunk} {events : List Dispatch.Event} {r : PushRun}

theorem runPush_cases (out : runPush guard w pool mult chunks events = some r) :
    let st := frameLoop guard w chunks
    (st.accepted = [] ∧ r.lines = st.acks.map .ack ++ [.doneEmpty (st.dedupHits = 0) st.dedupHits]) ∨
    (∃ message, r.lines = st.acks.map .ack ++ st.accepted.map fun c => .ack (.err c.addr message)) ∨
    (∃ poolLen result, pool = .ok poolLen ∧
      r = reconcile w st (pushChunksWithPoolInner poolLen mult pushMaxRetries st.accepted events) result) := by
  unfold runPush at out
  dsimp only at out
  split at out
  · rename_i none_
    cases out
    exact .inl ⟨none_, rfl⟩
  split at out
  · rename_i e
    cases out
    exact .inr (.inl ⟨s!"pool: {e}", rfl⟩)
  · rename_i poolLen
    obtain ⟨result, _, rfl⟩ := Option.map_eq_some_iff.mp out
    exact .inr (.inr ⟨poolLen, result, rfl, rfl⟩)

theorem runPush_addrs (distinct : (chunks.map (·.addr)).Nodup)
    (out : runPush guard w pool mult chunks events = some r) :
    (r.lines.filterMap Line.addr).Perm (chunks.map (·.addr)) := by
  obtain ⟨perm, _⟩ := frameLoop_acked guard w chunks
  have acked := filterMap_map_some (f := Line.ack) (g := Line.addr) (h := AckLine.addr) fun _ => rfl
  rcases runPush_cases out with ⟨none_, lines⟩ | ⟨message, lines⟩ | ⟨poolLen, result, _, rfl⟩
  · rw [none_] at perm
    rw [lines, List.filterMap_append, acked]
    exact perm
  · have failed := filterMap_map_some (f := fun c : StampedChunk => Line.ack (.err c.addr message)) (g := Line.addr)
      (h := StampedChunk.addr) fun _ => rfl
    rw [lines, List.filterMap_append, acked, failed]
    exact perm
  · have accepted : ((frameLoop guard w chunks).accepted.map (·.addr)).Nodup :=
      ((frameLoop_billable guard w chunks).2.map _).nodup distinct
    have rest := reconciled_addrs (inner_parts poolLen mult pushMaxRetries _ events) accepted
    refine List.Perm.trans (List.Perm.of_eq ?_) ((rest.append_left _).trans perm)
    have named (message : String) := filterMap_map_some (f := fun a => Line.ack (.err a message)) (g := Line.addr)
      (h := id) fun _ => rfl
    simp [reconcile, acked, named, filterMap_map_some Line.addr_ofCall, Line.addr]

theorem runPush_ok (out : runPush guard w pool mult chunks events = some r) :
    ∀ line ∈ r.lines, line.ok = true → ∃ addr, line.addr = some addr ∧
      (RecentHit w chunks addr ∨ ReportedPushed guard w pool mult chunks events addr) := by
  obtain ⟨_, hits⟩ := frameLoop_acked guard w chunks
  have early : ∀ line ∈ (frameLoop guard w chunks).acks.map Line.ack, line.ok = true → ∃ addr,
      line.addr = some addr ∧ (RecentHit w chunks addr ∨ ReportedPushed guard w pool mult chunks events addr) := by
    intro line member ok
    obtain ⟨ack, inside, rfl⟩ := List.mem_map.mp member
    cases ack with
    | err addr message => cases ok
    | dedup addr => exact ⟨addr, rfl, .inl (hits addr inside)⟩
  intro line member ok
  rcases runPush_cases out with ⟨_, lines⟩ | ⟨message, lines⟩ | ⟨poolLen, result, found, rfl⟩
  · rw [lines] at member
    rcases List.mem_append.mp member with member | member
    · exact early line member ok
    · rw [List.mem_singleton.mp member] at ok
      cases ok
  · rw [lines] at member
    rcases List.mem_append.mp member with member | member
    · exact early line member ok
    · obtain ⟨c, _, rfl⟩ := List.mem_map.mp member
      cases ok
  · simp only [reconcile, List.mem_append, List.mem_singleton, or_assoc] at member
    rcases member with member | member | member | rfl
    · exact early line member ok
    · obtain ⟨c, inside, rfl⟩ := List.mem_map.mp member
      rw [Line.ok_ofCall] at ok
      exact ⟨c.addr, Line.addr_ofCall c, .inr ⟨poolLen, found, c, inside, rfl, ok⟩⟩
    · obtain ⟨a, _, rfl⟩ := List.mem_map.mp member
      cases ok
    · cases ok

end

/-- With distinct addresses in the request, and once the dispatcher has returned, which it does: each frame has
one ack line, no other address has one, and an ok line is a hit of the recent-ack cache or a chunk that the
dispatcher reported as pushed. -/
theorem one_ack_per_frame (guard : Option Admitted) (w : FrameWorld) (pool : Except String Nat) (mult : Nat)
    (chunks : List StampedChunk) (events : List Dispatch.Event) (distinct : (chunks.map (·.addr)).Nodup) :
    (maxChunkRetries * chunks.length ≤ Dispatcher.pushes events →
      (runPush guard w pool mult chunks events).isSome = true) ∧
    ∀ r, runPush guard w pool mult chunks events = some r →
      (∀ c ∈ chunks, (r.lines.filter (·.addr = some c.addr)).length = 1) ∧
      (∀ line ∈ r.lines, ∀ addr ∈ line.addr, addr ∈ chunks.map (·.addr)) ∧
      (∀ line ∈ r.lines, line.ok = true → ∃ addr, line.addr = some addr ∧
        (RecentHit w chunks addr ∨ ReportedPushed guard w pool mult chunks events addr)) := by
  refine ⟨fun enough => ?_, fun r out => ⟨fun c member => ?_, fun line member addr here => ?_, runPush_ok out⟩⟩
  · have fewer := (frameLoop_billable guard w chunks).2.length_le
    unfold runPush
    dsimp only
    split
    · rfl
    split
    · rfl
    · rw [Option.isSome_map]
      exact inner_returns _ _ _ _ _ (Nat.le_trans (Nat.mul_le_mul_left _ fewer) enough)
  · have perm := runPush_addrs distinct out
    have once : (r.lines.filterMap Line.addr).count c.addr = 1 := by
      rw [perm.count_eq]
      exact List.count_eq_one_of_mem distinct (List.mem_map_of_mem member)
    rwa [count_filterMap] at once
  · have perm := runPush_addrs distinct out
    exact perm.mem_iff.mp (List.mem_filterMap.mpr ⟨line, member, here⟩)

def fiveWorld : FrameWorld where
  validate c :=
    if c.wire = [] then .error "short stamp"
    else .ok { batchId := Bytes.replicate 32 7, signer := Bytes.replicate 20 9 }
  resolveOwner _ _ := .ok (Bytes.replicate 20 9, 1)
  recent i _ _ := i = 1

def fiveFrames : List StampedChunk :=
  [{ addr := Bytes.replicate 32 1, wire := [], stamp := [] },
    { addr := Bytes.replicate 32 2, wire := [0], stamp := [] },
    { addr := Bytes.replicate 32 3, wire := [0], stamp := [] },
    { addr := Bytes.replicate 32 4, wire := [0], stamp := [] },
    { addr := Bytes.replicate 32 5, wire := [0], stamp := [] }]

def abortedPush : List Dispatch.Event :=
  [.push 0 (answering (.ok .receipt)),
    .push 0 (answering (.error (.peer "invalid stamp: batchstore get: storage: not found")))]

theorem one_ack_of_five :
    ∃ r, runPush none fiveWorld (.ok 1) 1 fiveFrames abortedPush = some r ∧
      r.lines.map Line.ok = [false, true, true, false, false, false] ∧
      ∀ c ∈ fiveFrames, (r.lines.filter (·.addr = some c.addr)).length = 1 := by
  have lines : (runPush none fiveWorld (.ok 1) 1 fiveFrames abortedPush).map (·.lines.map Line.ok) =
      some [false, true, true, false, false, false] := by decide +kernel
  obtain ⟨r, out, ok⟩ := Option.map_eq_some_iff.mp lines
  have distinct : (fiveFrames.map (·.addr)).Nodup := by decide +kernel
  exact ⟨r, out, ok, ((one_ack_per_frame none fiveWorld (.ok 1) 1 fiveFrames abortedPush distinct).2 r out).1⟩

end Hoverfly.Relay
