import Hoverfly.Drive.Pushers
import Hoverfly.Lib.JsonReader
import Hoverfly.Lib.Lines

/-! `post_batch_streaming`: one POST, whose answer is read line by line as it comes in, and what
it tells the driver. -/
namespace Hoverfly.Drive
open Lib Push Sched

structure Ack where
  addr : Addr
  ok : Bool
  po : UInt8
  bestPo : UInt8
  shallow : Bool

inductive PostEv where
  | ack (lane : Nat) (ack : Ack)
  | done (batch lane acked elapsedMs : Nat) (outcome : BatchOutcome) (dedupBytes : Nat)

def PostEv.toLaneEv : PostEv → LaneEv
  | ack lane a => .ack lane a.addr a.ok
  | done batch lane acked elapsedMs outcome dedupBytes => .done batch lane acked elapsedMs outcome dedupBytes

inductive Part where
  | bytes (bs : List UInt8)
  | error (e : String)

inductive Response where
  | unsent (e : String)
  | answer (code : Nat) (shown : String) (parts : List Part)

structure Post where
  batchId : Nat
  lane : Nat
  batch : List StampedChunk
  /-- `serde_json::from_slice` -/
  fromSlice : List UInt8 → Option Json
  elapsedMs : Nat

structure Tally where
  acks : List Ack := []
  acked : Nat := 0
  dedupBytes : Nat := 0

def asU64 (v : Json) : Option Nat := v.natural.filter (· < 2 ^ 64)

def asBool : Json → Option Bool
  | .lit text => if text = utf8 "true" then some true else if text = utf8 "false" then some false else none
  | _ => none

namespace Post
variable (p : Post)

/-- A line that is no ack is passed over. -/
def readLine (line : List UInt8) : Option (Json × Addr) :=
  match p.fromSlice line with
  | none => none
  | some v =>
    match (v.get (utf8 "a")).bind Json.asStr with
    | none => none
    | some a =>
      match hexDecode (a.map fun b => Char.ofNat b.toNat) with
      | .error _ => none
      | .ok raw => if sized : raw.length = 32 then some (v, ⟨raw, sized⟩) else none

def handle (t : Tally) (line : List UInt8) : Tally :=
  match p.readLine line with
  | none => t
  | some (v, addr) =>
    let ok := (v.get (utf8 "s")).bind Json.asStr = some (utf8 "ok")
    let number name := UInt8.ofNat (((v.get (utf8 name)).bind asU64).getD 0)
    let flag name := ((v.get (utf8 name)).bind asBool).getD false
    let dedup := if flag "dedup" then p.batch.find? (·.addr = addr) else none
    { acks := t.acks ++ [{ addr, ok, po := number "po", bestPo := number "bpo", shallow := flag "shallow" }]
      acked := if ok then wrapAdd 64 t.acked 1 else t.acked
      dedupBytes := match dedup with
        | some c => wrapAdd 64 t.dedupBytes (headerLen + c.wire.length)
        | none => t.dedupBytes }

def drain : (fuel : Nat) → List UInt8 → Tally → List UInt8 × Tally
  | 0, buf, t => (buf, t)
  | fuel + 1, buf, t =>
    match buf.idxOf? 0x0a with
    | none => (buf, t)
    | some nl => drain fuel (buf.drop (nl + 1)) (p.handle t (buf.take nl))

def finish (outcome : BatchOutcome) (t : Tally) : List PostEv :=
  t.acks.map (.ack p.lane) ++ [.done p.batchId p.lane t.acked p.elapsedMs outcome t.dedupBytes]

def readParts : List Part → (buf : List UInt8) → Tally → List PostEv
  | [], buf, t => p.finish .answered (if buf ≠ [] then p.handle t buf else t)
  | .bytes bs :: rest, buf, t =>
    let (buf, t) := p.drain (buf ++ bs).length (buf ++ bs) t
    readParts rest buf t
  | .error e :: _, _, t => p.finish (.failed e) t

def postBatchStreaming : Response → List PostEv
  | .unsent e => p.finish (.failed e) {}
  | .answer code shown parts =>
    if ¬(200 ≤ code ∧ code < 300) then
      if code = 402 then p.finish .paymentRequired {}
      else if code = 401 then p.finish .paymentRequired {}
      else p.finish (.failed s!"http {shown}") {}
    else p.readParts parts [] {}

def bodyLines (body : List UInt8) : List (List UInt8) :=
  let lines := body.splitOn 0x0a
  if lines.getLast? = some [] then lines.dropLast else lines

variable {p}

theorem readParts_finishes (parts : List Part) (buf : List UInt8) (t : Tally) :
    ∃ outcome t', p.readParts parts buf t = p.finish outcome t' := by
  induction parts generalizing buf t with
  | nil => exact ⟨_, _, rfl⟩
  | cons part rest ih =>
    cases part with
    | bytes bs => exact ih ..
    | error e => exact ⟨_, _, rfl⟩

theorem postBatchStreaming_finishes (r : Response) : ∃ outcome t, p.postBatchStreaming r = p.finish outcome t := by
  cases r with
  | unsent e => exact ⟨_, _, rfl⟩
  | answer code shown parts =>
    rw [postBatchStreaming]
    split_ifs
    · exact readParts_finishes ..
    · exact ⟨_, _, rfl⟩
    · exact ⟨_, _, rfl⟩
    · exact ⟨_, _, rfl⟩

theorem drain_spec {text buf : List UInt8} {lines : List (List UInt8)} (fuel : Nat) (enough : buf.length ≤ fuel)
    (h : Reassembled 0x0a text lines buf) :
    ∃ lines' buf', p.drain fuel buf (lines.foldl p.handle {}) = (buf', lines'.foldl p.handle {}) ∧
      Reassembled 0x0a text lines' buf' ∧ 0x0a ∉ buf' := by
  induction fuel generalizing buf lines with
  | zero =>
    have empty : buf = [] := List.length_eq_zero_iff.mp (by omega)
    exact ⟨lines, buf, rfl, h, by simp [empty]⟩
  | succ fuel ih =>
    unfold drain
    cases found : buf.idxOf? 0x0a with
    | none => exact ⟨lines, buf, rfl, h, List.idxOf?_eq_none_iff.mp found⟩
    | some nl =>
      have inside := (List.idxOf?_eq_some_iff.mp found).1
      have next := ih (by rw [List.length_drop]; omega) (h.cut found)
      rwa [List.foldl_append] at next

theorem readParts_spec (parts : List (List UInt8)) {text buf : List UInt8} {lines : List (List UInt8)}
    (h : Reassembled 0x0a text lines buf) (plain : 0x0a ∉ buf) :
    p.readParts (parts.map .bytes) buf (lines.foldl p.handle {}) =
      p.finish .answered ((bodyLines (text ++ parts.flatten)).foldl p.handle {}) := by
  induction parts generalizing text buf lines with
  | nil =>
    have split_ := h.splitOn_eq plain
    rw [List.flatten_nil, List.append_nil, List.map_nil, readParts, bodyLines, split_]
    by_cases empty : buf = []
    · simp [empty]
    · simp [empty]
  | cons part rest ih =>
    obtain ⟨lines', buf', drained, h', plain'⟩ := @drain_spec p _ _ lines _ le_rfl (h.feed part)
    rw [List.map_cons, readParts, drained, List.flatten_cons, ← List.append_assoc]
    exact ih h' plain'

end Post

theorem map_toLaneEv_finish (p : Post) (outcome : BatchOutcome) (t : Tally) :
    (p.finish outcome t).map PostEv.toLaneEv =
      t.acks.map (fun a => .ack p.lane a.addr a.ok) ++
        [.done p.batchId p.lane t.acked p.elapsedMs outcome t.dedupBytes] := by
  simp [Post.finish, PostEv.toLaneEv]

theorem ack_stream_unchunked (p : Post) :
    (∀ r, ∃ (t : Tally) (outcome : BatchOutcome), p.postBatchStreaming r =
        t.acks.map (.ack p.lane) ++ [.done p.batchId p.lane t.acked p.elapsedMs outcome t.dedupBytes] ∧
      (p.postBatchStreaming r).map PostEv.toLaneEv = t.acks.map (fun a => .ack p.lane a.addr a.ok) ++
        [.done p.batchId p.lane t.acked p.elapsedMs outcome t.dedupBytes]) ∧
    ∀ code shown, 200 ≤ code ∧ code < 300 → ∀ parts : List (List UInt8),
      p.postBatchStreaming (.answer code shown (parts.map .bytes)) =
        p.finish .answered ((Post.bodyLines parts.flatten).foldl p.handle {}) := by
  constructor
  · intro r
    obtain ⟨outcome, t, sent⟩ := @Post.postBatchStreaming_finishes p r
    exact ⟨t, outcome, sent, by rw [sent, map_toLaneEv_finish]⟩
  · intro code shown success parts
    rw [Post.postBatchStreaming, if_neg (not_not.mpr success)]
    exact Post.readParts_spec parts .start (by simp)

end Hoverfly.Drive
