import Hoverfly.Drive.AckStream
import Hoverfly.Push.Codec
import Hoverfly.Relay.Acks

/-! A POST from end to end: the relay decodes the body, answers it line by line, and the client makes its events of
the lines. The JSON library is what `Spelling` holds. -/
namespace Hoverfly.Drive
open Lib Push Sched Relay

structure Spelling where
  /-- A text as it stands between the quotes. -/
  escape : String → List UInt8
  /-- `Value::to_string` -/
  render : Json → List UInt8

def number (n : Nat) : Json := .lit (utf8 (toString n))

def boolean (b : Bool) : Json := .lit (utf8 (if b then "true" else "false"))

def member (name : String) (v : Json) : List UInt8 × Json := (utf8 name, v)

def ackFields (addr : Bytes 32) (status : String) : List (List UInt8 × Json) :=
  [member "a" (.str (utf8 (hexEncode addr.val))), member "s" (.str (utf8 status))]

def lineJson (sp : Spelling) : Line → Json
  | .ack (.err addr message) => .obj (ackFields addr "err" ++ [member "e" (.str (sp.escape message))])
  | .ack (.dedup addr) =>
    .obj (ackFields addr "ok" ++ [member "po" (number 0), member "ms" (number 0), member "dedup" (boolean true)])
  | .pushed addr info =>
    .obj (ackFields addr "ok" ++
      [member "po" (number info.po.toNat), member "ms" (number info.ms), member "bpo" (number info.bestPo.toNat)] ++
      if info.shallow then [member "shallow" (boolean true)] else [])
  | .doneEmpty rejected dedup =>
    .obj [member "done" (.obj
      [member "pushed" (number 0), member "rejected" (boolean rejected), member "dedup" (number dedup)])]
  | .done pushed total dedup error =>
    .obj [member "done" (.obj ([member "pushed" (number pushed), member "total" (number total)] ++
      (dedup.map fun n => member "dedup" (number n)).toList ++
      (error.map fun e => member "error" (.str (sp.escape e))).toList))]

/-- The fields of a line come back as they were written, in whatever order. -/
def ReadsBack (sp : Spelling) (p : Post) (line : Line) : Prop :=
  ∃ v, p.fromSlice (sp.render (lineJson sp line)) = some v ∧ ∀ name, v.get name = (lineJson sp line).get name

def answerBody (sp : Spelling) (lines : List Line) : List UInt8 :=
  unlines 0x0a (lines.map fun line => sp.render (lineJson sp line))

variable {sp : Spelling} {p : Post}

theorem unescape_plain {bs : List UInt8} (plain : ∀ b ∈ bs, b ≠ 0x5c) : unescape bs = some bs := by
  induction bs with
  | nil => rfl
  | cons b rest ih =>
    rw [List.forall_mem_cons] at plain
    rw [unescape.eq_def]
    dsimp only
    rw [if_pos plain.1, ih plain.2]
    rfl

theorem hex_chars {P : Char → Prop} (mark : P '0' ∧ P 'x') (digits : ∀ n < 16, P (hexDigit n)) (bs : List UInt8) :
    ∀ c ∈ (hexEncode bs).toList, P c := by
  intro c member
  refine forall_marked mark digits bs c ?_
  rw [String.toList_append]
  exact List.mem_append_right _ member

theorem hex_text (bs : List UInt8) : unescape (utf8 (hexEncode bs)) = some (utf8 (hexEncode bs)) ∧
    hexDecode ((utf8 (hexEncode bs)).map fun b => Char.ofNat b.toNat) = .ok bs := by
  have ascii := hex_chars (P := (·.toNat < 128)) (by decide) (by decide) bs
  constructor
  · apply unescape_plain
    rw [utf8_ascii ascii, List.forall_mem_map]
    exact hex_chars (by decide) (by decide) bs
  · rw [chars_utf8 ascii, toList_hexEncode, hexDecode_pairs]

variable (sp) in
theorem line_fields (line : Line) :
    (lineJson sp line).get (utf8 "a") = line.addr.map (fun addr => .str (utf8 (hexEncode addr.val))) ∧
    ∀ addr ∈ line.addr, (lineJson sp line).get (utf8 "s") = some (.str (utf8 (if line.ok then "ok" else "err"))) := by
  cases line with
  | ack line => cases line <;> exact ⟨rfl, fun _ _ => rfl⟩
  | pushed addr info =>
    obtain ⟨po, ms, bestPo, shallow⟩ := info
    cases shallow <;> exact ⟨rfl, fun _ _ => rfl⟩
  | doneEmpty | done => exact ⟨rfl, nofun⟩

variable (p) in
def heard (t : Tally) : List LaneEv := t.acks.map fun a => .ack p.lane a.addr a.ok

theorem handle_line {line : Line} (back : ReadsBack sp p line) (t : Tally) :
    heard p (p.handle t (sp.render (lineJson sp line))) =
      heard p t ++ (line.addr.map fun addr => .ack p.lane addr line.ok).toList := by
  obtain ⟨addrs, status⟩ := line_fields sp line
  obtain ⟨v, read, fields⟩ := back
  unfold Post.handle Post.readLine
  rw [read]
  dsimp only
  rw [fields, addrs]
  cases known : line.addr with
  | none => exact (List.append_nil _).symm
  | some addr =>
    obtain ⟨plain, decoded⟩ := hex_text addr.val
    have sized : addr.val.length = 32 := addr.property
    have ok : decide ((some (Json.str (utf8 (if line.ok then "ok" else "err")))).bind Json.asStr = some (utf8 "ok")) =
        line.ok := by
      cases line.ok <;> decide +kernel
    simp only [Option.map_some, Option.bind_some, Json.asStr, plain, decoded, sized, dif_pos, heard, List.map_append]
    rw [fields, status addr known, ok]
    rfl

theorem handle_lines {lines : List Line} (back : ∀ line ∈ lines, ReadsBack sp p line) (t : Tally) :
    heard p ((lines.map fun line => sp.render (lineJson sp line)).foldl p.handle t) =
      heard p t ++ lines.filterMap fun line => line.addr.map fun addr => .ack p.lane addr line.ok := by
  induction lines generalizing t with
  | nil => exact (List.append_nil _).symm
  | cons line rest ih =>
    rw [List.forall_mem_cons] at back
    rw [List.map_cons, List.foldl_cons, ih back.2, handle_line back.1, List.append_assoc]
    cases known : line.addr <;> simp [known]

theorem bodyLines_unlines {lines : List (List UInt8)} (plain : ∀ line ∈ lines, 0x0a ∉ line) :
    Post.bodyLines (unlines 0x0a lines) = lines := by
  have whole : Reassembled 0x0a (unlines 0x0a lines) lines [] := ⟨(List.append_nil _).symm, plain⟩
  simp [Post.bodyLines, whole.splitOn_eq]

theorem readFrames_encodeBatch {batch chunks : List StampedChunk} (well : ∀ c ∈ batch, c.WellFormed)
    (received : readFrames (.bytes (encodeBatch batch)) = .ok chunks) : chunks = batch := by
  rw [readFrames] at received
  split at received
  · cases received
  split at received
  · cases received
  · cases received
  · rename_i decoded
    cases received
    obtain ⟨bytes, -, wellToo⟩ := encodeBatch_of_decodeFrom decoded
    have sent : decodeFrom 0 (max batch.length chunks.length) 0 (encodeBatch batch) = .ok batch :=
      decodeFrom_encodeBatch well (Nat.le_max_left ..)
    have got : decodeFrom 0 (max batch.length chunks.length) 0 (encodeBatch chunks) = .ok chunks :=
      decodeFrom_encodeBatch wellToo (Nat.le_max_right ..)
    rw [bytes, sent] at got
    exact (Except.ok.inj got).symm

/-- What the relay made of each frame of a POST is what the client's driver is told, one ack a frame in the relay's
order and then the end of the batch, however the answer is cut up on its way. -/
theorem push_exchange (sp : Spelling) (p : Post) (well : ∀ c ∈ p.batch, c.WellFormed)
    (distinct : (p.batch.map (·.addr)).Nodup) (chunks : List StampedChunk)
    (received : readFrames (.bytes (encodeBatch p.batch)) = .ok chunks) (guard : Option Admitted) (w : FrameWorld)
    (pool : Except String Nat) (mult : Nat) (events : List Dispatch.Event) (r : PushRun)
    (answered : runPush guard w pool mult chunks events = some r)
    (back : ∀ line ∈ r.lines, ReadsBack sp p line) (plain : ∀ line ∈ r.lines, 0x0a ∉ sp.render (lineJson sp line))
    (code : Nat) (shown : String) (success : 200 ≤ code ∧ code < 300) (parts : List (List UInt8))
    (arrived : parts.flatten = answerBody sp r.lines) :
    (∃ acked dedupBytes, (p.postBatchStreaming (.answer code shown (parts.map .bytes))).map PostEv.toLaneEv =
      (r.lines.filterMap fun line => line.addr.map fun addr => .ack p.lane addr line.ok) ++
        [.done p.batchId p.lane acked p.elapsedMs .answered dedupBytes]) ∧
    (r.lines.filterMap Line.addr).Perm (p.batch.map (·.addr)) := by
  obtain rfl := readFrames_encodeBatch well received
  refine ⟨?_, runPush_addrs distinct answered⟩
  rw [Post.postBatchStreaming, if_neg (not_not.mpr success)]
  have lines := @Post.readParts_spec p parts [] [] [] .start (by simp)
  rw [List.foldl_nil, List.nil_append, arrived, answerBody,
    bodyLines_unlines (by simpa using plain)] at lines
  rw [lines, map_toLaneEv_finish]
  have said := handle_lines back {}
  rw [heard, heard] at said
  rw [said]
  exact ⟨_, _, rfl⟩

def plainSpelling : Spelling where
  escape := utf8
  render v := (v.toks []).flatMap Token.bytes

def badStamp : Post where
  batchId := 7
  lane := 1
  batch := [{ addr := Bytes.replicate 32 9, wire := [1], stamp := List.replicate 113 0 }]
  fromSlice bs := (Json.read bs).toOption
  elapsedMs := 40

def refuses : FrameWorld where
  validate _ := .error "short"
  resolveOwner _ _ := .error ""
  recent _ _ _ := false

def refused : List Line := [.ack (.err (Bytes.replicate 32 9) "bad stamp: short"), .doneEmpty true 0]

set_option maxRecDepth 8000 in
theorem push_exchange_badStamp :
    ∃ acked dedupBytes, (badStamp.postBatchStreaming (.answer 200 "200 OK"
        (((answerBody plainSpelling refused).toChunks 16).map .bytes))).map PostEv.toLaneEv =
      [.ack 1 (Bytes.replicate 32 9) false, .done 7 1 acked 40 .answered dedupBytes] := by
  have back : ∀ line ∈ refused, ReadsBack plainSpelling badStamp line := by
    intro line member
    rcases List.mem_pair.mp member with rfl | rfl <;> exact ⟨_, rfl, fun _ => rfl⟩
  have out := push_exchange plainSpelling badStamp (by decide +kernel) (by decide +kernel) badStamp.batch
    (by decide +kernel) none refuses (.ok 1) 1 [] { lines := refused } (by rfl) back (by decide +kernel) 200 "200 OK"
    (by decide) ((answerBody plainSpelling refused).toChunks 16) (by decide +kernel)
  exact out.1

end Hoverfly.Drive
