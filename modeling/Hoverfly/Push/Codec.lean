import Hoverfly.Push.Frame

/-! Bodies and batches: decoding undoes encoding, and what decodes is exactly a
concatenation of well-formed frames. -/
namespace Hoverfly.Push
open Lib

/-- What `encode_frame` asserts of a chunk. -/
def StampedChunk.WellFormed (c : StampedChunk) : Prop := c.stamp.length = stampLen ∧ c.wire.length ≤ maxWireLen

instance (c : StampedChunk) : Decidable c.WellFormed := inferInstanceAs (Decidable (_ ∧ _))

def IsFrame (f : List UInt8) : Prop :=
  headerLen ≤ f.length ∧ f.length ≤ maxFrameLen ∧ f.length = headerLen + fromLe ((f.drop (32 + stampLen)).take 2)

def wireLenOf (buf : List UInt8) : Nat := fromLe ((buf.drop (32 + stampLen)).take 2)

def headFrame (buf : List UInt8) (whole : headerLen ≤ buf.length) : StampedChunk where
  addr := ⟨buf.take 32, length_addr whole⟩
  stamp := (buf.drop 32).take stampLen
  wire := (buf.drop headerLen).take (wireLenOf buf)

section
variable {maxFrames left consumed : Nat} {buf : List UInt8}

theorem decodeFrom_whole (whole : headerLen ≤ buf.length) (small : wireLenOf buf ≤ maxWireLen)
    (enough : headerLen + wireLenOf buf ≤ buf.length) :
    decodeFrom maxFrames (left + 1) consumed buf =
      (decodeFrom maxFrames left (consumed + (headerLen + wireLenOf buf)) (buf.drop (headerLen + wireLenOf buf))).map
        (headFrame buf whole :: ·) := by
  cases buf with
  | nil => exact absurd whole (by decide)
  | cons b bs =>
    rw [wireLenOf] at small enough
    rw [decodeFrom, dif_pos whole]
    dsimp only
    rw [if_neg (Nat.not_lt.mpr small), if_neg (Nat.not_lt.mpr enough), wireLenOf]
    cases decodeFrom maxFrames left _ _ with
    | error e => rfl
    | ok chunks => rfl

theorem decodeFrom_ok {chunks : List StampedChunk} (decoded : decodeFrom maxFrames left consumed buf = .ok chunks) :
    (buf = [] ∧ chunks = []) ∨
    ∃ (whole : headerLen ≤ buf.length) (rest : List StampedChunk) (m : Nat), left = m + 1 ∧
      wireLenOf buf ≤ maxWireLen ∧ headerLen + wireLenOf buf ≤ buf.length ∧ chunks = headFrame buf whole :: rest ∧
      decodeFrom maxFrames m (consumed + (headerLen + wireLenOf buf)) (buf.drop (headerLen + wireLenOf buf)) =
        .ok rest := by
  match buf, left with
  | [], _ =>
    simp only [decodeFrom, Except.ok.injEq] at decoded
    exact .inl ⟨rfl, decoded.symm⟩
  | b :: bs, 0 => simp [decodeFrom] at decoded
  | b :: bs, m + 1 =>
    by_cases fits : ∃ _ : headerLen ≤ (b :: bs).length, wireLenOf (b :: bs) ≤ maxWireLen ∧
        headerLen + wireLenOf (b :: bs) ≤ (b :: bs).length
    · obtain ⟨whole, small, enough⟩ := fits
      rw [decodeFrom_whole whole small enough] at decoded
      cases tail : decodeFrom maxFrames m (consumed + (headerLen + wireLenOf (b :: bs)))
          ((b :: bs).drop (headerLen + wireLenOf (b :: bs))) with
      | error e =>
        rw [tail] at decoded
        cases decoded
      | ok rest =>
        rw [tail] at decoded
        cases decoded
        exact .inr ⟨whole, rest, m, rfl, small, enough, rfl, tail⟩
    · simp only [exists_prop, not_and, wireLenOf] at fits
      rw [decodeFrom] at decoded
      split at decoded
      · rename_i whole
        dsimp only at decoded
        split at decoded
        · cases decoded
        · rename_i small
          rw [if_pos (Nat.not_le.mp (fits whole (Nat.not_lt.mp small)))] at decoded
          cases decoded
      · cases decoded

theorem headFrame_spec (whole : headerLen ≤ buf.length) (small : wireLenOf buf ≤ maxWireLen)
    (enough : headerLen + wireLenOf buf ≤ buf.length) :
    (headFrame buf whole).WellFormed ∧ encodeFrame (headFrame buf whole) = buf.take (headerLen + wireLenOf buf) := by
  have header : headerLen = 32 + stampLen + 2 := rfl
  have wire : ((buf.drop headerLen).take (wireLenOf buf)).length = wireLenOf buf := by
    rw [List.length_take, List.length_drop]
    omega
  have stamp : ((buf.drop 32).take stampLen).length = stampLen := by
    rw [List.length_take, List.length_drop]
    omega
  have field : ((buf.drop (32 + stampLen)).take 2).length = 2 := by
    rw [List.length_take, List.length_drop]
    omega
  have bytes : toLe 2 (wireLenOf buf) = (buf.drop (32 + stampLen)).take 2 := by
    have back := toLe_fromLe ((buf.drop (32 + stampLen)).take 2)
    rwa [field] at back
  refine ⟨⟨stamp, wire.le.trans small⟩, ?_⟩
  rw [encodeFrame, headFrame, wire, bytes, header, List.take_add, List.take_add, List.take_add]

end

section
variable {c : StampedChunk} (well : c.WellFormed) (rest : List UInt8)
include well

theorem length_encodeFrame : (encodeFrame c).length = c.frameBytes := by
  have addr := c.addr.property
  have stamp := well.1
  simp only [encodeFrame, StampedChunk.frameBytes, headerLen, List.length_append, length_toLe]
  omega

theorem wireLenOf_encodeFrame : wireLenOf (encodeFrame c ++ rest) = c.wire.length := by
  have fits : c.wire.length < 256 ^ 2 := Nat.lt_of_le_of_lt well.2 (by decide)
  have header : (c.addr.val ++ c.stamp).length = 32 + stampLen := by
    rw [List.length_append, c.addr.property, well.1]
  have split : encodeFrame c ++ rest = (c.addr.val ++ c.stamp) ++ (toLe 2 c.wire.length ++ (c.wire ++ rest)) := by
    simp [encodeFrame]
  rw [wireLenOf, split, List.drop_left' header, List.take_left' (length_toLe _ _), fromLe_toLe, Nat.mod_eq_of_lt fits]

theorem headFrame_encodeFrame (whole : headerLen ≤ (encodeFrame c ++ rest).length) :
    headFrame (encodeFrame c ++ rest) whole = c := by
  have header : (c.addr.val ++ c.stamp ++ toLe 2 c.wire.length).length = headerLen := by
    rw [List.length_append, List.length_append, c.addr.property, well.1, length_toLe]
    rfl
  have addr : (encodeFrame c ++ rest).take 32 = c.addr.val := by
    simp only [encodeFrame, List.append_assoc]
    exact List.take_left' c.addr.property
  have stamp : ((encodeFrame c ++ rest).drop 32).take stampLen = c.stamp := by
    simp only [encodeFrame, List.append_assoc]
    rw [List.drop_left' c.addr.property, List.take_left' well.1]
  have wire : ((encodeFrame c ++ rest).drop headerLen).take (wireLenOf (encodeFrame c ++ rest)) = c.wire := by
    rw [wireLenOf_encodeFrame well]
    simp only [encodeFrame, List.append_assoc] at header ⊢
    rw [← List.append_assoc, ← List.append_assoc, List.append_assoc c.addr.val, List.drop_left' header,
      List.take_left' rfl]
  simp only [headFrame, addr, stamp, wire]

end

theorem decodeFrom_encodeBatch {chunks : List StampedChunk} (well : ∀ c ∈ chunks, c.WellFormed)
    {maxFrames left consumed : Nat} (enough : chunks.length ≤ left) :
    decodeFrom maxFrames left consumed (encodeBatch chunks) = .ok chunks := by
  induction chunks generalizing left consumed with
  | nil => simp [encodeBatch, decodeFrom]
  | cons c rest ih =>
    obtain ⟨left, rfl⟩ : ∃ n, left = n + 1 := ⟨left - 1, by simp at enough; omega⟩
    have good := well c (List.mem_cons_self ..)
    have length := length_encodeFrame good
    have field := wireLenOf_encodeFrame good (encodeBatch rest)
    have total : (encodeFrame c ++ encodeBatch rest).length = c.frameBytes + (encodeBatch rest).length := by
      rw [List.length_append, length]
    rw [StampedChunk.frameBytes] at total
    have after : (encodeFrame c ++ encodeBatch rest).drop (headerLen + c.wire.length) = encodeBatch rest :=
      List.drop_left' length
    have whole : headerLen ≤ (encodeFrame c ++ encodeBatch rest).length := by omega
    rw [encodeBatch, List.flatMap_cons, ← encodeBatch]
    rw [decodeFrom_whole whole (by rw [field]; exact good.2) (by rw [field]; omega), field, after,
      ih (fun d member => well d (List.mem_cons_of_mem _ member)) (Nat.le_of_succ_le_succ enough)]
    exact congrArg (fun d => Except.ok (d :: rest)) (headFrame_encodeFrame good (encodeBatch rest) whole)

theorem encodeBatch_of_decodeFrom {maxFrames left consumed : Nat} {buf : List UInt8} {chunks : List StampedChunk}
    (decoded : decodeFrom maxFrames left consumed buf = .ok chunks) :
    encodeBatch chunks = buf ∧ chunks.length ≤ left ∧ ∀ c ∈ chunks, c.WellFormed := by
  induction chunks generalizing left consumed buf with
  | nil =>
    rcases decodeFrom_ok decoded with ⟨empty, -⟩ | ⟨_, _, _, _, _, _, cons, _⟩
    · exact ⟨empty.symm, Nat.zero_le _, by simp⟩
    · cases cons
  | cons c rest ih =>
    rcases decodeFrom_ok decoded with ⟨-, nil⟩ | ⟨whole, rest', m, rfl, small, enough, cons, tail⟩
    · cases nil
    · cases cons
      obtain ⟨bytes, count, well⟩ := ih tail
      obtain ⟨good, frame⟩ := headFrame_spec whole small enough
      refine ⟨?_, Nat.succ_le_succ count, ?_⟩
      · rw [encodeBatch, List.flatMap_cons, ← encodeBatch, bytes, frame, List.take_append_drop]
      · exact List.forall_mem_cons.mpr ⟨good, well⟩

theorem isFrame_iff {f : List UInt8} : IsFrame f ↔ ∃ c : StampedChunk, c.WellFormed ∧ encodeFrame c = f := by
  constructor
  · rintro ⟨whole, most, length⟩
    have small : wireLenOf f ≤ maxWireLen := by
      rw [maxFrameLen] at most
      rw [wireLenOf]
      omega
    obtain ⟨good, frame⟩ := headFrame_spec whole small length.ge
    refine ⟨_, good, ?_⟩
    rw [frame, wireLenOf, ← length, List.take_length]
  · rintro ⟨c, good, rfl⟩
    have length := length_encodeFrame good
    have field := wireLenOf_encodeFrame good []
    rw [List.append_nil, wireLenOf] at field
    rw [IsFrame, field, length, StampedChunk.frameBytes, maxFrameLen]
    have most := good.2
    omega

theorem batch_of_frames {frames : List (List UInt8)} (each : ∀ f ∈ frames, IsFrame f) :
    ∃ cs : List StampedChunk, cs.length = frames.length ∧ encodeBatch cs = frames.flatten ∧
      ∀ c ∈ cs, c.WellFormed := by
  induction frames with
  | nil => exact ⟨[], rfl, rfl, by simp⟩
  | cons f frames ih =>
    obtain ⟨c, good, rfl⟩ := isFrame_iff.mp (each f (List.mem_cons_self ..))
    obtain ⟨cs, same, bytes, well⟩ := ih fun g member => each g (List.mem_cons_of_mem _ member)
    refine ⟨c :: cs, congrArg (· + 1) same, ?_, List.forall_mem_cons.mpr ⟨good, well⟩⟩
    rw [encodeBatch, List.flatMap_cons, ← encodeBatch, bytes, List.flatten_cons]

/-- Decoding and encoding are inverse to one another between well-formed batches and concatenations of
frames, and a body is refused just when it is no such concatenation or has too many frames. -/
theorem decodeBatch_bijection :
    (∀ (chunks : List StampedChunk) (maxFrames : Nat),
      (∀ c ∈ chunks, c.stamp.length = 113 ∧ c.wire.length ≤ 4104) → chunks.length ≤ maxFrames →
        decodeBatch (encodeBatch chunks) maxFrames = .ok chunks) ∧
    (∀ (b : List UInt8) (maxFrames : Nat) (cs : List StampedChunk), decodeBatch b maxFrames = .ok cs →
      encodeBatch cs = b ∧ cs.length ≤ maxFrames ∧ (cs.map fun c => headerLen + c.wire.length).sum = b.length) ∧
    (∀ (b : List UInt8) (maxFrames : Nat), (∃ e, decodeBatch b maxFrames = .error e) ↔
      ¬ ∃ frames : List (List UInt8), frames.flatten = b ∧ frames.length ≤ maxFrames ∧ ∀ f ∈ frames, IsFrame f) := by
  refine ⟨fun chunks maxFrames well enough => decodeFrom_encodeBatch well enough, ?_, fun b maxFrames => ?_⟩
  · intro b maxFrames cs decoded
    obtain ⟨bytes, count, -⟩ := encodeBatch_of_decodeFrom decoded
    exact ⟨bytes, count, frameBytes_of_decodeBatch decoded⟩
  · constructor
    · rintro ⟨e, refused⟩ ⟨frames, rfl, count, each⟩
      obtain ⟨cs, same, bytes, well⟩ := batch_of_frames each
      rw [← bytes, decodeBatch, decodeFrom_encodeBatch well (same.le.trans count)] at refused
      cases refused
    · intro none_
      cases decoded : decodeBatch b maxFrames with
      | error e => exact ⟨e, rfl⟩
      | ok cs =>
        obtain ⟨bytes, count, well⟩ := encodeBatch_of_decodeFrom decoded
        refine absurd ⟨cs.map encodeFrame, ?_, by simpa using count, ?_⟩ none_
        · rw [← bytes, encodeBatch, List.flatMap_def]
        · intro f member
          obtain ⟨c, inside, rfl⟩ := List.mem_map.mp member
          exact isFrame_iff.mpr ⟨c, well c inside, rfl⟩

def sampleChunk : StampedChunk := ⟨Bytes.replicate 32 7, [1, 2, 3], List.replicate 113 9⟩

theorem decodeBatch_bijection_sample :
    decodeBatch (encodeBatch [sampleChunk, sampleChunk]) 2 = .ok [sampleChunk, sampleChunk] ∧
      ([sampleChunk, sampleChunk].map fun c => headerLen + c.wire.length).sum = 300 := by
  have decoded := decodeBatch_bijection.1 [sampleChunk, sampleChunk] 2 (by decide) (by decide)
  exact ⟨decoded, (decodeBatch_bijection.2.1 _ _ _ decoded).2.2.trans (by decide +kernel)⟩

end Hoverfly.Push
