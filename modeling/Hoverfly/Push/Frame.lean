import Hoverfly.Lib.Word

/-! The push-frame codec: a body is a concatenation of frames, each
`addr(32) | stamp(113) | wire_len(u16 LE) | wire`. -/
namespace Hoverfly.Push
open Lib

def stampLen : Nat := 113
def maxWireLen : Nat := 4104
def headerLen : Nat := 32 + stampLen + 2
def maxFrameLen : Nat := headerLen + maxWireLen

structure StampedChunk where
  addr : Bytes 32
  wire : List UInt8
  stamp : List UInt8
deriving DecidableEq

inductive FrameError where
  | truncated (consumed : Nat)
  | wireTooLong (wireLen : Nat)
  | tooManyFrames (count max : Nat)
deriving DecidableEq

def FrameError.message : FrameError → String
  | .truncated consumed => s!"truncated frame at byte {consumed} (need more input)"
  | .wireTooLong wireLen => s!"wire_len {wireLen} exceeds max {maxWireLen}"
  | .tooManyFrames count max => s!"frame count {count} exceeds max {max}"

def encodeFrame (c : StampedChunk) : List UInt8 := c.addr.val ++ c.stamp ++ toLe 2 c.wire.length ++ c.wire

def encodeBatch (chunks : List StampedChunk) : List UInt8 := chunks.flatMap encodeFrame

def StampedChunk.frameBytes (c : StampedChunk) : Nat := headerLen + c.wire.length

variable {buf : List UInt8}

theorem length_addr (whole : headerLen ≤ buf.length) : (buf.take 32).length = 32 := by
  have header : 32 ≤ headerLen := by decide
  rw [List.length_take]
  omega

/-- `left` counts the frames still allowed: `max_frames` less those already decoded. -/
def decodeFrom (maxFrames : Nat) : (left consumed : Nat) → List UInt8 → Except FrameError (List StampedChunk)
  | _, _, [] => .ok []
  | 0, _, _ :: _ => .error (.tooManyFrames (maxFrames + 1) maxFrames)
  | left + 1, consumed, b :: bs =>
    let buf := b :: bs
    if whole : headerLen ≤ buf.length then
      let wireLen := fromLe ((buf.drop (32 + stampLen)).take 2)
      if wireLen > maxWireLen then .error (.wireTooLong wireLen)
      else if buf.length < headerLen + wireLen then .error (.truncated consumed)
      else do
        let rest ← decodeFrom maxFrames left (consumed + (headerLen + wireLen)) (buf.drop (headerLen + wireLen))
        return { addr := ⟨buf.take 32, length_addr whole⟩
                 stamp := (buf.drop 32).take stampLen
                 wire := (buf.drop headerLen).take wireLen } :: rest
    else .error (.truncated consumed)

def decodeBatch (buf : List UInt8) (maxFrames : Nat) : Except FrameError (List StampedChunk) :=
  decodeFrom maxFrames maxFrames 0 buf

theorem frameBytes_of_decodeFrom {maxFrames left consumed : Nat} {chunks : List StampedChunk}
    (decoded : decodeFrom maxFrames left consumed buf = .ok chunks) :
    (chunks.map StampedChunk.frameBytes).sum = buf.length := by
  fun_induction decodeFrom maxFrames left consumed buf generalizing chunks with
  | case1 =>
    cases decoded
    rfl
  | case2 | case3 | case4 | case6 => cases decoded
  | case5 left consumed b bs buf whole wireLen _ _ =>
    rename_i ih
    cases tail : decodeFrom maxFrames left (consumed + (headerLen + wireLen)) (buf.drop (headerLen + wireLen)) with
    | error e =>
      rw [tail] at decoded
      cases decoded
    | ok rest =>
      rw [tail] at decoded
      cases decoded
      have sum := ih tail
      have length : (buf.drop headerLen).length = buf.length - headerLen := List.length_drop
      have all : (buf.drop (headerLen + wireLen)).length = buf.length - (headerLen + wireLen) := List.length_drop
      rw [List.map_cons, List.sum_cons, sum, all, StampedChunk.frameBytes]
      dsimp only
      rw [List.length_take, length]
      show headerLen + min wireLen (buf.length - headerLen) + (buf.length - (headerLen + wireLen)) = buf.length
      omega

theorem frameBytes_of_decodeBatch {maxFrames : Nat} {chunks : List StampedChunk}
    (decoded : decodeBatch buf maxFrames = .ok chunks) :
    (chunks.map StampedChunk.frameBytes).sum = buf.length := frameBytes_of_decodeFrom decoded

end Hoverfly.Push
