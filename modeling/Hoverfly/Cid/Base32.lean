import Hoverfly.Lib.Regroup
import Hoverfly.Lib.Word

/-! Base32 in lower case without padding, as the crate and the gateway write it and as the gateway reads it.
The accumulator is a word whose upper bits are never cleared. -/
namespace Hoverfly.Cid
open Lib

def alphabet : List Char :=
  ['a', 'b', 'c', 'd', 'e', 'f', 'g', 'h', 'i', 'j', 'k', 'l', 'm', 'n', 'o', 'p', 'q', 'r', 's', 't', 'u', 'v', 'w',
    'x', 'y', 'z', '2', '3', '4', '5', '6', '7']

def letter (i : Nat) : Char := alphabet.getD i 'a'

structure Buffer (W : Type) where
  empty : W
  /-- `(buffer << 8) | byte` -/
  intake : W → UInt8 → W
  /-- `(buffer >> bits) & 0x1f` -/
  group : W → Nat → Nat
  /-- `(buffer << n) & 0x1f` -/
  rest : W → Nat → Nat

structure Packing (W : Type) where
  buffer : W
  bits : Nat
  out : List Char

namespace Buffer
variable {W : Type} (B : Buffer W)

/-- `while bits >= 5` -/
def drain (buffer : W) : (fuel bits : Nat) → (out : List Char) → Packing W
  | 0, bits, out => { buffer, bits, out }
  | fuel + 1, bits, out =>
    if bits ≥ 5 then drain buffer fuel (bits - 5) (out ++ [letter (B.group buffer (bits - 5))])
    else { buffer, bits, out }

def step (s : Packing W) (byte : UInt8) : Packing W := B.drain (B.intake s.buffer byte) (s.bits + 8) (s.bits + 8) s.out

def encode (input : List UInt8) : List Char :=
  let s := input.foldl B.step { buffer := B.empty, bits := 0, out := [] }
  if s.bits > 0 then s.out ++ [letter (B.rest s.buffer (5 - s.bits))] else s.out

end Buffer

def u32Buffer : Buffer UInt32 where
  empty := 0
  intake buffer byte := (buffer <<< 8) ||| byte.toUInt32
  group buffer bits := ((buffer >>> UInt32.ofNat bits) &&& 0x1f).toNat
  rest buffer n := ((buffer <<< UInt32.ofNat n) &&& 0x1f).toNat

def encodeBase32Lower : List UInt8 → List Char := u32Buffer.encode

/-! A number under JavaScript's bit operations is a signed word; `>>>` alone gives an unsigned one. -/
namespace Js

def toInt32 (n : Nat) : Int32 := (UInt32.ofNat n).toInt32

def shl (a : Int32) (n : Nat) : Int32 := (a.toUInt32 <<< UInt32.ofNat n).toInt32

def ushr (a : Int32) (n : Nat) : Nat := (a.toUInt32 >>> UInt32.ofNat n).toNat

end Js

def int32Buffer : Buffer Int32 where
  empty := 0
  intake buffer byte := Js.shl buffer 8 ||| Js.toInt32 byte.toNat
  group buffer bits := (Js.toInt32 (Js.ushr buffer bits) &&& 0x1f).toUInt32.toNat
  rest buffer n := (Js.shl buffer n &&& 0x1f).toUInt32.toNat

def base32LowerEncode : List UInt8 → List Char := int32Buffer.encode

structure JsText where
  toLowerCase : Char → List Char
  lower_letter : ∀ c ∈ alphabet, toLowerCase c = [c]
  /-- White space, as `parseInt` skips it. -/
  isSpace : Char → Bool
  space_digit : ∀ n < 16, isSpace (hexDigit n) = false

/-- `B32_REVERSE` -/
def reverse : List Char → Option Nat
  | [c] => alphabet.idxOf? c
  | _ => none

structure Unpacking where
  buffer : Int32 := 0
  bits : Nat := 0
  out : List UInt8 := []

def Unpacking.step (s : Unpacking) (val : Nat) : Unpacking :=
  let buffer := Js.shl s.buffer 5 ||| Js.toInt32 val
  let bits := s.bits + 5
  if bits ≥ 8 then
    { buffer, bits := bits - 8
      out := s.out ++ [UInt8.ofNat (Js.toInt32 (Js.ushr buffer (bits - 8)) &&& 0xff).toUInt32.toNat] }
  else { s with buffer, bits }

def decodeFrom (js : JsText) : List Char → Unpacking → Except String (List UInt8)
  | [], s => .ok s.out
  | c :: rest, s =>
    match reverse (js.toLowerCase c) with
    | none => .error s!"base32: invalid char \"{c}\""
    | some val => decodeFrom js rest (s.step val)

def base32LowerDecode (js : JsText) (input : List Char) : Except String (List UInt8) := decodeFrom js input {}

structure Buffer.Exact {W : Type} (B : Buffer W) (pattern : W → Nat) : Prop where
  intake : ∀ w byte bits, bits ≤ 24 → pattern (B.intake w byte) % 2 ^ (bits + 8) = pattern w % 2 ^ bits * 2 ^ 8 + byte.toNat
  group : ∀ w bits, bits ≤ 27 → B.group w bits = pattern w / 2 ^ bits % 2 ^ 5
  rest : ∀ w n, n ≤ 5 → B.rest w n = pattern w * 2 ^ n % 2 ^ 5

variable {n : Nat}

theorem toNat_shl (a : UInt32) (lt : n < 32) : (a <<< UInt32.ofNat n).toNat = a.toNat * 2 ^ n % 2 ^ 32 := by
  rw [UInt32.toNat_shiftLeft, UInt32.toNat_ofNat_of_lt' (lt.trans (by decide)), Nat.mod_eq_of_lt lt, Nat.shiftLeft_eq]

theorem toNat_shr (a : UInt32) (lt : n < 32) : (a >>> UInt32.ofNat n).toNat = a.toNat / 2 ^ n := by
  rw [UInt32.toNat_shiftRight, UInt32.toNat_ofNat_of_lt' (lt.trans (by decide)), Nat.mod_eq_of_lt lt, Nat.shiftRight_eq_div_pow]

theorem toNat_low (a : UInt32) : (a &&& 0x1f).toNat = a.toNat % 2 ^ 5 := by
  rw [UInt32.toNat_and]
  exact Nat.and_two_pow_sub_one_eq_mod a.toNat 5

theorem exact_u32Buffer : u32Buffer.Exact UInt32.toNat where
  intake w byte bits le := by
    have shifted := toNat_shl w (show 8 < 32 by decide)
    simp only [u32Buffer, UInt32.toNat_or, UInt8.toNat_toUInt32]
    rw [show (8 : UInt32) = UInt32.ofNat 8 from rfl, shifted]
    exact shiftIn_mod byte.toNat_lt (by omega)
  group w bits le := by
    simp only [u32Buffer]
    rw [toNat_low, toNat_shr w (by omega)]
  rest w n le := by
    simp only [u32Buffer]
    rw [toNat_low, toNat_shl w (by omega), Nat.mod_mod_of_dvd _ (by decide)]

theorem exact_int32Buffer : int32Buffer.Exact (fun w => w.toUInt32.toNat) where
  intake w byte bits le := by
    have same : UInt32.ofNat byte.toNat = byte.toUInt32 := by
      apply UInt32.toNat_inj.mp
      rw [UInt8.toNat_toUInt32, UInt32.toNat_ofNat_of_lt' (byte.toNat_lt.trans (by decide))]
    have agrees : (int32Buffer.intake w byte).toUInt32 = u32Buffer.intake w.toUInt32 byte := by
      simp only [int32Buffer, u32Buffer, Js.shl, Js.toInt32, same]
      rfl
    rw [agrees]
    exact exact_u32Buffer.intake w.toUInt32 byte bits le
  group w bits le := by
    have agrees : int32Buffer.group w bits = u32Buffer.group w.toUInt32 bits := by
      simp only [int32Buffer, Js.toInt32, Js.ushr, UInt32.ofNat_toNat]
      rfl
    rw [agrees]
    exact exact_u32Buffer.group w.toUInt32 bits le
  rest w n le := exact_u32Buffer.rest w.toUInt32 n le

structure Encodes {W : Type} (pattern : W → Nat) (input : List UInt8) (s : Packing W) (digits : List Nat) : Prop where
  out : s.out = digits.map letter
  regrouped : Regrouped 8 5 (input.map UInt8.toNat) digits (pattern s.buffer % 2 ^ s.bits) s.bits

section
variable {W : Type} {B : Buffer W} {pattern : W → Nat} {input : List UInt8}

theorem encodes_drain (exact_ : B.Exact pattern) {buffer : W} (fuel : Nat) {bits : Nat} {out : List Char} {digits : List Nat}
    (holds : Encodes pattern input { buffer, bits, out } digits) (few : bits ≤ 32) (enough : bits ≤ fuel) :
    ∃ digits, Encodes pattern input (B.drain buffer fuel bits out) digits ∧ (B.drain buffer fuel bits out).bits < 5 := by
  induction fuel generalizing bits out digits with
  | zero => exact ⟨digits, holds, by change bits < 5; omega⟩
  | succ fuel ih =>
    unfold Buffer.drain
    by_cases more : bits ≥ 5
    · rw [if_pos more]
      refine @ih (bits - 5) _ (digits ++ [B.group buffer (bits - 5)]) ⟨?_, ?_⟩ (by omega) (by omega)
      · have written := holds.out
        dsimp only at written ⊢
        rw [written, List.map_append, List.map_singleton]
      · have whole : bits - 5 + 5 = bits := by omega
        have regrouped := holds.regrouped
        dsimp only at regrouped ⊢
        rw [← whole] at regrouped
        have emitted := regrouped.emit
        rwa [Nat.pow_add, Nat.mod_mul_right_div_self, Nat.mod_mod_of_dvd _ (Nat.dvd_mul_right ..),
          ← exact_.group buffer _ (by omega)] at emitted
    · rw [if_neg more]
      exact ⟨digits, holds, by change bits < 5; omega⟩

theorem encodes_step (exact_ : B.Exact pattern) {s : Packing W} {digits : List Nat} (holds : Encodes pattern input s digits)
    (few : s.bits < 5) (byte : UInt8) :
    ∃ digits, Encodes pattern (input ++ [byte]) (B.step s byte) digits ∧ (B.step s byte).bits < 5 := by
  refine encodes_drain exact_ (s.bits + 8) ⟨holds.out, ?_⟩ (by omega) le_rfl
  have pushed := holds.regrouped.push (d := byte.toNat) byte.toNat_lt
  rw [← exact_.intake s.buffer byte s.bits (by omega)] at pushed
  rw [List.map_append]
  exact pushed

theorem encodes_run (exact_ : B.Exact pattern) (blank : pattern B.empty = 0) (input : List UInt8) :
    ∃ digits, Encodes pattern input (input.foldl B.step { buffer := B.empty, bits := 0, out := [] }) digits ∧
      (input.foldl B.step { buffer := B.empty, bits := 0, out := [] }).bits < 5 := by
  induction input using List.reverseRecOn with
  | nil =>
    refine ⟨[], ⟨rfl, ?_⟩, Nat.zero_lt_succ 4⟩
    rw [List.foldl_nil, blank]
    exact .start 8 5
  | append_singleton input byte ih =>
    obtain ⟨digits, holds, few⟩ := ih
    rw [List.foldl_append]
    exact encodes_step exact_ holds few byte

def padding (n : Nat) : Nat := (5 - 8 * n % 5) % 5

theorem encode_packed (exact_ : B.Exact pattern) (blank : pattern B.empty = 0) (input : List UInt8) :
    ∃ digits, B.encode input = digits.map letter ∧ Packed 8 5 (padding input.length) (input.map UInt8.toNat) digits := by
  obtain ⟨digits, holds, few⟩ := encodes_run exact_ blank input
  unfold Buffer.encode
  generalize input.foldl B.step { buffer := B.empty, bits := 0, out := [] } = s at holds few
  obtain ⟨out, regrouped⟩ := holds
  have count := regrouped.count
  rw [List.length_map] at count
  dsimp only
  by_cases left : s.bits > 0
  · rw [if_pos left]
    have pad : padding input.length = 5 - s.bits := by
      unfold padding
      omega
    have flushed := regrouped.flush (by omega)
    have last : pattern s.buffer % 2 ^ s.bits * 2 ^ (5 - s.bits) = B.rest s.buffer (5 - s.bits) := by
      rw [exact_.rest _ _ (by omega), ← Nat.mul_mod_mul_right, ← Nat.pow_add, Nat.add_sub_cancel' few.le]
    rw [last] at flushed
    rw [pad]
    refine ⟨_, ?_, flushed⟩
    rw [out, List.map_append, List.map_singleton]
  · rw [if_neg left]
    have none_ : s.bits = 0 := by omega
    have pad : padding input.length = 0 := by
      unfold padding
      omega
    rw [none_] at regrouped
    exact ⟨digits, out, pad ▸ regrouped.packed⟩

end

theorem u32_packed (input : List UInt8) : ∃ digits, encodeBase32Lower input = digits.map letter ∧
    Packed 8 5 (padding input.length) (input.map UInt8.toNat) digits :=
  encode_packed exact_u32Buffer rfl input

theorem int32_packed (input : List UInt8) : ∃ digits, base32LowerEncode input = digits.map letter ∧
    Packed 8 5 (padding input.length) (input.map UInt8.toNat) digits :=
  encode_packed exact_int32Buffer rfl input

theorem base32LowerEncode_eq (input : List UInt8) : base32LowerEncode input = encodeBase32Lower input := by
  obtain ⟨js, written, packed⟩ := int32_packed input
  obtain ⟨rust, written', packed'⟩ := u32_packed input
  rw [written, written', packed.unique packed' (by decide)]

structure Decodes (vals : List Nat) (s : Unpacking) : Prop where
  regrouped : Regrouped 5 8 vals (s.out.map UInt8.toNat) (s.buffer.toUInt32.toNat % 2 ^ s.bits) s.bits
  few : s.bits < 8

theorem toNat_byteAt (buffer : Int32) (lt : n < 32) :
    (UInt8.ofNat (Js.toInt32 (Js.ushr buffer n) &&& 0xff).toUInt32.toNat).toNat = buffer.toUInt32.toNat / 2 ^ n % 2 ^ 8 := by
  have masked : (Js.toInt32 (Js.ushr buffer n) &&& 0xff).toUInt32.toNat = buffer.toUInt32.toNat / 2 ^ n % 2 ^ 8 := by
    rw [Js.toInt32, Js.ushr, UInt32.ofNat_toNat, Int32.toUInt32_and, UInt32.toNat_and]
    change (buffer.toUInt32 >>> UInt32.ofNat n).toNat &&& 2 ^ 8 - 1 = _
    rw [Nat.and_two_pow_sub_one_eq_mod, toNat_shr _ lt]
  rw [masked]
  exact UInt8.toNat_ofNat_of_lt' (show _ < 2 ^ 8 from Nat.mod_lt _ (by decide))

theorem decodes_step {vals : List Nat} {s : Unpacking} (holds : Decodes vals s) {val : Nat} (small : val < 2 ^ 5) :
    Decodes (vals ++ [val]) (s.step val) := by
  have few := holds.few
  have pushed := holds.regrouped.push small
  have buffered : (Js.shl s.buffer 5 ||| Js.toInt32 val).toUInt32.toNat = (s.buffer.toUInt32.toNat * 2 ^ 5 % 2 ^ 32) ||| val := by
    rw [Int32.toUInt32_or, UInt32.toNat_or]
    congr 1
    · exact toNat_shl _ (by decide)
    · exact UInt32.toNat_ofNat_of_lt' (small.trans (by decide))
  have low := shiftIn_mod (w := 32) (k := 5) (x := s.buffer.toUInt32.toNat) small (show s.bits + 5 ≤ 32 by omega)
  rw [← buffered] at low
  rw [← low] at pushed
  unfold Unpacking.step
  generalize Js.shl s.buffer 5 ||| Js.toInt32 val = buffer at pushed
  dsimp only
  by_cases full : s.bits + 5 ≥ 8
  · rw [if_pos full]
    have whole : s.bits + 5 - 8 + 8 = s.bits + 5 := by omega
    rw [← whole] at pushed
    have emitted := pushed.emit
    rw [Nat.pow_add, Nat.mod_mul_right_div_self, Nat.mod_mod_of_dvd _ (Nat.dvd_mul_right ..)] at emitted
    refine ⟨?_, by dsimp only; omega⟩
    rw [List.map_append, List.map_singleton, toNat_byteAt _ (by omega)]
    exact emitted
  · rw [if_neg full]
    exact ⟨pushed, by dsimp only; omega⟩

theorem reverse_letter : ∀ d < 32, reverse [letter d] = some d := by decide

theorem letter_mem : ∀ d < 32, letter d ∈ alphabet := by decide

theorem decodeFrom_letters (js : JsText) (digits : List Nat) (small : ∀ d ∈ digits, d < 2 ^ 5) {vals : List Nat}
    {s : Unpacking} (holds : Decodes vals s) :
    ∃ s', decodeFrom js (digits.map letter) s = .ok s'.out ∧ Decodes (vals ++ digits) s' := by
  induction digits generalizing vals s with
  | nil => exact ⟨s, rfl, by rwa [List.append_nil]⟩
  | cons d rest ih =>
    obtain ⟨here, later⟩ := List.forall_mem_cons.mp small
    obtain ⟨s', decoded, holds'⟩ := ih later (decodes_step holds here)
    refine ⟨s', ?_, by simpa using holds'⟩
    rw [List.map_cons, decodeFrom, js.lower_letter _ (letter_mem d here), reverse_letter d here]
    exact decoded

theorem base32LowerDecode_encode (js : JsText) (input : List UInt8) :
    base32LowerDecode js (base32LowerEncode input) = .ok input := by
  obtain ⟨digits, written, packed⟩ := int32_packed input
  have start : Decodes [] {} := ⟨.start 5 8, by decide⟩
  obtain ⟨s, decoded, holds⟩ := decodeFrom_letters js digits packed.digits start
  have bytes : ∀ d ∈ input.map UInt8.toNat, d < 2 ^ 8 := by
    intro d member
    obtain ⟨b, -, rfl⟩ := List.mem_map.mp member
    exact b.toNat_lt
  have back := packed.inverse bytes holds.regrouped (by unfold padding; omega) holds.few
  have same : s.out = input := List.map_injective_iff.mpr (fun _ _ => UInt8.toNat_inj.mp) back
  rw [base32LowerDecode, written, decoded, same]

end Hoverfly.Cid
