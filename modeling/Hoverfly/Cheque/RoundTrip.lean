import Mathlib.Data.Nat.Digits.Defs
import Hoverfly.Cheque.Decode

/-! What `encodeSignedChequeJson` writes is read back: the scan finds the amount in every document it writes. -/
namespace Hoverfly.Cheque
open Lib Relay

def encodeSignedChequeJson (chequebook beneficiary : EthAddr) (cumulativePayout : Nat) (signature : Bytes 65) :
    List UInt8 :=
  utf8 ("\x7b\"Chequebook\":\"0x" ++ hexEncode chequebook.val ++ "\",\"Beneficiary\":\"0x" ++ hexEncode beneficiary.val
    ++ "\",\"CumulativePayout\":" ++ toString cumulativePayout ++ ",\"Signature\":\"")
    ++ base64Encode signature.val ++ utf8 "\"\x7d"

def Codec.Reads (codec : Codec) (bytes : List UInt8) (fields : List (String × List UInt8)) : Prop :=
  ∃ v, codec.parse bytes = .ok v ∧ ∀ f ∈ fields, (v.get (utf8 f.1)).bind Json.asStr = some f.2

theorem Codec.reads_iff {codec : Codec} {bytes : List UInt8} {fields : List (String × List UInt8)} :
    codec.Reads bytes fields ↔
      (codec.parse bytes).toOption.any fun v =>
        fields.all fun f => (v.get (utf8 f.1)).bind Json.asStr = some f.2 := by
  unfold Codec.Reads
  cases codec.parse bytes with
  | error e => simp [Except.toOption]
  | ok v => simp [Except.toOption]

instance (codec : Codec) (bytes : List UInt8) (fields : List (String × List UInt8)) :
    Decidable (codec.Reads bytes fields) :=
  decidable_of_iff _ Codec.reads_iff.symm

section
variable (chequebook beneficiary : EthAddr) (amount : Nat) (signature : Bytes 65)

def afterKey : List Token :=
  [.punct 0x3a, .lit (utf8 (toString amount)), .punct 0x2c, .str (utf8 "Signature"), .punct 0x3a,
    .str (base64Encode signature.val), .punct 0x7d]

def documentTokens : List Token :=
  [.punct 0x7b, .str (utf8 "Chequebook"), .punct 0x3a, .str (utf8 ("0x" ++ hexEncode chequebook.val)), .punct 0x2c,
    .str (utf8 "Beneficiary"), .punct 0x3a, .str (utf8 ("0x" ++ hexEncode beneficiary.val)), .punct 0x2c,
    .str payoutKey] ++ afterKey amount signature

theorem encode_eq_tokens : encodeSignedChequeJson chequebook beneficiary amount signature =
    (documentTokens chequebook beneficiary amount signature).flatMap Token.bytes := by
  have first : utf8 "\x7b\"Chequebook\":\"0x" =
      0x7b :: 0x22 :: (utf8 "Chequebook" ++ 0x22 :: 0x3a :: 0x22 :: utf8 "0x") := by decide +kernel
  have second : utf8 "\",\"Beneficiary\":\"0x" =
      0x22 :: 0x2c :: 0x22 :: (utf8 "Beneficiary" ++ 0x22 :: 0x3a :: 0x22 :: utf8 "0x") := by decide +kernel
  have third : utf8 "\",\"CumulativePayout\":" = 0x22 :: 0x2c :: 0x22 :: (payoutKey ++ [0x22, 0x3a]) := by
    decide +kernel
  have fourth : utf8 ",\"Signature\":\"" = 0x2c :: 0x22 :: (utf8 "Signature" ++ [0x22, 0x3a, 0x22]) := by
    decide +kernel
  have fifth : utf8 "\"\x7d" = [0x22, 0x7d] := by decide +kernel
  simp only [encodeSignedChequeJson, documentTokens, afterKey, utf8_append, first, second, third, fourth, fifth,
    Token.bytes, List.flatMap_cons, List.flatMap_nil, List.cons_append, List.nil_append, List.append_assoc,
    List.append_nil]

theorem marked_noEscape (bs : List UInt8) : ∀ b ∈ utf8 ("0x" ++ hexEncode bs), b ≠ 0x22 ∧ b ≠ 0x5c := by
  rw [utf8_ascii (ascii_marked bs), List.forall_mem_map]
  exact forall_marked (by decide) (by decide) bs

theorem base64_noEscape (bs : List UInt8) : ∀ b ∈ base64Encode bs, b ≠ 0x22 ∧ b ≠ 0x5c :=
  forall_base64Encode (by decide) (by decide) bs

theorem toString_valid : (Token.lit (utf8 (toString amount))).Valid := by
  have digits : ∀ d ∈ utf8 (toString amount), isDigit d = true := fun _ => isDigit_of_toString
  have literal : ∀ d : UInt8, isDigit d = true → isLitStart d = true ∧ isLitByte d = true :=
    forall_byte (by decide +kernel)
  refine ⟨?_, List.all_eq_true.mpr fun d member => (literal d (digits d member)).2⟩
  cases text : utf8 (toString amount) with
  | nil => exact absurd text (toString_ne_nil amount)
  | cons d rest => exact (literal d (digits d (text ▸ List.mem_cons_self ..))).1

theorem documentTokens_valid : ∀ t ∈ documentTokens chequebook beneficiary amount signature, t.Valid := by
  have name : ∀ field ∈ ["Chequebook", "Beneficiary", "CumulativePayout", "Signature"], isRaw (utf8 field) = true :=
    by decide +kernel
  simp only [documentTokens, afterKey, List.cons_append, List.nil_append, List.forall_mem_cons]
  exact ⟨rfl, name _ (by simp), rfl, isRaw_of_noEscape (marked_noEscape _), rfl, name _ (by simp), rfl,
    isRaw_of_noEscape (marked_noEscape _), rfl, name _ (by simp), rfl, toString_valid amount, rfl, name _ (by simp),
    rfl, isRaw_of_noEscape (base64_noEscape _), rfl, nofun⟩

theorem occurrences_encode :
    occurrences (quoted payoutKey) (encodeSignedChequeJson chequebook beneficiary amount signature) =
      [(afterKey amount signature).flatMap Token.bytes] := by
  have address (a : EthAddr) : ¬Ends payoutKey (utf8 ("0x" ++ hexEncode a.val)) := by
    rw [ends_iff_eq (marked_noEscape a.val)]
    intro same
    have length := congrArg List.length same
    rw [length_utf8_marked, a.property] at length
    exact absurd length (by decide +kernel)
  have sig : ¬Ends payoutKey (base64Encode signature.val) := by
    rw [ends_iff_eq (base64_noEscape signature.val)]
    intro same
    have length := congrArg List.length same
    rw [length_base64Encode, signature.property] at length
    exact absurd length (by decide +kernel)
  have others : ∀ field ∈ ["Chequebook", "Beneficiary", "Signature"], ¬Ends payoutKey (utf8 field) := by
    decide +kernel
  have own : Ends payoutKey payoutKey := List.suffix_rfl
  have valid := documentTokens_valid chequebook beneficiary amount signature
  rw [encode_eq_tokens, occurrences_flatMap plain_payoutKey valid]
  simp [documentTokens, afterKey, address, sig, others, own]

end

theorem readAmount_digits (codec : Codec) {digits : List UInt8} (rest : List UInt8) (some_ : digits ≠ [])
    (all : ∀ d ∈ digits, isDigit d = true) (fits : decimal digits < 2 ^ 256) :
    readAmount codec (0x3a :: (digits ++ 0x2c :: rest)) = .ok (decimal digits) := by
  have start : (digits ++ 0x2c :: rest).dropWhile isAsciiWhitespace = digits ++ 0x2c :: rest := by
    cases digits with
    | nil => exact absurd rfl some_
    | cons d tail =>
      have visible : ∀ b : UInt8, isDigit b = true → ¬isAsciiWhitespace b = true := forall_byte (by decide +kernel)
      exact List.dropWhile_cons_of_neg (visible d (all d (List.mem_cons_self ..)))
  have taken : (digits ++ 0x2c :: rest).takeWhile isDigit = digits := by
    rw [List.takeWhile_append_of_pos all, List.takeWhile_cons_of_neg (by decide), List.append_nil]
  have left : (digits ++ 0x2c :: rest).dropWhile isDigit = 0x2c :: rest := by
    rw [List.dropWhile_append_of_pos all, List.dropWhile_cons_of_neg (by decide)]
  rw [readAmount, List.dropWhile_cons_of_neg (by decide)]
  simpa [start, taken, left, some_] using fits

theorem extractCumulative_encode (codec : Codec) (chequebook beneficiary : EthAddr) {amount : Nat}
    (signature : Bytes 65) (fits : amount < 2 ^ 256) :
    extractCumulative codec (encodeSignedChequeJson chequebook beneficiary amount signature) = .ok amount := by
  have value := decimal_toString amount
  have read := readAmount_digits codec (((afterKey amount signature).drop 3).flatMap Token.bytes)
    (toString_ne_nil amount) (fun _ => isDigit_of_toString) (value.symm ▸ fits)
  rw [value] at read
  rw [extractCumulative, occurrences_encode]
  exact read

theorem length_encode (chequebook beneficiary : EthAddr) {amount : Nat} (signature : Bytes 65)
    (fits : amount < 2 ^ 256) :
    (encodeSignedChequeJson chequebook beneficiary amount signature).length ≤ maxChequeJson := by
  have digits : (utf8 (toString amount)).length ≤ 78 := by
    rw [utf8_toString, List.length_map]
    exact Nat.toDigits_length 10 amount 78 (by decide) (fits.trans (by decide))
  have names : (utf8 "Chequebook").length = 10 ∧ (utf8 "Beneficiary").length = 11 ∧ payoutKey.length = 16 ∧
      (utf8 "Signature").length = 9 := by decide +kernel
  rw [encode_eq_tokens]
  simp only [documentTokens, afterKey, Token.bytes, List.flatMap_cons, List.flatMap_nil, List.cons_append,
    List.nil_append, List.length_cons, List.length_append, List.length_nil, length_utf8_marked, length_base64Encode, names,
    chequebook.property, beneficiary.property, signature.property, maxChequeJson]
  omega

theorem jsonAddress_marked {v : Json} {field : String} {a : EthAddr}
    (read : (v.get (utf8 field)).bind Json.asStr = some (utf8 ("0x" ++ hexEncode a.val))) :
    jsonAddress v field = .ok a := by
  have digits : dropUpperMarks (dropMarks ("0x" ++ hexEncode a.val).toList) = a.val.flatMap hexPair := by
    rw [toList_marked, dropMarks, dropMarks_pairs, dropUpperMarks_pairs]
  rw [jsonAddress, read]
  simp only [chars_utf8 (ascii_marked a.val), digits, hexDecode_pairs, a.property, dif_pos]

theorem decodeSignedChequeJson_encode (codec : Codec) (chequebook beneficiary : EthAddr) (amount : Nat)
    (signature : Bytes 65) (fits : amount < 2 ^ 256) (canonical : checkCanonicalSignature signature.val = .ok ())
    (reads : codec.Reads (encodeSignedChequeJson chequebook beneficiary amount signature)
      [("Chequebook", utf8 ("0x" ++ hexEncode chequebook.val)),
        ("Beneficiary", utf8 ("0x" ++ hexEncode beneficiary.val)), ("Signature", base64Encode signature.val)])
    (decodes : codec.decode64 (base64Encode signature.val) = .ok signature.val) :
    decodeSignedChequeJson codec (encodeSignedChequeJson chequebook beneficiary amount signature) =
      .ok ⟨chequebook, beneficiary, amount, signature⟩ := by
  obtain ⟨v, parsed, fields⟩ := reads
  simp only [List.forall_mem_cons] at fields
  obtain ⟨first, second, third, -⟩ := fields
  rw [decodeSignedChequeJson_ok_iff]
  exact ⟨length_encode chequebook beneficiary signature fits, v, _, parsed, jsonAddress_marked first,
    jsonAddress_marked second, extractCumulative_encode codec chequebook beneficiary signature fits, third, decodes,
    canonical⟩

theorem byReader_decode64 (bs : List UInt8) : byReader.decode64 (base64Encode bs) = .ok bs := by
  show (base64Decode (base64Encode bs)).elim (.error "Invalid padding") .ok = Except.ok bs
  rw [base64Decode_encode]
  rfl

/-- An amount above 128 bits. -/
theorem decodeSignedChequeJson_encode_large :
    decodeSignedChequeJson byReader
        (encodeSignedChequeJson (Bytes.replicate 20 0) (Bytes.replicate 20 0xab) (2 ^ 200 + 1) someSignature) =
      .ok ⟨Bytes.replicate 20 0, Bytes.replicate 20 0xab, 2 ^ 200 + 1, someSignature⟩ :=
  decodeSignedChequeJson_encode byReader _ _ _ _ (by decide) (by decide +kernel) (by decide +kernel) (byReader_decode64 _)

end Hoverfly.Cheque
