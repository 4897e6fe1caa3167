import Mathlib.Data.List.Forall2
import Mathlib.Data.List.TakeWhile
import Hoverfly.Lib.Checked
import Hoverfly.Lib.JsonReader
import Hoverfly.Relay.Pay

/-! A cheque as JSON. The addresses and the signature are read from the parsed document; the amount is
looked for in the bytes, because the parser would round it. -/
namespace Hoverfly.Cheque
open Lib Relay

deriving instance DecidableEq for SignedCheque

def maxChequeJson : Nat := 4096

def payoutKey : List UInt8 := utf8 "CumulativePayout"

def secp256k1nHalf : List UInt8 :=
  [0x7F, 0xFF, 0xFF, 0xFF, 0xFF, 0xFF, 0xFF, 0xFF, 0xFF, 0xFF, 0xFF, 0xFF, 0xFF, 0xFF, 0xFF, 0xFF,
   0x5D, 0x57, 0x6E, 0x73, 0x57, 0xA4, 0x50, 0x1D, 0xDF, 0xE9, 0x2F, 0x46, 0x68, 0x1B, 0x20, 0xA0]

inductive SwapError where
  | json (reason : String)
deriving DecidableEq

def SwapError.message : SwapError → String
  | .json reason => s!"json encode: {reason}"

inductive SignerError where
  | alloy (reason : String)
deriving DecidableEq

def SignerError.message : SignerError → String
  | .alloy reason => s!"alloy signer: {reason}"

/-- The libraries: the JSON parser, the base64 decoder, and how an overflow of a `U256` prints. -/
structure Codec where
  parse : List UInt8 → Except String Json
  decode64 : List UInt8 → Except String (List UInt8)
  overflow : String

def checkCanonicalSignature (sig : List UInt8) : Except SignerError Unit :=
  if sig.length ≠ 65 then .error (.alloy s!"signature must be 65 bytes, got {sig.length}")
  else if sig.getD 64 0 ≠ 27 ∧ sig.getD 64 0 ≠ 28 then
    .error (.alloy s!"non-canonical v={sig.getD 64 0}: ERC20SimpleSwap requires 27 or 28, so this cheque would revert at cashout")
  else if secp256k1nHalf < (sig.drop 32).take 32 then
    .error (.alloy "non-canonical high-s signature: ERC20SimpleSwap rejects s > secp256k1n/2, so this cheque would revert at cashout")
  else .ok ()

def jsonAddress (v : Json) (field : String) : Except SwapError EthAddr :=
  match (v.get (utf8 field)).bind Json.asStr with
  | none => .error (.json s!"missing {field}")
  | some s =>
    match hexDecode (dropUpperMarks (dropMarks (s.map fun b => Char.ofNat b.toNat))) with
    | .error e => .error (.json s!"{field} not hex: {e}")
    | .ok raw =>
      if h : raw.length = 20 then .ok ⟨raw, h⟩
      else .error (.json s!"{field} must be 20 bytes, got {raw.length}")

def isAsciiWhitespace (b : UInt8) : Bool := isBlank b || b = 0x0c

def readAmount (codec : Codec) (after : List UInt8) : Except SwapError Nat :=
  match after.dropWhile isAsciiWhitespace with
  | [] => .error (.json "CumulativePayout is not a field")
  | b :: rest =>
    if b ≠ 0x3a then .error (.json "CumulativePayout is not a field")
    else
      let value := rest.dropWhile isAsciiWhitespace
      let digits := value.takeWhile isDigit
      if digits = [] then .error (.json "CumulativePayout must be a bare JSON integer, as Go emits it")
      else if (value.dropWhile isDigit).head?.any fun b => !(b = 0x2c || b = 0x7d || isAsciiWhitespace b) then
        .error (.json "CumulativePayout must be a bare JSON integer, as Go emits it")
      else if decimal digits < 2 ^ 256 then .ok (decimal digits)
      else .error (.json s!"CumulativePayout overflows u256: {codec.overflow}")

def extractCumulative (codec : Codec) (bytes : List UInt8) : Except SwapError Nat :=
  match occurrences (quoted payoutKey) bytes with
  | [] => .error (.json "missing CumulativePayout")
  | [after] => readAmount codec after
  | _ => .error (.json "duplicate CumulativePayout key")

def decodeSignedChequeJson (codec : Codec) (bytes : List UInt8) : Except SwapError SignedCheque := do
  if bytes.length > maxChequeJson then
    .error (.json s!"cheque body too large: {bytes.length} bytes (max {maxChequeJson})")
  else do
    let v ← (codec.parse bytes).mapError .json
    let chequebook ← jsonAddress v "Chequebook"
    let beneficiary ← jsonAddress v "Beneficiary"
    let cumulativePayout ← extractCumulative codec bytes
    match (v.get (utf8 "Signature")).bind Json.asStr with
    | none => .error (.json "missing Signature")
    | some text => do
      let sig ← (codec.decode64 text).mapError fun e => .json s!"Signature base64: {e}"
      let _ ← (checkCanonicalSignature sig).mapError fun e => .json e.message
      if h : sig.length = 65 then .ok { chequebook, beneficiary, cumulativePayout, signature := ⟨sig, h⟩ }
      -- not reached: the check has seen the length
      else .error (.json "")

theorem plain_payoutKey : Plain payoutKey where
  letters := by decide +kernel
  start := ⟨0x43, utf8 "umulativePayout", by decide +kernel, rfl, rfl, rfl⟩

theorem whitespace_alone :
    ∀ b : UInt8, isAsciiWhitespace b = true → isPunct b = false ∧ b ≠ 0x22 ∧ isLitStart b = false :=
  forall_byte (by decide +kernel)

theorem litByte_goes_on : ∀ b : UInt8, isLitByte b = true → (b = 0x2c || b = 0x7d || isAsciiWhitespace b) = false :=
  forall_byte (by decide +kernel)

section
variable {codec : Codec} {after : List UInt8} {n : Nat}

theorem readAmount_ok (out : readAmount codec after = .ok n) :
    ∃ rest, after.dropWhile isAsciiWhitespace = 0x3a :: rest ∧
      (rest.dropWhile isAsciiWhitespace).takeWhile isDigit ≠ [] ∧
      ((rest.dropWhile isAsciiWhitespace).dropWhile isDigit).head?.any
        (fun b => !(b = 0x2c || b = 0x7d || isAsciiWhitespace b)) = false ∧
      n = decimal ((rest.dropWhile isAsciiWhitespace).takeWhile isDigit) := by
  unfold readAmount at out
  split at out
  · exact nomatch out
  · rename_i b rest found
    split at out
    · exact nomatch out
    rename_i colon
    dsimp only at out
    split at out
    · exact nomatch out
    rename_i digits
    split at out
    · exact nomatch out
    rename_i ended
    split at out
    · cases out
      rw [not_not.mp colon] at found
      exact ⟨rest, found, digits, by simpa using ended, rfl⟩
    · exact nomatch out

theorem readAmount_spelled {ts : List Token} (spelled : Spelled after ts) (out : readAmount codec after = .ok n) :
    ∃ text more us, ts = .punct 0x3a :: .lit text :: us ∧ Spelled more us ∧ text ≠ [] ∧ text.all isLitByte = true ∧
      ((text ++ more).dropWhile isDigit).head?.any (fun b => !(b = 0x2c || b = 0x7d || isAsciiWhitespace b)) = false ∧
      n = decimal ((text ++ more).takeWhile isDigit) := by
  obtain ⟨rest, found, digits, ended, rfl⟩ := readAmount_ok out
  have skipped := spelled.skip whitespace_alone
  rw [found] at skipped
  obtain ⟨us, rfl, value⟩ := skipped.of_punct rfl
  have value := value.skip whitespace_alone
  cases text : rest.dropWhile isAsciiWhitespace with
  | nil =>
    rw [text] at digits
    exact absurd rfl digits
  | cons d tail =>
    rw [text] at value digits ended
    have digit : isDigit d = true := by
      by_contra other
      rw [List.takeWhile_cons_of_neg other] at digits
      exact digits rfl
    obtain ⟨word, more, vs, rfl, same, some_, bytes, later⟩ := value.of_digit digit
    rw [same] at ended ⊢
    exact ⟨word, more, vs, rfl, later, some_, bytes, ended, rfl⟩

theorem natural_of_ended {text more : List UInt8} {b : UInt8} {us : List Token}
    (later : Spelled more (.punct b :: us)) (some_ : text ≠ []) (bytes : text.all isLitByte = true)
    (ended : ((text ++ more).dropWhile isDigit).head?.any
      (fun b => !(b = 0x2c || b = 0x7d || isAsciiWhitespace b)) = false) :
    (Json.lit text).natural = some (decimal ((text ++ more).takeWhile isDigit)) := by
  have digits : ∀ d ∈ text, isDigit d = true := by
    rw [← List.dropWhile_eq_nil_iff]
    cases left : text.dropWhile isDigit with
    | nil => rfl
    | cons c tail =>
      have member : c ∈ text := (List.dropWhile_sublist isDigit).subset (left ▸ List.mem_cons_self ..)
      have goes := litByte_goes_on c (List.all_eq_true.mp bytes c member)
      have head : ((text ++ more).dropWhile isDigit).head? = some c := by
        rw [List.dropWhile_append, left]
        rfl
      rw [head, Option.any_some, goes] at ended
      exact nomatch ended
  have stops : more.takeWhile isDigit = [] := by
    cases more with
    | nil => rfl
    | cons c tail =>
      refine List.takeWhile_cons_of_neg fun digit => ?_
      obtain ⟨blank, quote, punct⟩ := digit_alone c digit
      rcases later.cons_cases with ⟨space, -⟩ | ⟨t, rest, vs, valid, same, eq, -⟩
      · exact absurd (space.symm.trans blank) (by decide)
      · cases eq
        have mark : isPunct c = true := (List.cons.inj same).1 ▸ valid
        exact absurd (mark.symm.trans punct) (by decide)
  rw [List.takeWhile_append_of_pos digits, stops, List.append_nil, Json.natural]
  exact if_pos ⟨some_, List.all_eq_true.mpr digits⟩

theorem extractCumulative_spelled {v : Json} {bytes : List UInt8} (spells : v.Spells bytes)
    (out : extractCumulative codec bytes = .ok n) :
    ∃ name w, Json.Member name w v ∧ Ends payoutKey name ∧ w.natural = some n ∧
      ∀ other u, Json.Member other u v → Ends payoutKey other → u = w := by
  have hits := occurrences_spelled plain_payoutKey spells
  unfold extractCumulative at out
  split at out
  · exact nomatch out
  · rename_i after found
    rw [found, List.forall₂_cons_left_iff] at hits
    obtain ⟨us, rest, spelled, none_, eq⟩ := hits
    rw [List.forall₂_nil_left_iff] at none_
    subst none_
    obtain ⟨s, single, rfl⟩ := List.map_eq_singleton_iff.mp eq
    have mine : s ∈ strings (v.toks []) ∧ Ends payoutKey s.1 := by
      have member := single ▸ List.mem_singleton_self s
      simpa using List.mem_filter.mp member
    have only : ∀ u ∈ strings (v.toks []), Ends payoutKey u.1 → u = s := by
      intro u member ends
      exact List.mem_singleton.mp (single ▸ List.mem_filter.mpr ⟨member, by simpa using ends⟩)
    obtain ⟨text, more, us, follows, later, some_, bytes, ended, rfl⟩ := readAmount_spelled spelled out
    rcases Json.strings_toks v (k := []) nofun mine.1 with outside | plain | ⟨w, b, rest, member, eq, -⟩
    · exact nomatch outside
    · exact absurd (congrArg List.head? follows) plain
    · rw [follows] at eq
      obtain ⟨rfl, rfl⟩ := Json.eq_lit_of_toks (List.cons.inj eq).2.symm
      refine ⟨s.1, _, member, mine.2, natural_of_ended later some_ bytes ended, fun other u place ends => ?_⟩
      obtain ⟨k, spelledThere⟩ := place.mem_strings []
      have same := only _ spelledThere ends
      rw [← same] at follows
      exact (Json.eq_lit_of_toks (List.cons.inj follows).2).1
  · exact nomatch out

end

theorem decodeSignedChequeJson_ok_iff {codec : Codec} {bytes : List UInt8} {c : SignedCheque} :
    decodeSignedChequeJson codec bytes = .ok c ↔
      bytes.length ≤ maxChequeJson ∧ ∃ v text, codec.parse bytes = .ok v ∧
        jsonAddress v "Chequebook" = .ok c.chequebook ∧ jsonAddress v "Beneficiary" = .ok c.beneficiary ∧
        extractCumulative codec bytes = .ok c.cumulativePayout ∧
        (v.get (utf8 "Signature")).bind Json.asStr = some text ∧ codec.decode64 text = .ok c.signature.val ∧
        checkCanonicalSignature c.signature.val = .ok () := by
  constructor
  · intro out
    unfold decodeSignedChequeJson at out
    split at out
    · exact nomatch out
    rename_i short
    obtain ⟨v, parsed, out⟩ := bind_ok out
    obtain ⟨chequebook, first, out⟩ := bind_ok out
    obtain ⟨beneficiary, second, out⟩ := bind_ok out
    obtain ⟨amount, scanned, out⟩ := bind_ok out
    split at out
    · exact nomatch out
    rename_i text found
    obtain ⟨sig, decoded, out⟩ := bind_ok out
    obtain ⟨⟨⟩, canonical, out⟩ := bind_ok out
    split at out
    · cases out
      exact ⟨Nat.not_lt.mp short, v, text, mapError_ok parsed, first, second, scanned, found, mapError_ok decoded,
        mapError_ok canonical⟩
    · exact nomatch out
  · rintro ⟨short, v, text, parsed, first, second, scanned, found, decoded, canonical⟩
    unfold decodeSignedChequeJson
    rw [if_neg (Nat.not_lt.mpr short), parsed]
    simp only [Except.mapError, bind, Except.bind, first, second, scanned, found, decoded, canonical,
      dif_pos c.signature.property]

/-- The document is an object, and its own members are what the cheque says. -/
def States (codec : Codec) (bytes : List UInt8) (c : SignedCheque) : Prop :=
  ∃ members, codec.parse bytes = .ok (.obj members) ∧
    ((Json.obj members).get payoutKey).bind Json.natural = some c.cumulativePayout ∧
    jsonAddress (.obj members) "Chequebook" = .ok c.chequebook ∧
    jsonAddress (.obj members) "Beneficiary" = .ok c.beneficiary ∧
    ∃ text, ((Json.obj members).get (utf8 "Signature")).bind Json.asStr = some text ∧
      codec.decode64 text = .ok c.signature.val

def statedAmount (codec : Codec) (bytes : List UInt8) : Option Nat :=
  (codec.parse bytes).toOption.bind fun v => (v.get payoutKey).bind Json.natural

theorem states_iff_amount {codec : Codec} {bytes : List UInt8} {c : SignedCheque}
    (accepted : decodeSignedChequeJson codec bytes = .ok c) :
    States codec bytes c ↔ statedAmount codec bytes = some c.cumulativePayout := by
  obtain ⟨-, v, text, parsed, first, second, -, found, decoded, -⟩ := decodeSignedChequeJson_ok_iff.mp accepted
  have own : statedAmount codec bytes = (v.get payoutKey).bind Json.natural := by
    rw [statedAmount, parsed]
    rfl
  rw [own]
  constructor
  · rintro ⟨members, read, states, -⟩
    cases parsed.symm.trans read
    exact states
  · intro states
    cases v with
    | obj members => exact ⟨members, parsed, states, first, second, text, found, decoded⟩
    | _ => exact nomatch states

/-- The document has an amount of its own, and every member at any depth whose name is spelled so that it ends
in the quoted key states the same amount. -/
def Agrees (v : Json) : Prop :=
  ∃ n, (v.get payoutKey).bind Json.natural = some n ∧
    ∀ name w, Json.Member name w v → Ends payoutKey name → w.natural = some n

theorem decode_states_iff (codec : Codec) (sound : ∀ b v, codec.parse b = .ok v → v.Spells b) (bytes : List UInt8)
    (c : SignedCheque) (accepted : decodeSignedChequeJson codec bytes = .ok c) :
    States codec bytes c ↔ ∃ v, codec.parse bytes = .ok v ∧ Agrees v := by
  obtain ⟨-, v, -, parsed, -, -, scanned, -⟩ := decodeSignedChequeJson_ok_iff.mp accepted
  obtain ⟨name, w, member, ends, amount, only⟩ := extractCumulative_spelled (sound bytes v parsed) scanned
  rw [states_iff_amount accepted, statedAmount, parsed]
  constructor
  · intro states
    refine ⟨v, rfl, c.cumulativePayout, states, fun other u place spelled => ?_⟩
    rw [only other u place spelled, amount]
  · rintro ⟨_, ⟨⟩, n, states, agree⟩
    have same : n = c.cumulativePayout := Option.some.inj ((agree name w member ends).symm.trans amount)
    exact same ▸ states

def byReader : Codec where
  parse := Json.read
  decode64 text := (base64Decode text).elim (.error "Invalid padding") .ok
  overflow := "the value is too large to fit the target type"

theorem length_zerosThen (v : UInt8) : (List.replicate 64 0 ++ [v]).length = 65 := rfl

def someSignature : Bytes 65 := ⟨List.replicate 64 0 ++ [27], length_zerosThen 27⟩

def sampleCheque (amount : Nat) : SignedCheque :=
  ⟨Bytes.replicate 20 0x11, Bytes.replicate 20 0x22, amount, someSignature⟩

def sampleDocument (more : String) : List UInt8 :=
  utf8 ("\x7b\"Chequebook\":\"0x1111111111111111111111111111111111111111\","
    ++ "\"Beneficiary\":\"0x2222222222222222222222222222222222222222\","
    ++ "\"Signature\":\"AAAAAAAAAAAAAAAAAAAAAAAAAAAAAAAAAAAAAAAAAAAAAAAAAAAAAAAAAAAAAAAAAAAAAAAAAAAAAAAAAAAAABs=\","
    ++ more ++ "\x7d")

/-- A document with its own amount and no other. -/
theorem decode_states_flat :
    let flat := sampleDocument "\"CumulativePayout\":5"
    decodeSignedChequeJson byReader flat = .ok (sampleCheque 5) ∧ ∃ v, byReader.parse flat = .ok v ∧ Agrees v := by
  intro flat
  have accepted : decodeSignedChequeJson byReader flat = .ok (sampleCheque 5) := by decide +kernel
  have states : States byReader flat (sampleCheque 5) := (states_iff_amount accepted).mpr (by decide +kernel)
  exact ⟨accepted, (decode_states_iff byReader (fun _ _ => Json.read_sound) _ _ accepted).mp states⟩

/-- The key one level down is taken for the document's own: where the document has no amount, and where it
states another one under a name that it spells with an escape. -/
theorem decode_nested :
    let nested := sampleDocument "\"memo\":\x7b\"CumulativePayout\":5\x7d"
    let escaped := sampleDocument "\"CumulativePayou\\u0074\":999,\"memo\":\x7b\"CumulativePayout\":5\x7d"
    decodeSignedChequeJson byReader nested = .ok (sampleCheque 5) ∧ statedAmount byReader nested = none ∧
    decodeSignedChequeJson byReader escaped = .ok (sampleCheque 5) ∧ statedAmount byReader escaped = some 999 ∧
    ¬States byReader nested (sampleCheque 5) ∧ ¬States byReader escaped (sampleCheque 5) := by
  intro nested escaped
  have first : decodeSignedChequeJson byReader nested = .ok (sampleCheque 5) := by decide +kernel
  have second : decodeSignedChequeJson byReader escaped = .ok (sampleCheque 5) := by decide +kernel
  have none_ : statedAmount byReader nested = none := by decide +kernel
  have other : statedAmount byReader escaped = some 999 := by decide +kernel
  refine ⟨first, none_, second, other, fun states => ?_, fun states => ?_⟩
  · exact nomatch none_.symm.trans ((states_iff_amount first).mp states)
  · exact nomatch other.symm.trans ((states_iff_amount second).mp states)

end Hoverfly.Cheque
