import Hoverfly.Cid.Base32
import Hoverfly.Lib.Text

/-! A reference as a CID: the crate's encoder, the gateway's encoder and decoder, and how the gateway
tells a content host by its first label. -/
namespace Hoverfly.Cid
open Lib

def cidV1 : Nat := 1
def swarmManifestCodec : Nat := 0xfa
def swarmFeedCodec : Nat := 0xfb
def keccak256Multihash : Nat := 0x1b
def refLen : Nat := 32

namespace Rust

/-- The fuel is for the ten groups of a `u64`. -/
def pushVarint : (fuel : Nat) → (out : List UInt8) → (value : UInt64) → List UInt8
  | 0, out, _ => out
  | fuel + 1, out, value =>
    if value ≥ 0x80 then pushVarint fuel (out ++ [(value.toUInt8 &&& 0x7f) ||| 0x80]) (value >>> 7)
    else out ++ [value.toUInt8]

def header : List UInt8 :=
  [cidV1, swarmManifestCodec, keccak256Multihash, 32].foldl (fun out value => pushVarint 10 out (UInt64.ofNat value)) []

def referenceToCid (reference : Bytes 32) : List Char := 'b' :: encodeBase32Lower (header ++ reference.val)

end Rust

/-- The fuel is for the five groups of 32 bits. -/
def pushVarint : (fuel : Nat) → (out : List Nat) → (value : Nat) → List Nat
  | 0, out, _ => out
  | fuel + 1, out, value =>
    if value ≥ 0x80 then
      pushVarint fuel (out ++ [((Js.toInt32 value &&& 0x7f) ||| 0x80).toUInt32.toNat]) (Js.ushr (Js.toInt32 value) 7)
    else out ++ [value]

def readVarintFrom : List UInt8 → (value : Int32) → (shift pos : Nat) → Except String (Nat × Nat)
  | [], _, _, _ => .error "varint: unexpected end"
  | byte :: rest, value, shift, pos =>
    let value := value ||| Js.shl (Js.toInt32 byte.toNat &&& 0x7f) shift
    if byte &&& 0x80 = 0 then .ok (Js.ushr value 0, pos + 1)
    else if shift + 7 > 35 then .error "varint: too long"
    else readVarintFrom rest value (shift + 7) (pos + 1)

def readVarint (bytes : List UInt8) (offset : Nat) : Except String (Nat × Nat) :=
  readVarintFrom (bytes.drop offset) 0 0 offset

def parseTrimmed (s : List Char) : Option Int :=
  let signed : Int × List Char := match s with
    | '-' :: s => (-1, s)
    | '+' :: s => (1, s)
    | s => (1, s)
  let digits := match signed.2 with
    | '0' :: 'x' :: s => s
    | '0' :: 'X' :: s => s
    | s => s
  match (digits.map hexValue).takeWhile Option.isSome with
  | [] => none
  | some_ => some (signed.1 * (some_.foldl (fun n d => n * 16 + d.getD 0) 0 : Nat))

/-- `Number.parseInt(s, 16)`; `none` is not a number. -/
def parseInt (js : JsText) (s : List Char) : Option Int := parseTrimmed (s.dropWhile js.isSpace)

def hexBytes (js : JsText) : List Char → (offset : Nat) → Except String (List UInt8)
  | a :: b :: rest, offset =>
    match parseInt js [a, b] with
    | none => .error s!"invalid hex at offset {offset}"
    | some byte => (hexBytes js rest (offset + 2)).map (UInt8.ofNat (byte % 256).toNat :: ·)
  | _, _ => .ok []

def clean : List Char → List Char
  | '0' :: 'x' :: rest => rest
  | hex => hex

def hexToBytes (js : JsText) (hex : List Char) : Except String (List UInt8) :=
  let clean := clean hex
  if clean.length % 2 ≠ 0 then .error s!"hex length must be even, got {clean.length}"
  else hexBytes js clean 0

def bytesToHex (bytes : List UInt8) : List Char := bytes.flatMap hexPair

def header (codec : Nat) : List Nat := [cidV1, codec, keccak256Multihash, refLen].foldl (pushVarint 5) []

def referenceToCid (js : JsText) (refHex : List Char) (codec : Nat) : Except String (List Char) := do
  let ref ← hexToBytes js refHex
  if ref.length ≠ refLen then .error s!"swarm reference must be {refLen} bytes, got {ref.length}"
  else .ok ('b' :: base32LowerEncode ((header codec).map UInt8.ofNat ++ ref))

def radix16 (n : Nat) : String := String.ofList (Nat.toDigits 16 n)

def cidToReference (js : JsText) (cid : List Char) : Except String (List Char × Nat) :=
  match cid with
  | 'b' :: text => do
    let bytes ← base32LowerDecode js text
    let (version, next) ← readVarint bytes 0
    if version ≠ cidV1 then .error s!"unexpected CID version {version}"
    else do
      let (codec, next) ← readVarint bytes next
      if codec ≠ swarmManifestCodec ∧ codec ≠ swarmFeedCodec then
        .error s!"unexpected codec 0x{radix16 codec} (not a swarm CID)"
      else do
        let (code, next) ← readVarint bytes next
        if code ≠ keccak256Multihash then
          .error s!"unexpected multihash code 0x{radix16 code} (expected keccak-256)"
        else do
          let (length, next) ← readVarint bytes next
          if length ≠ refLen then .error s!"unexpected digest length {length}"
          else
            let digest := (bytes.drop next).take refLen
            if digest.length ≠ refLen then .error "truncated CID digest"
            else .ok (bytesToHex digest, codec)
  | _ => .error "only multibase \"b\" (base32 lower) CIDs are supported"

/-- `/^b[a-z2-7]{58,}$/` -/
def looksLikeCid : List Char → Bool
  | 'b' :: rest => rest.length ≥ 58 && rest.all fun c => ('a' ≤ c && c ≤ 'z') || ('2' ≤ c && c ≤ '7')
  | _ => false

inductive HostKind where
  | root
  | subdomain
  | other
deriving DecidableEq

structure GatewayHost where
  kind : HostKind
  id : Option (List Char)
  rootHost : List Char
deriving DecidableEq

def gatewayInfix : List Char := ['b', 'z', 'z']

def splitHostPort (host : List Char) : List Char × Option (List Char) :=
  if host.count ':' = 1 then (host.takeWhile (· ≠ ':'), some ((host.dropWhile (· ≠ ':')).drop 1)) else (host, none)

def withPort (port : Option (List Char)) (host : List Char) : List Char :=
  match port with
  | some port => host ++ ':' :: port
  | none => host

def joinLabels (labels : List (List Char)) : List Char := ['.'].intercalate labels

def parseHost (host : List Char) : GatewayHost :=
  let (hostname, port) := splitHostPort host
  let labels := hostname.splitOn '.'
  let idx := labels.idxOf gatewayInfix
  if idx < labels.length then
    let rootHost := withPort port (joinLabels (labels.drop idx))
    if idx = 0 then { kind := .root, id := none, rootHost }
    else if idx = 1 then { kind := .subdomain, id := labels.head?, rootHost }
    else { kind := .other, id := none, rootHost }
  else
    let first := labels.headD []
    if labels.length ≥ 2 ∧ looksLikeCid first then
      { kind := .subdomain, id := some first, rootHost := withPort port (joinLabels (labels.drop 1)) }
    else { kind := .root, id := none, rootHost := withPort port hostname }

section
variable {js : JsText}

theorem parseTrimmed_digits : ∀ h < 16, ∀ l < 16, parseTrimmed [hexDigit h, hexDigit l] = some ((h * 16 + l : Nat) : Int) := by
  decide

theorem hexBytes_bytesToHex (bytes : List UInt8) (offset : Nat) : hexBytes js (bytesToHex bytes) offset = .ok bytes := by
  induction bytes generalizing offset with
  | nil => rfl
  | cons b rest ih =>
    have high : b.toNat / 16 < 16 := by
      have := b.toNat_lt
      omega
    have low : b.toNat % 16 < 16 := Nat.mod_lt _ (by decide)
    have byte : parseInt js [hexDigit (b.toNat / 16), hexDigit (b.toNat % 16)] = some (b.toNat : Int) := by
      rw [parseInt, List.dropWhile_cons_of_neg (by rw [js.space_digit _ high]; decide), parseTrimmed_digits _ high _ low]
      congr 2
      omega
    have back : UInt8.ofNat ((b.toNat : Int) % 256).toNat = b := by
      have small := b.toNat_lt
      rw [Int.emod_eq_of_lt (by omega) (by omega), Int.toNat_natCast, UInt8.ofNat_toNat]
    rw [bytesToHex, List.flatMap_cons, hexPair, List.cons_append, List.cons_append, List.nil_append, hexBytes, byte]
    dsimp only
    rw [back, show rest.flatMap hexPair = bytesToHex rest from rfl, ih]
    rfl

theorem hexToBytes_bytesToHex (bytes : List UInt8) : hexToBytes js (bytesToHex bytes) = .ok bytes := by
  have length : (bytesToHex bytes).length = 2 * bytes.length := length_pairs bytes
  have unmarked : ∀ rest, bytesToHex bytes ≠ '0' :: 'x' :: rest := by
    intro rest same
    cases bytes with
    | nil => cases same
    | cons b later =>
      have second : hexDigit (b.toNat % 16) = 'x' := (List.cons.inj (List.cons.inj same).2).1
      exact (hexDigit_plain _ (Nat.mod_lt _ (by decide))).1 second
  have cleaned : clean (bytesToHex bytes) = bytesToHex bytes := by
    unfold clean
    split
    · rename_i rest same
      exact absurd same (unmarked rest)
    · rfl
  unfold hexToBytes
  dsimp only
  rw [cleaned, length, if_neg (by omega)]
  exact hexBytes_bytesToHex bytes 0

theorem referenceToCid_eq (ref : Bytes 32) (codec : Nat) :
    referenceToCid js (bytesToHex ref.val) codec =
      .ok ('b' :: base32LowerEncode ((header codec).map UInt8.ofNat ++ ref.val)) := by
  rw [referenceToCid, hexToBytes_bytesToHex]
  exact if_neg (not_not.mpr ref.property)

theorem header_manifest : (header swarmManifestCodec).map UInt8.ofNat = Rust.header := by decide

theorem rust_header : Rust.header = [1, 0xfa, 1, 0x1b, 32] := by decide

theorem header_feed : (header swarmFeedCodec).map UInt8.ofNat = [1, 0xfb, 1, 0x1b, 32] := by decide

variable {codec : Nat} {cid : List Char}

theorem readVarint_header (rest : List UInt8) (known : codec = swarmManifestCodec ∨ codec = swarmFeedCodec) :
    let bytes := (header codec).map UInt8.ofNat ++ rest
    readVarint bytes 0 = .ok (cidV1, 1) ∧ readVarint bytes 1 = .ok (codec, 3) ∧
      readVarint bytes 3 = .ok (keccak256Multihash, 4) ∧ readVarint bytes 4 = .ok (refLen, 5) ∧ bytes.drop 5 = rest := by
  rcases known with rfl | rfl
  · rw [header_manifest, rust_header]
    exact ⟨rfl, rfl, rfl, rfl, rfl⟩
  · rw [header_feed]
    exact ⟨rfl, rfl, rfl, rfl, rfl⟩

theorem cidToReference_eq (ref : Bytes 32) (known : codec = swarmManifestCodec ∨ codec = swarmFeedCodec) :
    cidToReference js ('b' :: base32LowerEncode ((header codec).map UInt8.ofNat ++ ref.val)) =
      .ok (bytesToHex ref.val, codec) := by
  obtain ⟨version, read, code, length, rest⟩ := readVarint_header ref.val known
  have digest : ref.val.take refLen = ref.val := List.take_of_length_le (by rw [ref.property]; rfl)
  have sized : ¬ ref.val.length ≠ refLen := not_not.mpr ref.property
  have swarm : ¬(codec ≠ swarmManifestCodec ∧ codec ≠ swarmFeedCodec) := fun neither => known.elim neither.1 neither.2
  simp only [cidToReference, base32LowerDecode_encode, bind, Except.bind, version, read, code, length, rest, digest,
    if_neg swarm, if_neg sized, ne_eq, not_true_eq_false, if_false]

theorem looksLikeCid_letters {digits : List Nat} (small : ∀ d ∈ digits, d < 2 ^ 5) (long : 58 ≤ digits.length) :
    looksLikeCid ('b' :: digits.map letter) = true := by
  have each : ∀ d < 2 ^ 5, (('a' ≤ letter d && letter d ≤ 'z') || ('2' ≤ letter d && letter d ≤ '7')) = true := by decide
  simp only [looksLikeCid, List.length_map, Bool.and_eq_true, decide_eq_true_eq, List.all_eq_true]
  refine ⟨long, fun c member => ?_⟩
  obtain ⟨d, digit, rfl⟩ := List.mem_map.mp member
  exact each d (small d digit)

theorem notMem_of_looksLikeCid (label : looksLikeCid cid = true) {c : Char}
    (outside : (('a' ≤ c && c ≤ 'z') || ('2' ≤ c && c ≤ '7')) = false) : c ∉ cid := by
  unfold looksLikeCid at label
  split at label
  · simp only [Bool.and_eq_true, decide_eq_true_eq, List.all_eq_true] at label
    intro member
    rcases List.mem_cons.mp member with rfl | member
    · cases outside
    · rw [label.2 c member] at outside
      cases outside
  · cases label

theorem plain_of_looksLikeCid (label : looksLikeCid cid = true) :
    '.' ∉ cid ∧ ':' ∉ cid ∧ cid ≠ gatewayInfix := by
  refine ⟨notMem_of_looksLikeCid label (by decide), notMem_of_looksLikeCid label (by decide), ?_⟩
  rintro rfl
  cases label

theorem splitHostPort_withPort {host : List Char} {port : Option (List Char)} (plain : ':' ∉ host)
    (numbered : ∀ p, port = some p → ':' ∉ p) : splitHostPort (withPort port host) = (host, port) := by
  have stop : ∀ c ∈ host, decide (c ≠ ':') = true := fun c member => by
    rw [decide_eq_true_eq]
    rintro rfl
    exact plain member
  cases port with
  | none =>
    rw [withPort, splitHostPort, List.count_eq_zero.mpr plain, if_neg (by decide)]
  | some p =>
    have once : (host ++ ':' :: p).count ':' = 1 := by
      rw [List.count_append, List.count_eq_zero.mpr plain, List.count_cons_self, List.count_eq_zero.mpr (numbered p rfl)]
    rw [withPort, splitHostPort, if_pos once, List.takeWhile_append_of_pos stop, List.dropWhile_append_of_pos stop]
    simp

theorem colon_notMem_joinLabels {labels : List (List Char)} (plain : ∀ l ∈ labels, ':' ∉ l) : ':' ∉ joinLabels labels := by
  unfold joinLabels
  induction labels with
  | nil => simp [List.intercalate]
  | cons l rest ih =>
    obtain ⟨here, later⟩ := List.forall_mem_cons.mp plain
    cases rest with
    | nil => rwa [List.intercalate_singleton]
    | cons next rest =>
      rw [List.intercalate_cons_cons]
      simp [here, ih later]

theorem splitHostPort_cases (host : List Char) : splitHostPort host = (host, none) ∨
    ∃ name port, host = name ++ ':' :: port ∧ ':' ∉ port ∧ splitHostPort host = (name, some port) := by
  by_cases once : host.count ':' = 1
  · obtain ⟨name, port, rfl, first⟩ := List.eq_append_cons_of_mem (List.count_pos_iff.mp (by omega : 0 < host.count ':'))
    simp only [List.count_append, List.count_eq_zero.mpr first, List.count_cons_self] at once
    have last : ':' ∉ port := List.count_eq_zero.mp (by omega)
    exact .inr ⟨name, port, rfl, last, @splitHostPort_withPort name (some port) first (by simpa using last)⟩
  · exact .inl (if_neg once)

theorem withPort_splitHostPort (host : List Char) : withPort (splitHostPort host).2 (splitHostPort host).1 = host := by
  obtain same | ⟨name, port, rfl, -, same⟩ := splitHostPort_cases host <;> rw [same] <;> rfl

theorem splitHostPort_dot {label : List Char} (plain : ':' ∉ label) (host : List Char) :
    splitHostPort (label ++ '.' :: host) = (label ++ '.' :: (splitHostPort host).1, (splitHostPort host).2) := by
  have stop : ∀ c ∈ label, decide (c ≠ ':') = true := fun c member => by
    rw [decide_eq_true_eq]
    rintro rfl
    exact plain member
  have same : (label ++ '.' :: host).count ':' = host.count ':' := by
    simp [List.count_append, List.count_eq_zero.mpr plain]
  simp only [splitHostPort, same]
  split
  · rw [List.takeWhile_append_of_pos stop, List.dropWhile_append_of_pos stop]
    rfl
  · rfl

def InfixFirst (host : List Char) : Prop :=
  gatewayInfix ∉ (splitHostPort host).1.splitOn '.' ∨ ((splitHostPort host).1.splitOn '.').head? = some gatewayInfix

theorem parseHost_content (label : looksLikeCid cid = true) {root : List Char} (placed : InfixFirst root) :
    parseHost (cid ++ '.' :: root) = { kind := .subdomain, id := some cid, rootHost := root } := by
  obtain ⟨dot, colon, other⟩ := plain_of_looksLikeCid label
  have whole : withPort (splitHostPort root).2 (joinLabels ((splitHostPort root).1.splitOn '.')) = root := by
    rw [joinLabels, List.intercalate_splitOn, withPort_splitHostPort]
  have some_ : (splitHostPort root).1.splitOn '.' ≠ [] := List.splitOnP_ne_nil _ _
  unfold InfixFirst at placed
  unfold parseHost
  rw [splitHostPort_dot colon]
  dsimp only
  rw [List.splitOn_append_cons_self_of_not_mem dot]
  generalize (splitHostPort root).1.splitOn '.' = base at placed whole some_
  rw [List.idxOf_cons_ne _ other]
  rcases placed with absent | first
  · have long : (cid :: base).length ≥ 2 := Nat.succ_le_succ (List.length_pos_iff.mpr some_)
    rw [List.idxOf_eq_length absent, if_neg (by simp), if_pos ⟨long, label⟩]
    simp only [List.headD_cons, List.drop_succ_cons, List.drop_zero, whole]
  · obtain ⟨rest, rfl⟩ := List.head?_eq_some_iff.mp first
    rw [List.idxOf_cons_self, if_pos (by simp), if_neg (by decide), if_pos (by decide)]
    simp only [List.head?_cons, List.drop_succ_cons, List.drop_zero, whole]

theorem withPort_joinLabels (port : Option (List Char)) (l : List Char) {base : List (List Char)} (some_ : base ≠ []) :
    withPort port (joinLabels (l :: base)) = l ++ '.' :: withPort port (joinLabels base) := by
  obtain ⟨m, rest, rfl⟩ := List.exists_cons_of_ne_nil some_
  cases port <;> simp [withPort, joinLabels, List.intercalate_cons_cons]

theorem parseHost_cid (label : looksLikeCid cid = true) {base : List (List Char)} (some_ : base ≠ [])
    (plain : ∀ l ∈ base, '.' ∉ l ∧ ':' ∉ l) (placed : gatewayInfix ∉ base ∨ base.head? = some gatewayInfix)
    {port : Option (List Char)} (numbered : ∀ p, port = some p → ':' ∉ p) :
    parseHost (withPort port (joinLabels (cid :: base))) =
      { kind := .subdomain, id := some cid, rootHost := withPort port (joinLabels base) } := by
  have colons : ':' ∉ joinLabels base := colon_notMem_joinLabels fun l member => (plain l member).2
  have labels : (joinLabels base).splitOn '.' = base :=
    List.splitOn_intercalate '.' (fun l member => (plain l member).1) some_
  rw [withPort_joinLabels port cid some_]
  refine parseHost_content label ?_
  rwa [InfixFirst, splitHostPort_withPort colons numbered, labels]

theorem length_header (known : codec = swarmManifestCodec ∨ codec = swarmFeedCodec) :
    (header codec).length = 5 := by
  rcases known with rfl | rfl <;> decide

theorem label_cid (ref : Bytes 32) (known : codec = swarmManifestCodec ∨ codec = swarmFeedCodec) :
    ('b' :: base32LowerEncode ((header codec).map UInt8.ofNat ++ ref.val)).length = 61 ∧
      looksLikeCid ('b' :: base32LowerEncode ((header codec).map UInt8.ofNat ++ ref.val)) = true := by
  obtain ⟨digits, written, packed⟩ := int32_packed ((header codec).map UInt8.ofNat ++ ref.val)
  have count := packed.count
  rw [List.length_map, List.length_append, List.length_map, length_header known, ref.property] at count
  have sixty : digits.length = 60 := by
    have : padding (5 + 32) = 4 := rfl
    omega
  rw [written]
  exact ⟨by rw [List.length_cons, List.length_map, sixty], looksLikeCid_letters packed.digits (by omega)⟩

end

theorem cid_codecs_agree (js : JsText) (ref : Bytes 32) :
    (∀ codec, codec = swarmManifestCodec ∨ codec = swarmFeedCodec → ∃ cid,
      referenceToCid js (bytesToHex ref.val) codec = .ok cid ∧ cidToReference js cid = .ok (bytesToHex ref.val, codec) ∧
        cid.length ≤ 63 ∧ looksLikeCid cid = true ∧
        ∀ base port, base ≠ [] → (∀ l ∈ base, '.' ∉ l ∧ ':' ∉ l) → (∀ p, port = some p → ':' ∉ p) →
          gatewayInfix ∉ base ∨ base.head? = some gatewayInfix →
          parseHost (withPort port (joinLabels (cid :: base))) =
            { kind := .subdomain, id := some cid, rootHost := withPort port (joinLabels base) }) ∧
    referenceToCid js (bytesToHex ref.val) swarmManifestCodec = .ok (Rust.referenceToCid ref) := by
  constructor
  · intro codec known
    obtain ⟨length, label⟩ := label_cid ref known
    refine ⟨_, referenceToCid_eq ref codec, cidToReference_eq ref known, by omega, label, ?_⟩
    exact fun base port some_ plain numbered placed => parseHost_cid label some_ plain placed numbered
  · rw [referenceToCid_eq, header_manifest, base32LowerEncode_eq]
    rfl

theorem toLower_letter : ∀ c ∈ alphabet, [c.toLower] = [c] := by
  have all : (alphabet.all fun c => [c.toLower] == [c]) = true := by decide
  exact fun c member => eq_of_beq (List.all_eq_true.mp all c member)

theorem blank_digit : ∀ n < 16, (hexDigit n == ' ') = false := by decide

def asciiText : JsText where
  toLowerCase c := [c.toLower]
  lower_letter := toLower_letter
  isSpace c := c == ' '
  space_digit := blank_digit

example :
    cidToReference asciiText "bah5acgza7uz732yevwl4jlqysqdx3j235zxwtpd4xlna5fodvswxjrw3542q".toList =
      .ok ("fd33fdeb04ad97c4ae1894077da75bee6f69bc7cbada0e95c3acad74c6dbef35".toList, swarmManifestCodec) := by
  decide +kernel

end Hoverfly.Cid
