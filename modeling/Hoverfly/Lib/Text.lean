import Hoverfly.Lib.Word

/-! Bytes and numbers as text, and the text read back. -/
namespace Hoverfly.Lib

def hexValue (c : Char) : Option Nat :=
  if '0' ≤ c ∧ c ≤ '9' then some (c.toNat - 48)
  else if 'a' ≤ c ∧ c ≤ 'f' then some (c.toNat - 87)
  else if 'A' ≤ c ∧ c ≤ 'F' then some (c.toNat - 55)
  else none

def hexValueAt (c : Char) (index : Nat) : Except String Nat :=
  match hexValue c with
  | some v => .ok v
  | none => .error s!"Invalid character {repr c} at position {index}"

def hexFrom : (index : Nat) → List Char → Except String (List UInt8)
  | _, [] => .ok []
  | _, [_] => .error "Odd number of digits"
  | index, hi :: lo :: rest => do
    let hi ← hexValueAt hi index
    let lo ← hexValueAt lo (index + 1)
    let bytes ← hexFrom (index + 2) rest
    return UInt8.ofNat (16 * hi + lo) :: bytes

def hexDecode (cs : List Char) : Except String (List UInt8) :=
  if cs.length % 2 = 1 then .error "Odd number of digits" else hexFrom 0 cs

def dropMarks : List Char → List Char
  | '0' :: 'x' :: rest => dropMarks rest
  | cs => cs

def dropUpperMarks : List Char → List Char
  | '0' :: 'X' :: rest => dropUpperMarks rest
  | cs => cs

def decimalFrom (limit : Nat) : Nat → List Char → Except String Nat
  | acc, [] => .ok acc
  | acc, c :: rest =>
    if c.isDigit then
      let next := 10 * acc + (c.toNat - '0'.toNat)
      if next < limit then decimalFrom limit next rest else .error "number too large to fit in target type"
    else .error "invalid digit found in string"

def parseDecimal (limit : Nat) : List Char → Except String Nat
  | [] => .error "cannot parse integer from empty string"
  | '+' :: [] => .error "invalid digit found in string"
  | '+' :: rest => decimalFrom limit 0 rest
  | cs => decimalFrom limit 0 cs

theorem hexValue_hexDigit : ∀ n < 16, hexValue (hexDigit n) = some n := by decide

theorem hexDigit_plain : ∀ n < 16, hexDigit n ≠ 'x' ∧ hexDigit n ≠ 'X' ∧ (hexDigit n).toNat < 128 := by decide

def hexPair (b : UInt8) : List Char := [hexDigit (b.toNat / 16), hexDigit (b.toNat % 16)]

variable (bs : List UInt8)

theorem hexFrom_pairs (index : Nat) : hexFrom index (bs.flatMap hexPair) = .ok bs := by
  induction bs generalizing index with
  | nil => rfl
  | cons b bs ih =>
    have size := b.toNat_lt
    have high : hexValue (hexDigit (b.toNat / 16)) = some (b.toNat / 16) := hexValue_hexDigit _ (by omega)
    have low : hexValue (hexDigit (b.toNat % 16)) = some (b.toNat % 16) := hexValue_hexDigit _ (by omega)
    have whole : UInt8.ofNat (16 * (b.toNat / 16) + b.toNat % 16) = b := by
      rw [Nat.div_add_mod, UInt8.ofNat_toNat]
    simp only [List.flatMap_cons, hexPair, List.cons_append, List.nil_append, hexFrom, hexValueAt, high, low, bind,
      Except.bind]
    rw [ih, whole]
    rfl

theorem toList_hexEncode : (hexEncode bs).toList = bs.flatMap hexPair := by
  rw [hexEncode, String.toList_ofList]
  rfl

theorem length_pairs : (bs.flatMap hexPair).length = 2 * bs.length := by
  induction bs with
  | nil => rfl
  | cons b bs ih => simp [hexPair, ih]; omega

theorem hexDecode_pairs : hexDecode (bs.flatMap hexPair) = .ok bs := by
  have even := length_pairs bs
  rw [hexDecode, if_neg (by omega), hexFrom_pairs]

theorem dropMarks_pairs : dropMarks (bs.flatMap hexPair) = bs.flatMap hexPair := by
  cases bs with
  | nil => rfl
  | cons b bs =>
    have digit : hexDigit (b.toNat % 16) ≠ 'x' := (hexDigit_plain _ (by omega)).1
    simp only [List.flatMap_cons, hexPair, List.cons_append, List.nil_append]
    rw [dropMarks]
    intro rest same
    simp only [List.cons.injEq] at same
    exact digit same.2.1

theorem dropUpperMarks_pairs : dropUpperMarks (bs.flatMap hexPair) = bs.flatMap hexPair := by
  cases bs with
  | nil => rfl
  | cons b bs =>
    have digit : hexDigit (b.toNat % 16) ≠ 'X' := (hexDigit_plain _ (by omega)).2.1
    simp only [List.flatMap_cons, hexPair, List.cons_append, List.nil_append]
    rw [dropUpperMarks]
    intro rest same
    simp only [List.cons.injEq] at same
    exact digit same.2.1

theorem toList_marked : ("0x" ++ hexEncode bs).toList = '0' :: 'x' :: bs.flatMap hexPair := by
  rw [String.toList_append, toList_hexEncode]
  rfl

theorem hexDecode_marked :
    hexDecode (dropMarks ("0x" ++ hexEncode bs).toList) = .ok bs := by
  rw [toList_marked, dropMarks, dropMarks_pairs, hexDecode_pairs]

theorem decimalFrom_digits {limit acc : Nat} {cs : List Char} (digits : ∀ c ∈ cs, c.isDigit)
    (fits : Nat.ofDigitChars 10 cs acc < limit) : decimalFrom limit acc cs = .ok (Nat.ofDigitChars 10 cs acc) := by
  have grows : ∀ (cs : List Char) (acc : Nat), acc ≤ Nat.ofDigitChars 10 cs acc := by
    intro cs
    induction cs with
    | nil => simp
    | cons c cs ih =>
      intro acc
      rw [Nat.ofDigitChars_cons]
      have := ih (10 * acc + (c.toNat - '0'.toNat))
      omega
  induction cs generalizing acc with
  | nil => simp [decimalFrom]
  | cons c cs ih =>
    rw [Nat.ofDigitChars_cons] at fits ⊢
    have step := grows cs (10 * acc + (c.toNat - '0'.toNat))
    rw [decimalFrom, if_pos (digits c (List.mem_cons_self ..))]
    dsimp only
    rw [if_pos (by omega)]
    exact ih (fun d member => digits d (List.mem_cons_of_mem _ member)) fits

theorem toList_toString (n : Nat) : (toString n).toList = Nat.toDigits 10 n := by
  show (Nat.repr n).toList = _
  simp [Nat.repr]

theorem parseDecimal_toString {limit n : Nat} (fits : n < limit) : parseDecimal limit (toString n).toList = .ok n := by
  have digits : ∀ c ∈ Nat.toDigits 10 n, c.isDigit := fun c member =>
    Nat.isDigit_of_mem_toDigits (by decide) (by decide) member
  have value : decimalFrom limit 0 (Nat.toDigits 10 n) = .ok n := by
    rw [decimalFrom_digits digits (by rwa [Nat.ofDigitChars_ten_toDigits]), Nat.ofDigitChars_ten_toDigits]
  rw [toList_toString]
  cases written : Nat.toDigits 10 n with
  | nil => exact absurd written Nat.toDigits_ne_nil
  | cons c rest =>
    have first : c ≠ '+' := by
      rintro rfl
      exact absurd (digits '+' (written ▸ List.mem_cons_self ..)) (by decide)
    rw [written] at value
    rw [parseDecimal, value]
    · simp
    · intro same
      exact first (List.cons.inj same).1
    · intro rest' same
      exact first (List.cons.inj same).1

theorem hexEncode_injective {xs ys : List UInt8} (same : hexEncode xs = hexEncode ys) : xs = ys := by
  have pairs : xs.flatMap hexPair = ys.flatMap hexPair := by
    rw [← toList_hexEncode, ← toList_hexEncode, same]
  have read := congrArg hexDecode pairs
  rw [hexDecode_pairs, hexDecode_pairs] at read
  exact Except.ok.inj read

def utf8 (s : String) : List UInt8 := s.toByteArray.data.toList

theorem utf8_append (s t : String) : utf8 (s ++ t) = utf8 s ++ utf8 t := by
  unfold utf8
  rw [String.toByteArray_append]
  simp

variable {s : String}

theorem utf8_ascii (ascii : ∀ c ∈ s.toList, c.toNat < 128) :
    utf8 s = s.toList.map fun c => UInt8.ofNat c.toNat := by
  unfold utf8
  rw [← String.utf8Encode_toList, List.utf8Encode, List.map_eq_flatMap]
  have bytes : s.toList.flatMap String.utf8EncodeChar = s.toList.flatMap fun c => [UInt8.ofNat c.toNat] :=
    List.flatMap_congr fun c member => if_pos (Nat.le_of_lt_succ (ascii c member))
  rw [bytes]
  simp

theorem chars_utf8 (ascii : ∀ c ∈ s.toList, c.toNat < 128) :
    ((utf8 s).map fun b => Char.ofNat b.toNat) = s.toList := by
  rw [utf8_ascii ascii, List.map_map]
  refine (List.map_congr_left fun c member => ?_).trans (List.map_id _)
  have small := ascii c member
  have byte : (UInt8.ofNat c.toNat).toNat = c.toNat := UInt8.toNat_ofNat_of_lt' (show c.toNat < 256 by omega)
  show Char.ofNat (UInt8.ofNat c.toNat).toNat = c
  rw [byte, Char.ofNat_toNat]

theorem forall_marked {P : Char → Prop} (mark : P '0' ∧ P 'x') (digits : ∀ n < 16, P (hexDigit n)) (bs : List UInt8) :
    ∀ c ∈ ("0x" ++ hexEncode bs).toList, P c := by
  rw [toList_marked, List.forall_mem_cons, List.forall_mem_cons]
  refine ⟨mark.1, mark.2, fun c member => ?_⟩
  obtain ⟨b, -, digit⟩ := List.mem_flatMap.mp member
  have size := b.toNat_lt
  rw [hexPair, List.mem_pair] at digit
  rcases digit with rfl | rfl
  · exact digits _ (by omega)
  · exact digits _ (by omega)

theorem ascii_marked : ∀ c ∈ ("0x" ++ hexEncode bs).toList, c.toNat < 128 :=
  forall_marked (by decide) (fun n small => (hexDigit_plain n small).2.2) bs

theorem length_utf8_marked : (utf8 ("0x" ++ hexEncode bs)).length = 2 + 2 * bs.length := by
  rw [utf8_ascii (ascii_marked bs), List.length_map, toList_marked, List.length_cons, List.length_cons, length_pairs]
  omega

def fromUtf8 (bs : List UInt8) : Option String := String.fromUTF8? ⟨bs.toArray⟩

theorem fromUtf8_utf8 (s : String) : fromUtf8 (utf8 s) = some s := by
  unfold fromUtf8 utf8 String.fromUTF8?
  rw [Array.toArray_toList, dif_pos s.isValidUTF8]
  rfl

theorem utf8_of_fromUtf8 {bs : List UInt8} (read : fromUtf8 bs = some s) : utf8 s = bs := by
  unfold fromUtf8 String.fromUTF8? at read
  split at read
  · cases read
    rfl
  · exact nomatch read

def base64Digit (n : Nat) : UInt8 :=
  if n < 26 then UInt8.ofNat (0x41 + n)
  else if n < 52 then UInt8.ofNat (0x61 + (n - 26))
  else if n < 62 then UInt8.ofNat (0x30 + (n - 52))
  else if n = 62 then 0x2b else 0x2f

def base64Encode : List UInt8 → List UInt8
  | [] => []
  | [a] => [base64Digit (a.toNat / 4), base64Digit (a.toNat % 4 * 16), 0x3d, 0x3d]
  | [a, b] =>
    [base64Digit (a.toNat / 4), base64Digit (a.toNat % 4 * 16 + b.toNat / 16), base64Digit (b.toNat % 16 * 4), 0x3d]
  | a :: b :: c :: rest =>
    base64Digit (a.toNat / 4) :: base64Digit (a.toNat % 4 * 16 + b.toNat / 16) ::
      base64Digit (b.toNat % 16 * 4 + c.toNat / 64) :: base64Digit (c.toNat % 64) :: base64Encode rest

def base64Value (b : UInt8) : Option Nat :=
  if 0x41 ≤ b ∧ b ≤ 0x5a then some (b.toNat - 0x41)
  else if 0x61 ≤ b ∧ b ≤ 0x7a then some (b.toNat - 0x61 + 26)
  else if 0x30 ≤ b ∧ b ≤ 0x39 then some (b.toNat - 0x30 + 52)
  else if b = 0x2b then some 62
  else if b = 0x2f then some 63
  else none

def base64Decode : List UInt8 → Option (List UInt8)
  | [] => some []
  | a :: b :: c :: d :: rest => do
    let x ← base64Value a
    let y ← base64Value b
    if c = 0x3d then if d = 0x3d ∧ rest = [] ∧ y % 16 = 0 then some [UInt8.ofNat (x * 4 + y / 16)] else none
    else do
      let z ← base64Value c
      if d = 0x3d then
        if rest = [] ∧ z % 4 = 0 then some [UInt8.ofNat (x * 4 + y / 16), UInt8.ofNat (y % 16 * 16 + z / 4)] else none
      else do
        let v ← base64Value d
        let more ← base64Decode rest
        return UInt8.ofNat (x * 4 + y / 16) :: UInt8.ofNat (y % 16 * 16 + z / 4) :: UInt8.ofNat (z % 4 * 64 + v) :: more
  | _ => none

theorem base64Value_digit : ∀ n < 64, base64Value (base64Digit n) = some n := by decide +kernel

theorem base64Digit_ne_pad : ∀ n < 64, base64Digit n ≠ 0x3d := by decide +kernel

theorem ofNat_of_toNat {b : UInt8} {n : Nat} (same : n = b.toNat) : UInt8.ofNat n = b := by
  rw [same, UInt8.ofNat_toNat]

theorem forall_base64Encode {P : UInt8 → Prop} (pad : P 0x3d) (digits : ∀ n < 64, P (base64Digit n)) (bs : List UInt8) :
    ∀ b ∈ base64Encode bs, P b := by
  induction bs using base64Encode.induct with
  | case1 => exact nofun
  | case2 a =>
    have byteA := a.toNat_lt
    simp only [base64Encode, List.forall_mem_cons]
    exact ⟨digits _ (by omega), digits _ (by omega), pad, pad, nofun⟩
  | case3 a b =>
    have byteA := a.toNat_lt
    have byteB := b.toNat_lt
    simp only [base64Encode, List.forall_mem_cons]
    exact ⟨digits _ (by omega), digits _ (by omega), digits _ (by omega), pad, nofun⟩
  | case4 a b c rest ih =>
    have byteA := a.toNat_lt
    have byteB := b.toNat_lt
    have byteC := c.toNat_lt
    simp only [base64Encode, List.forall_mem_cons]
    exact ⟨digits _ (by omega), digits _ (by omega), digits _ (by omega), digits _ (by omega), ih⟩

theorem length_base64Encode : (base64Encode bs).length = 4 * ((bs.length + 2) / 3) := by
  induction bs using base64Encode.induct with
  | case1 => rfl
  | case2 a => simp [base64Encode]
  | case3 a b => simp [base64Encode]
  | case4 a b c rest ih =>
    simp only [base64Encode, List.length_cons, ih]
    omega

theorem base64Decode_encode : base64Decode (base64Encode bs) = some bs := by
  induction bs using base64Encode.induct with
  | case1 => rfl
  | case2 a =>
    have byteA := a.toNat_lt
    have first : UInt8.ofNat (a.toNat / 4 * 4 + a.toNat % 4 * 16 / 16) = a := ofNat_of_toNat (by omega)
    have spare : a.toNat % 4 * 16 % 16 = 0 := by omega
    rw [base64Encode, base64Decode, base64Value_digit _ (by omega), base64Value_digit _ (by omega)]
    simp only [Option.bind_eq_bind, Option.bind_some, if_true, true_and, spare, first]
  | case3 a b =>
    have byteA := a.toNat_lt
    have byteB := b.toNat_lt
    have first : UInt8.ofNat (a.toNat / 4 * 4 + (a.toNat % 4 * 16 + b.toNat / 16) / 16) = a := ofNat_of_toNat (by omega)
    have second : UInt8.ofNat ((a.toNat % 4 * 16 + b.toNat / 16) % 16 * 16 + b.toNat % 16 * 4 / 4) = b :=
      ofNat_of_toNat (by omega)
    have spare : b.toNat % 16 * 4 % 4 = 0 := by omega
    have pad : base64Digit (b.toNat % 16 * 4) ≠ 0x3d := base64Digit_ne_pad _ (by omega)
    rw [base64Encode, base64Decode, base64Value_digit _ (by omega), base64Value_digit _ (by omega),
      base64Value_digit _ (by omega)]
    simp only [Option.bind_eq_bind, Option.bind_some, pad, if_true, if_false, true_and, spare, first, second]
  | case4 a b c rest ih =>
    have byteA := a.toNat_lt
    have byteB := b.toNat_lt
    have byteC := c.toNat_lt
    have first : UInt8.ofNat (a.toNat / 4 * 4 + (a.toNat % 4 * 16 + b.toNat / 16) / 16) = a := ofNat_of_toNat (by omega)
    have second : UInt8.ofNat ((a.toNat % 4 * 16 + b.toNat / 16) % 16 * 16 + (b.toNat % 16 * 4 + c.toNat / 64) / 4) = b :=
      ofNat_of_toNat (by omega)
    have third : UInt8.ofNat ((b.toNat % 16 * 4 + c.toNat / 64) % 4 * 64 + c.toNat % 64) = c := ofNat_of_toNat (by omega)
    have padC : base64Digit (b.toNat % 16 * 4 + c.toNat / 64) ≠ 0x3d := base64Digit_ne_pad _ (by omega)
    have padD : base64Digit (c.toNat % 64) ≠ 0x3d := base64Digit_ne_pad _ (by omega)
    rw [base64Encode, base64Decode, base64Value_digit _ (by omega), base64Value_digit _ (by omega),
      base64Value_digit _ (by omega), base64Value_digit _ (by omega), ih]
    simp only [Option.bind_eq_bind, Option.bind_some, padC, padD, if_false, first, second, third]
    rfl

end Hoverfly.Lib
