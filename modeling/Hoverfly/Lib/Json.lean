import Mathlib.Data.List.Infix
import Hoverfly.Lib.Text

/-! JSON texts as bytes: tokens with white space between them, and the trees that the tokens spell.
Names and strings are kept as they are spelled, numbers and the three words as literals. -/
namespace Hoverfly.Lib

inductive Token where
  | punct (b : UInt8)
  | str (raw : List UInt8)
  | lit (text : List UInt8)
deriving DecidableEq

def isDigit (b : UInt8) : Bool := 0x30 ≤ b && b ≤ 0x39

def isBlank (b : UInt8) : Bool := b = 0x20 || b = 0x09 || b = 0x0a || b = 0x0d

def isPunct (b : UInt8) : Bool := b = 0x7b || b = 0x7d || b = 0x5b || b = 0x5d || b = 0x3a || b = 0x2c

def isLitStart (b : UInt8) : Bool := isDigit b || b = 0x2d || b = 0x74 || b = 0x66 || b = 0x6e

def isLitByte (b : UInt8) : Bool :=
  isDigit b || (0x61 ≤ b && b ≤ 0x7a) || b = 0x45 || b = 0x2d || b = 0x2b || b = 0x2e

def isRaw : List UInt8 → Bool
  | [] => true
  | [b] => b ≠ 0x5c && b ≠ 0x22
  | b :: c :: rest => if b = 0x5c then isRaw rest else b ≠ 0x22 && isRaw (c :: rest)

namespace Token

def bytes : Token → List UInt8
  | punct b => [b]
  | str raw => 0x22 :: (raw ++ [0x22])
  | lit text => text

def Valid : Token → Prop
  | punct b => isPunct b
  | str raw => isRaw raw
  | lit text => text.head?.any isLitStart ∧ text.all isLitByte

end Token

/-- The bytes are these tokens, with white space anywhere between them. -/
inductive Spelled : List UInt8 → List Token → Prop where
  | nil : Spelled [] []
  | blank {s : UInt8} {b : List UInt8} {ts : List Token} (space : isBlank s) (rest : Spelled b ts) : Spelled (s :: b) ts
  | token {t : Token} {b : List UInt8} {ts : List Token} (valid : t.Valid) (rest : Spelled b ts) :
      Spelled (t.bytes ++ b) (t :: ts)

def occurrences (key : List UInt8) : List UInt8 → List (List UInt8)
  | [] => []
  | b :: rest =>
    if key.isPrefixOf (b :: rest) then (b :: rest).drop key.length :: occurrences key rest else occurrences key rest

def quoted (name : List UInt8) : List UInt8 := 0x22 :: (name ++ [0x22])

def strings : List Token → List (List UInt8 × List Token)
  | [] => []
  | .str raw :: ts => (raw, ts) :: strings ts
  | _ :: ts => strings ts

@[simp] theorem strings_nil : strings [] = [] := rfl

@[simp] theorem strings_punct (b : UInt8) (ts : List Token) : strings (.punct b :: ts) = strings ts := rfl

@[simp] theorem strings_lit (text : List UInt8) (ts : List Token) : strings (.lit text :: ts) = strings ts := rfl

@[simp] theorem strings_str (raw : List UInt8) (ts : List Token) : strings (.str raw :: ts) = (raw, ts) :: strings ts := rfl

def Ends (name raw : List UInt8) : Prop := (0x22 :: name) <:+ (0x22 :: raw)

instance (name raw : List UInt8) : Decidable (Ends name raw) :=
  inferInstanceAs (Decidable ((0x22 :: name) <:+ (0x22 :: raw)))

/-- A name without quotes and backslashes that starts like no token. -/
structure Plain (name : List UInt8) : Prop where
  letters : ∀ b ∈ name, b ≠ 0x22 ∧ b ≠ 0x5c
  start : ∃ b rest, name = b :: rest ∧ isBlank b = false ∧ isPunct b = false ∧ isLitStart b = false

section
variable {name : List UInt8} {b : UInt8} {bs raw : List UInt8} {ts : List Token}

theorem occurrences_cons_of_ne (other : b ≠ 0x22) (rest : List UInt8) :
    occurrences (quoted name) (b :: rest) = occurrences (quoted name) rest := by
  rw [occurrences, if_neg]
  intro starts
  exact other (List.cons_prefix_cons.mp (List.isPrefixOf_iff_prefix.mp starts)).1.symm

theorem occurrences_append_of_ne (others : ∀ b ∈ bs, b ≠ 0x22) (rest : List UInt8) :
    occurrences (quoted name) (bs ++ rest) = occurrences (quoted name) rest := by
  induction bs with
  | nil => rfl
  | cons b bs ih =>
    obtain ⟨here, later⟩ := List.forall_mem_cons.mp others
    rw [List.cons_append, occurrences_cons_of_ne here, ih later]

theorem Spelled.cons_cases (spelled : Spelled (b :: bs) ts) :
    (isBlank b ∧ Spelled bs ts) ∨
    ∃ t more us, t.Valid ∧ b :: bs = t.bytes ++ more ∧ ts = t :: us ∧ Spelled more us := by
  generalize all : b :: bs = text at spelled
  cases spelled with
  | nil => exact nomatch all
  | blank space rest =>
    cases all
    exact .inl ⟨space, rest⟩
  | token valid rest => exact .inr ⟨_, _, _, valid, rfl, rfl, rest⟩

theorem Token.Valid.head {t : Token} (valid : t.Valid) :
    ∃ b more, t.bytes = b :: more ∧ (isPunct b = true ∨ b = 0x22 ∨ isLitStart b = true) := by
  match t with
  | punct p => exact ⟨p, [], rfl, .inl valid⟩
  | str raw => exact ⟨0x22, _, rfl, .inr (.inl rfl)⟩
  | lit [] => exact nomatch valid.1
  | lit (c :: text) => exact ⟨c, text, rfl, .inr (.inr valid.1)⟩

theorem Spelled.start (spelled : Spelled (b :: bs) ts) :
    isBlank b = true ∨ isPunct b = true ∨ b = 0x22 ∨ isLitStart b = true := by
  rcases spelled.cons_cases with ⟨space, -⟩ | ⟨t, more, us, valid, text, -, -⟩
  · exact .inl space
  · obtain ⟨c, rest, bytes, first⟩ := valid.head
    rw [bytes] at text
    cases text
    exact .inr first

theorem Plain.not_start (plain : Plain name) (spelled : Spelled bs ts) :
    ¬(quoted name) <+: (0x22 :: bs) := by
  obtain ⟨b, rest, rfl, blank, punct, literal⟩ := plain.start
  intro starts
  have inner := (List.cons_prefix_cons.mp starts).2
  cases bs with
  | nil => exact absurd inner.length_le (by simp)
  | cons c bs =>
    obtain rfl : b = c := (List.cons_prefix_cons.mp inner).1
    rcases spelled.start with h | h | h | h
    · exact absurd (h.symm.trans blank) (by decide)
    · exact absurd (h.symm.trans punct) (by decide)
    · exact (plain.letters b (List.mem_cons_self ..)).1 h
    · exact absurd (h.symm.trans literal) (by decide)

theorem isRaw_cons {rest : List UInt8} (other : b ≠ 0x5c) :
    isRaw (b :: rest) = (decide (b ≠ 0x22) && isRaw rest) := by
  cases rest with
  | nil => simp [isRaw, other]
  | cons c rest => rw [isRaw, if_neg other]

theorem prefix_raw_iff (letters : ∀ b ∈ name, b ≠ 0x22 ∧ b ≠ 0x5c) (valid : isRaw raw)
    (bs : List UInt8) : (name ++ [0x22]) <+: (raw ++ 0x22 :: bs) ↔ raw = name := by
  induction name generalizing raw with
  | nil =>
    cases raw with
    | nil => exact iff_of_true ⟨bs, rfl⟩ rfl
    | cons c raw =>
      refine iff_of_false (fun starts => ?_) nofun
      have quote : 0x22 = c := (List.cons_prefix_cons.mp starts).1
      subst quote
      rw [isRaw_cons (by decide)] at valid
      exact nomatch valid
  | cons b name ih =>
    obtain ⟨here, later⟩ := List.forall_mem_cons.mp letters
    cases raw with
    | nil =>
      refine iff_of_false (fun starts => ?_) nofun
      exact here.1 (List.cons_prefix_cons.mp starts).1
    | cons c raw =>
      rw [List.cons_append, List.cons_append, List.cons_prefix_cons, List.cons.injEq, eq_comm (a := b)]
      refine and_congr_right fun same => ih later ?_
      subst same
      rw [isRaw_cons here.2] at valid
      exact (Bool.and_eq_true_iff.mp valid).2

theorem suffix_cons_of_ne (other : b ≠ 0x22) (rest : List UInt8) :
    (0x22 :: name) <:+ (b :: rest) ↔ (0x22 :: name) <:+ rest := by
  rw [List.suffix_cons_iff, or_iff_right]
  intro same
  exact other (List.cons.inj same).1.symm

theorem occurrences_quote (plain : Plain name) (valid : isRaw raw) (bs : List UInt8) :
    occurrences (quoted name) (0x22 :: (raw ++ 0x22 :: bs)) =
      (if raw = name then [bs] else []) ++ occurrences (quoted name) (raw ++ 0x22 :: bs) := by
  have starts : (quoted name).isPrefixOf (0x22 :: (raw ++ 0x22 :: bs)) = true ↔ raw = name := by
    rw [List.isPrefixOf_iff_prefix, quoted, List.cons_prefix_cons, prefix_raw_iff plain.letters valid]
    exact and_iff_right rfl
  rw [occurrences]
  by_cases same : raw = name
  · rw [if_pos (starts.mpr same), if_pos same]
    subst same
    have after : (0x22 :: (raw ++ 0x22 :: bs)).drop (quoted raw).length = bs := by
      rw [show 0x22 :: (raw ++ 0x22 :: bs) = quoted raw ++ bs by simp [quoted], List.drop_left]
    rw [after]
    rfl
  · rw [if_neg (fun h => same (starts.mp h)), if_neg same]
    rfl

/-- A string that ends in the quoted name is the name, or goes on before an escaped quote; never both. -/
theorem ends_split (raw bs : List UInt8) (more : List (List UInt8)) :
    (if raw = name then [bs] else []) ++ ((if (0x22 :: name) <:+ raw then [bs] else []) ++ more) =
      (if Ends name raw then [bs] else []) ++ more := by
  by_cases same : raw = name
  · subst same
    have longer : ¬(0x22 :: raw) <:+ raw := fun suffix => absurd suffix.length_le (by simp)
    have whole : Ends raw raw := List.suffix_rfl
    rw [if_pos rfl, if_neg longer, if_pos whole]
    rfl
  · have ends : Ends name raw ↔ (0x22 :: name) <:+ raw := by
      unfold Ends
      rw [List.suffix_cons_iff, or_iff_right]
      exact fun h => same (List.cons.inj h).2.symm
    rw [if_neg same]
    simp only [ends, List.nil_append]

theorem occurrences_raw (plain : Plain name) (valid : isRaw raw) (spelled : Spelled bs ts) :
    occurrences (quoted name) (raw ++ 0x22 :: bs) =
      (if (0x22 :: name) <:+ raw then [bs] else []) ++ occurrences (quoted name) bs := by
  have closing : occurrences (quoted name) (0x22 :: bs) = occurrences (quoted name) bs := by
    rw [occurrences, if_neg]
    exact fun starts => plain.not_start spelled (List.isPrefixOf_iff_prefix.mp starts)
  induction raw using isRaw.induct with
  | case1 =>
    rw [if_neg (by simp), List.nil_append, closing]
    rfl
  | case2 b =>
    obtain ⟨-, quote⟩ := Bool.and_eq_true_iff.mp valid
    have other : b ≠ 0x22 := of_decide_eq_true quote
    rw [List.cons_append, List.nil_append, occurrences_cons_of_ne other, closing, if_neg]
    · rfl
    · rw [suffix_cons_of_ne other]
      simp
  | case3 c rest ih =>
    -- an escape, of a quote or of something else
    have inner : isRaw rest = true := by rwa [isRaw, if_pos rfl] at valid
    have skipped : occurrences (quoted name) (0x5c :: c :: rest ++ 0x22 :: bs) =
        occurrences (quoted name) (c :: (rest ++ 0x22 :: bs)) := occurrences_cons_of_ne (by decide) _
    rw [skipped]
    by_cases quote : c = 0x22
    · subst quote
      rw [occurrences_quote plain inner, ih inner, ends_split]
      simp only [suffix_cons_of_ne (show (0x5c : UInt8) ≠ 0x22 by decide)]
      rfl
    · rw [occurrences_cons_of_ne quote, ih inner]
      simp only [suffix_cons_of_ne (show (0x5c : UInt8) ≠ 0x22 by decide), suffix_cons_of_ne quote]
  | case4 b c rest other ih =>
    rw [isRaw_cons other] at valid
    obtain ⟨quote, inner⟩ := Bool.and_eq_true_iff.mp valid
    have plainByte : b ≠ 0x22 := of_decide_eq_true quote
    rw [List.cons_append, occurrences_cons_of_ne plainByte, ih inner]
    simp only [suffix_cons_of_ne plainByte]

theorem noQuote_of_valid {t : Token} (valid : t.Valid) (notStr : ∀ raw, t ≠ .str raw) : ∀ b ∈ t.bytes, b ≠ 0x22 := by
  cases t with
  | punct p =>
    intro b member
    rw [List.mem_singleton.mp member]
    rintro rfl
    exact nomatch valid
  | str raw => exact absurd rfl (notStr raw)
  | lit text =>
    rintro b member rfl
    exact absurd (List.all_eq_true.mp valid.2 _ member) (by decide)

theorem occurrences_str (plain : Plain name) (valid : isRaw raw) (spelled : Spelled bs ts) :
    occurrences (quoted name) (Token.bytes (.str raw) ++ bs) =
      (if Ends name raw then [bs] else []) ++ occurrences (quoted name) bs := by
  have text : Token.bytes (.str raw) ++ bs = 0x22 :: (raw ++ 0x22 :: bs) := by
    simp [Token.bytes]
  rw [text, occurrences_quote plain valid, occurrences_raw plain valid spelled, ends_split]

theorem occurrences_spelled (plain : Plain name) (spelled : Spelled bs ts) :
    List.Forall₂ Spelled (occurrences (quoted name) bs)
      (((strings ts).filter fun s => Ends name s.1).map Prod.snd) := by
  induction spelled with
  | nil => exact .nil
  | @blank s b ts space rest ih =>
    have other : s ≠ 0x22 := by
      rintro rfl
      exact nomatch space
    rwa [occurrences_cons_of_ne other]
  | @token t b ts valid rest ih =>
    cases t with
    | punct p =>
      rw [occurrences_append_of_ne (noQuote_of_valid valid nofun)]
      exact ih
    | lit text =>
      rw [occurrences_append_of_ne (noQuote_of_valid valid nofun)]
      exact ih
    | str raw =>
      rw [occurrences_str plain valid rest, strings, List.filter_cons]
      by_cases ends : Ends name raw
      · rw [if_pos ends, if_pos (decide_eq_true ends)]
        exact .cons rest ih
      · rw [if_neg ends, if_neg (by simpa using ends)]
        exact ih

theorem spelled_flatMap (valid : ∀ t ∈ ts, t.Valid) : Spelled (ts.flatMap Token.bytes) ts := by
  induction ts with
  | nil => exact .nil
  | cons t ts ih =>
    obtain ⟨here, later⟩ := List.forall_mem_cons.mp valid
    rw [List.flatMap_cons]
    exact .token here (ih later)

theorem occurrences_flatMap (plain : Plain name) (valid : ∀ t ∈ ts, t.Valid) :
    occurrences (quoted name) (ts.flatMap Token.bytes) =
      ((strings ts).filter fun s => Ends name s.1).map fun s => s.2.flatMap Token.bytes := by
  induction ts with
  | nil => rfl
  | cons t ts ih =>
    obtain ⟨here, later⟩ := List.forall_mem_cons.mp valid
    rw [List.flatMap_cons]
    cases t with
    | punct p => rw [occurrences_append_of_ne (noQuote_of_valid here nofun), ih later, strings_punct]
    | lit text => rw [occurrences_append_of_ne (noQuote_of_valid here nofun), ih later, strings_lit]
    | str raw =>
      rw [occurrences_str plain here (spelled_flatMap later), ih later, strings_str, List.filter_cons]
      by_cases ends : Ends name raw
      · rw [if_pos ends, if_pos (decide_eq_true ends)]
        rfl
      · rw [if_neg ends, if_neg (by simpa using ends)]
        rfl

theorem isRaw_of_noEscape (letters : ∀ b ∈ raw, b ≠ 0x22 ∧ b ≠ 0x5c) : isRaw raw = true := by
  induction raw with
  | nil => rfl
  | cons b raw ih =>
    obtain ⟨here, later⟩ := List.forall_mem_cons.mp letters
    rw [isRaw_cons here.2, ih later, decide_eq_true here.1]
    rfl

theorem ends_iff_eq (letters : ∀ b ∈ raw, b ≠ 0x22 ∧ b ≠ 0x5c) : Ends name raw ↔ raw = name := by
  unfold Ends
  rw [List.suffix_cons_iff]
  constructor
  · rintro (same | inside)
    · exact (List.cons.inj same).2.symm
    · exact absurd rfl (letters 0x22 (inside.subset (List.mem_cons_self ..))).1
  · rintro rfl
    exact .inl rfl

end

theorem Spelled.skip {blank : UInt8 → Bool}
    (only : ∀ b, blank b = true → isPunct b = false ∧ b ≠ 0x22 ∧ isLitStart b = false) {bs : List UInt8} {ts : List Token}
    (spelled : Spelled bs ts) : Spelled (bs.dropWhile blank) ts := by
  induction bs with
  | nil => exact spelled
  | cons b bs ih =>
    rw [List.dropWhile_cons]
    split
    · rename_i space
      obtain ⟨punct, quote, literal⟩ := only b space
      rcases spelled.cons_cases with ⟨-, rest⟩ | ⟨t, more, us, valid, text, -, -⟩
      · exact ih rest
      · obtain ⟨c, rest, bytes, first⟩ := valid.head
        rw [bytes] at text
        cases text
        rcases first with h | h | h
        · exact absurd (h.symm.trans punct) (by decide)
        · exact absurd h quote
        · exact absurd (h.symm.trans literal) (by decide)
    · exact spelled

theorem forall_byte {P : UInt8 → Prop} (all : ∀ n < 256, P (UInt8.ofNat n)) (b : UInt8) : P b := by
  have here := all b.toNat b.toNat_lt
  rwa [UInt8.ofNat_toNat] at here

theorem punct_alone : ∀ b : UInt8, isPunct b = true → isBlank b = false ∧ b ≠ 0x22 ∧ isLitStart b = false :=
  forall_byte (by decide +kernel)

theorem digit_alone : ∀ b : UInt8, isDigit b = true → isBlank b = false ∧ b ≠ 0x22 ∧ isPunct b = false :=
  forall_byte (by decide +kernel)

theorem Spelled.of_punct {b : UInt8} {bs : List UInt8} {ts : List Token} (spelled : Spelled (b :: bs) ts)
    (punct : isPunct b = true) : ∃ us, ts = .punct b :: us ∧ Spelled bs us := by
  obtain ⟨blank, quote, literal⟩ := punct_alone b punct
  rcases spelled.cons_cases with ⟨space, -⟩ | ⟨t, more, us, valid, text, rfl, rest⟩
  · exact absurd (space.symm.trans blank) (by decide)
  · match t with
    | .punct p =>
      cases text
      exact ⟨us, rfl, rest⟩
    | .str raw => exact absurd (List.cons.inj text).1 quote
    | .lit [] => exact nomatch valid.1
    | .lit (c :: word) =>
      have first : isLitStart b = true := (List.cons.inj text).1 ▸ valid.1
      exact absurd (first.symm.trans literal) (by decide)

theorem Spelled.of_digit {b : UInt8} {bs : List UInt8} {ts : List Token} (spelled : Spelled (b :: bs) ts)
    (digit : isDigit b = true) :
    ∃ text more us, ts = .lit text :: us ∧ b :: bs = text ++ more ∧ text ≠ [] ∧ text.all isLitByte = true ∧
      Spelled more us := by
  obtain ⟨blank, quote, punct⟩ := digit_alone b digit
  rcases spelled.cons_cases with ⟨space, -⟩ | ⟨t, more, us, valid, text, rfl, rest⟩
  · exact absurd (space.symm.trans blank) (by decide)
  · match t with
    | .punct p =>
      have mark : isPunct b = true := (List.cons.inj text).1 ▸ valid
      exact absurd (mark.symm.trans punct) (by decide)
    | .str raw => exact absurd (List.cons.inj text).1 quote
    | .lit [] => exact nomatch valid.1
    | .lit (c :: word) => exact ⟨c :: word, more, us, rfl, text, List.cons_ne_nil _ _, valid.2, rest⟩

inductive Json where
  | lit (text : List UInt8)
  | str (raw : List UInt8)
  | arr (items : List Json)
  | obj (members : List (List UInt8 × Json))

namespace Json

mutual
def toks : Json → List Token → List Token
  | lit text, k => .lit text :: k
  | str raw, k => .str raw :: k
  | arr [], k => .punct 0x5b :: .punct 0x5d :: k
  | arr (v :: rest), k => .punct 0x5b :: toks v (moreItems rest k)
  | obj [], k => .punct 0x7b :: .punct 0x7d :: k
  | obj ((name, v) :: rest), k => .punct 0x7b :: .str name :: .punct 0x3a :: toks v (moreMembers rest k)
def moreItems : List Json → List Token → List Token
  | [], k => .punct 0x5d :: k
  | v :: rest, k => .punct 0x2c :: toks v (moreItems rest k)
def moreMembers : List (List UInt8 × Json) → List Token → List Token
  | [], k => .punct 0x7d :: k
  | (name, v) :: rest, k => .punct 0x2c :: .str name :: .punct 0x3a :: toks v (moreMembers rest k)
end

def Spells (v : Json) (bs : List UInt8) : Prop := Spelled bs (v.toks [])

/-- A member of an object anywhere in the document, by its spelled name. -/
inductive Member (name : List UInt8) (w : Json) : Json → Prop where
  | own {members : List (List UInt8 × Json)} (here : (name, w) ∈ members) : Member name w (.obj members)
  | deeper {members : List (List UInt8 × Json)} {other : List UInt8} {v : Json} (here : (other, v) ∈ members)
      (inside : Member name w v) : Member name w (.obj members)
  | item {items : List Json} {v : Json} (here : v ∈ items) (inside : Member name w v) : Member name w (.arr items)

def Names (v : Json) (s : List UInt8 × List Token) : Prop :=
  ∃ w b rest, Member s.1 w v ∧ s.2 = .punct 0x3a :: w.toks (.punct b :: rest) ∧ (b = 0x2c ∨ b = 0x7d)

def NoColon (ts : List Token) : Prop := ts.head? ≠ some (.punct 0x3a)

theorem noColon_moreItems (items : List Json) (k : List Token) : NoColon (moreItems items k) := by
  cases items <;> simp [moreItems, NoColon]

theorem noColon_moreMembers (members : List (List UInt8 × Json)) (k : List Token) :
    NoColon (moreMembers members k) := by
  rcases members with _ | ⟨⟨name, v⟩, rest⟩ <;> simp [moreMembers, NoColon]

theorem moreMembers_eq (members : List (List UInt8 × Json)) (k : List Token) :
    ∃ b rest, moreMembers members k = .punct b :: rest ∧ (b = 0x2c ∨ b = 0x7d) := by
  rcases members with _ | ⟨⟨name, v⟩, rest⟩
  · exact ⟨0x7d, k, by rw [moreMembers], .inr rfl⟩
  · exact ⟨0x2c, _, by rw [moreMembers], .inl rfl⟩

variable {v w : Json} {s : List UInt8 × List Token} {name : List UInt8}

theorem Names.lift {u : Json} (names : v.Names s)
    (up : ∀ name w, Member name w v → Member name w u) : u.Names s := by
  obtain ⟨w, b, rest, member, eq, next⟩ := names
  exact ⟨w, b, rest, up _ _ member, eq, next⟩

theorem Names.tail {m : List UInt8 × Json} {members : List (List UInt8 × Json)}
    (names : (obj members).Names s) : (obj (m :: members)).Names s := by
  refine names.lift fun name w member => ?_
  cases member with
  | own here => exact .own (List.mem_cons_of_mem _ here)
  | deeper here inside => exact .deeper (List.mem_cons_of_mem _ here) inside

theorem strings_member {rest : List (List UInt8 × Json)} {k : List Token}
    (value : s ∈ strings (w.toks (moreMembers rest k)) →
      s ∈ strings (moreMembers rest k) ∨ NoColon s.2 ∨ w.Names s)
    (others : s ∈ strings (moreMembers rest k) → s ∈ strings k ∨ NoColon s.2 ∨ (obj rest).Names s)
    (member : s ∈ strings (.str name :: .punct 0x3a :: w.toks (moreMembers rest k))) :
    s ∈ strings k ∨ NoColon s.2 ∨ (obj ((name, w) :: rest)).Names s := by
  rw [strings_str, strings_punct] at member
  rcases List.mem_cons.mp member with rfl | member
  · obtain ⟨b, more, eq, next⟩ := moreMembers_eq rest k
    refine .inr (.inr ⟨w, b, more, .own (List.mem_cons_self ..), ?_, next⟩)
    rw [eq]
  rcases value member with later | plain | names
  · rcases others later with outside | plain | names
    · exact .inl outside
    · exact .inr (.inl plain)
    · exact .inr (.inr names.tail)
  · exact .inr (.inl plain)
  · exact .inr (.inr (names.lift fun _ _ => .deeper (List.mem_cons_self ..)))

mutual
variable {s : List UInt8 × List Token}

theorem strings_toks (v : Json) {k : List Token} (after : NoColon k)
    (member : s ∈ strings (v.toks k)) : s ∈ strings k ∨ NoColon s.2 ∨ v.Names s := by
  match v with
  | lit text =>
    rw [toks, strings_lit] at member
    exact .inl member
  | str raw =>
    rw [toks, strings_str] at member
    rcases List.mem_cons.mp member with rfl | member
    · exact .inr (.inl after)
    · exact .inl member
  | arr [] =>
    rw [toks, strings_punct, strings_punct] at member
    exact .inl member
  | arr (w :: rest) =>
    rw [toks, strings_punct] at member
    rcases strings_toks w (noColon_moreItems rest k) member with later | plain | names
    · rcases strings_moreItems rest later with outside | plain | ⟨u, here, names⟩
      · exact .inl outside
      · exact .inr (.inl plain)
      · exact .inr (.inr (names.lift fun _ _ => .item (List.mem_cons_of_mem _ here)))
    · exact .inr (.inl plain)
    · exact .inr (.inr (names.lift fun _ _ => .item (List.mem_cons_self ..)))
  | obj [] =>
    rw [toks, strings_punct, strings_punct] at member
    exact .inl member
  | obj ((name, w) :: rest) =>
    rw [toks, strings_punct] at member
    exact strings_member (strings_toks w (noColon_moreMembers rest k)) (strings_moreMembers rest) member
theorem strings_moreItems (items : List Json) {k : List Token}
    (member : s ∈ strings (moreItems items k)) : s ∈ strings k ∨ NoColon s.2 ∨ ∃ v ∈ items, v.Names s := by
  match items with
  | [] =>
    rw [moreItems, strings_punct] at member
    exact .inl member
  | v :: rest =>
    rw [moreItems, strings_punct] at member
    rcases strings_toks v (noColon_moreItems rest k) member with later | plain | names
    · rcases strings_moreItems rest later with outside | plain | ⟨u, here, names⟩
      · exact .inl outside
      · exact .inr (.inl plain)
      · exact .inr (.inr ⟨u, List.mem_cons_of_mem _ here, names⟩)
    · exact .inr (.inl plain)
    · exact .inr (.inr ⟨v, List.mem_cons_self .., names⟩)
theorem strings_moreMembers (members : List (List UInt8 × Json)) {k : List Token}
    (member : s ∈ strings (moreMembers members k)) : s ∈ strings k ∨ NoColon s.2 ∨ (obj members).Names s := by
  match members with
  | [] =>
    rw [moreMembers, strings_punct] at member
    exact .inl member
  | (name, w) :: rest =>
    rw [moreMembers, strings_punct] at member
    exact strings_member (strings_toks w (noColon_moreMembers rest k)) (strings_moreMembers rest) member
end

mutual
theorem suffix_toks (v : Json) (k : List Token) : k <:+ v.toks k := by
  match v with
  | lit text =>
    rw [toks]
    exact List.suffix_cons _ k
  | str raw =>
    rw [toks]
    exact List.suffix_cons _ k
  | arr [] =>
    rw [toks]
    exact ⟨[_, _], rfl⟩
  | arr (w :: rest) =>
    rw [toks]
    exact (suffix_moreItems rest k).trans ((suffix_toks w _).trans (List.suffix_cons ..))
  | obj [] =>
    rw [toks]
    exact ⟨[_, _], rfl⟩
  | obj ((name, w) :: rest) =>
    rw [toks]
    exact (suffix_moreMembers rest k).trans ((suffix_toks w _).trans ⟨[_, _, _], rfl⟩)
theorem suffix_moreItems (items : List Json) (k : List Token) : k <:+ moreItems items k := by
  match items with
  | [] =>
    rw [moreItems]
    exact List.suffix_cons _ k
  | v :: rest =>
    rw [moreItems]
    exact (suffix_moreItems rest k).trans ((suffix_toks v _).trans (List.suffix_cons ..))
theorem suffix_moreMembers (members : List (List UInt8 × Json)) (k : List Token) : k <:+ moreMembers members k := by
  match members with
  | [] =>
    rw [moreMembers]
    exact List.suffix_cons _ k
  | (name, w) :: rest =>
    rw [moreMembers]
    exact (suffix_moreMembers rest k).trans ((suffix_toks w _).trans ⟨[_, _, _], rfl⟩)
end

theorem suffix_of_item {items : List Json} (here : v ∈ items) (k : List Token) :
    ∃ k', v.toks k' <:+ moreItems items k := by
  induction items with
  | nil => exact absurd here List.not_mem_nil
  | cons w rest ih =>
    rw [moreItems]
    rcases List.mem_cons.mp here with rfl | later
    · exact ⟨_, List.suffix_cons ..⟩
    · obtain ⟨k', suffix⟩ := ih later
      exact ⟨k', suffix.trans ((suffix_toks w _).trans (List.suffix_cons ..))⟩

theorem suffix_of_member {members : List (List UInt8 × Json)} (here : (name, v) ∈ members)
    (k : List Token) : ∃ k', (.str name :: .punct 0x3a :: v.toks k') <:+ moreMembers members k := by
  induction members with
  | nil => exact absurd here List.not_mem_nil
  | cons m rest ih =>
    obtain ⟨other, w⟩ := m
    rw [moreMembers]
    rcases List.mem_cons.mp here with same | later
    · cases same
      exact ⟨_, List.suffix_cons ..⟩
    · obtain ⟨k', suffix⟩ := ih later
      exact ⟨k', suffix.trans ((suffix_toks w _).trans ⟨[_, _, _], rfl⟩)⟩

theorem strings_arr (items : List Json) (k : List Token) :
    strings ((arr items).toks k) = strings (moreItems items k) := by
  cases items <;> simp [toks, moreItems]

theorem strings_obj (members : List (List UInt8 × Json)) (k : List Token) :
    strings ((obj members).toks k) = strings (moreMembers members k) := by
  rcases members with _ | ⟨⟨name, v⟩, rest⟩ <;> simp [toks, moreMembers]

theorem mem_strings_of_suffix {ts us : List Token} (suffix : ts <:+ us)
    (member : s ∈ strings ts) : s ∈ strings us := by
  induction us with
  | nil => rwa [List.suffix_nil.mp suffix] at member
  | cons u us ih =>
    rcases List.suffix_cons_iff.mp suffix with rfl | deeper
    · exact member
    · have later := ih deeper
      cases u with
      | punct b => exact later
      | str raw => exact List.mem_cons_of_mem _ later
      | lit text => exact later

theorem Member.mem_strings (member : Member name w v) (k : List Token) :
    ∃ k', (name, .punct 0x3a :: w.toks k') ∈ strings (v.toks k) := by
  induction member generalizing k with
  | own here =>
    obtain ⟨k', suffix⟩ := suffix_of_member here k
    rw [strings_obj]
    exact ⟨k', mem_strings_of_suffix suffix (List.mem_cons_self ..)⟩
  | deeper here _ ih =>
    obtain ⟨k', suffix⟩ := suffix_of_member here k
    obtain ⟨k'', found⟩ := ih k'
    rw [strings_obj]
    exact ⟨k'', mem_strings_of_suffix suffix (List.mem_cons_of_mem _ found)⟩
  | item here _ ih =>
    obtain ⟨k', suffix⟩ := suffix_of_item here k
    obtain ⟨k'', found⟩ := ih k'
    rw [strings_arr]
    exact ⟨k'', mem_strings_of_suffix suffix found⟩

theorem eq_lit_of_toks {k rest : List Token} {text : List UInt8} (eq : w.toks k = .lit text :: rest) :
    w = lit text ∧ k = rest := by
  match w with
  | lit word =>
    rw [toks] at eq
    cases eq
    exact ⟨rfl, rfl⟩
  | str raw =>
    rw [toks] at eq
    exact nomatch eq
  | arr [] =>
    rw [toks] at eq
    exact nomatch eq
  | arr (_ :: _) =>
    rw [toks] at eq
    exact nomatch eq
  | obj [] =>
    rw [toks] at eq
    exact nomatch eq
  | obj ((_, _) :: _) =>
    rw [toks] at eq
    exact nomatch eq

end Json

def hexFour (a b c d : UInt8) : Option Nat := do
  let a ← hexValue (Char.ofNat a.toNat)
  let b ← hexValue (Char.ofNat b.toNat)
  let c ← hexValue (Char.ofNat c.toNat)
  let d ← hexValue (Char.ofNat d.toNat)
  return ((16 * a + b) * 16 + c) * 16 + d

def shortEscape (b : UInt8) : Option UInt8 :=
  if b = 0x22 ∨ b = 0x5c ∨ b = 0x2f then some b
  else if b = 0x62 then some 0x08
  else if b = 0x66 then some 0x0c
  else if b = 0x6e then some 0x0a
  else if b = 0x72 then some 0x0d
  else if b = 0x74 then some 0x09
  else none

def unescape : List UInt8 → Option (List UInt8)
  | [] => some []
  | b :: rest =>
    if b ≠ 0x5c then (unescape rest).map (b :: ·)
    else
      match rest with
      | [] => none
      | c :: rest =>
        if c ≠ 0x75 then (shortEscape c).bind fun d => (unescape rest).map (d :: ·)
        else
          match rest with
          | h₁ :: h₂ :: h₃ :: h₄ :: rest =>
            (hexFour h₁ h₂ h₃ h₄).bind fun n =>
              if n < 0xd800 ∨ 0xe000 ≤ n then (unescape rest).map (String.utf8EncodeChar (Char.ofNat n) ++ ·)
              else
                -- the two halves of a surrogate pair
                match rest with
                | s :: u :: l₁ :: l₂ :: l₃ :: l₄ :: rest =>
                  (hexFour l₁ l₂ l₃ l₄).bind fun m =>
                    if s = 0x5c ∧ u = 0x75 ∧ n < 0xdc00 ∧ 0xdc00 ≤ m ∧ m < 0xe000 then
                      let code := 0x10000 + (n - 0xd800) * 0x400 + (m - 0xdc00)
                      (unescape rest).map (String.utf8EncodeChar (Char.ofNat code) ++ ·)
                    else none
                | _ => none
          | _ => none

def decimal (digits : List UInt8) : Nat := digits.foldl (fun acc b => 10 * acc + (b.toNat - 0x30)) 0

theorem toDigits_range {n : Nat} {c : Char} (member : c ∈ Nat.toDigits 10 n) : 48 ≤ c.toNat ∧ c.toNat ≤ 57 := by
  have digit : c.isDigit = true := Nat.isDigit_of_mem_toDigits (by decide) (by decide) member
  simpa [Char.isDigit, UInt32.le_iff_toNat_le] using digit

theorem utf8_toString (n : Nat) : utf8 (toString n) = (Nat.toDigits 10 n).map fun c => UInt8.ofNat c.toNat := by
  have ascii : ∀ c ∈ (toString n).toList, c.toNat < 128 := by
    intro c member
    have range := toDigits_range (toList_toString n ▸ member)
    omega
  rw [utf8_ascii ascii, toList_toString]

theorem toNat_of_toDigits {n : Nat} {c : Char} (member : c ∈ Nat.toDigits 10 n) :
    (UInt8.ofNat c.toNat).toNat = c.toNat := by
  have range := toDigits_range member
  exact UInt8.toNat_ofNat_of_lt' (show c.toNat < 256 by omega)

theorem isDigit_of_toString {n : Nat} {d : UInt8} (member : d ∈ utf8 (toString n)) : isDigit d = true := by
  rw [utf8_toString] at member
  obtain ⟨c, here, rfl⟩ := List.mem_map.mp member
  have range := toDigits_range here
  simpa [isDigit, UInt8.le_iff_toNat_le, toNat_of_toDigits here] using range

theorem toString_ne_nil (n : Nat) : utf8 (toString n) ≠ [] := by
  rw [utf8_toString]
  exact fun empty => Nat.toDigits_ne_nil (List.map_eq_nil_iff.mp empty)

theorem decimal_toString (n : Nat) : decimal (utf8 (toString n)) = n := by
  rw [utf8_toString, decimal, List.foldl_map]
  calc
    _ = Nat.ofDigitChars 10 (Nat.toDigits 10 n) 0 :=
      List.foldl_ext _ _ 0 fun acc c member => by rw [toNat_of_toDigits member]; rfl
    _ = n := Nat.ofDigitChars_ten_toDigits

namespace Json

/-- The own member of that name; of two the last one counts. -/
def get (name : List UInt8) : Json → Option Json
  | obj members => (members.reverse.find? fun m => unescape m.1 = some name).map Prod.snd
  | _ => none

def asStr : Json → Option (List UInt8)
  | str raw => unescape raw
  | _ => none

def natural : Json → Option Nat
  | lit text => if text ≠ [] ∧ text.all isDigit then some (decimal text) else none
  | _ => none

end Json

end Hoverfly.Lib
