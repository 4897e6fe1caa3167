import Hoverfly.Lib.Json

/-! A reader of JSON texts: bytes are cut into tokens, and the tokens put together. What it reads is
spelled by the text. UTF-8 is not checked. -/
namespace Hoverfly.Lib
namespace Json

def dropDigits (text : List UInt8) : Option (List UInt8) :=
  if text.head?.any isDigit then some (text.dropWhile isDigit) else none

def isExponent : List UInt8 → Bool
  | [] => true
  | e :: rest =>
    (e = 0x65 || e = 0x45) &&
      dropDigits (if rest.head? = some 0x2b ∨ rest.head? = some 0x2d then rest.tail else rest) = some []

def isFraction : List UInt8 → Bool
  | 0x2e :: rest => (dropDigits rest).any isExponent
  | rest => isExponent rest

def isNumber (text : List UInt8) : Bool :=
  let digits := if text.head? = some 0x2d then text.tail else text
  (dropDigits digits).any isFraction && (digits.head? ≠ some 0x30 || !(digits.tail.head?.any isDigit))

def isWord (text : List UInt8) : Bool :=
  text = [0x74, 0x72, 0x75, 0x65] || text = [0x66, 0x61, 0x6c, 0x73, 0x65] || text = [0x6e, 0x75, 0x6c, 0x6c]

def readRaw : List UInt8 → Option (List UInt8 × List UInt8)
  | [] => none
  | [b] => if b = 0x22 then some ([], []) else none
  | b :: c :: rest =>
    if b = 0x22 then some ([], c :: rest)
    else if b = 0x5c then (readRaw rest).map fun r => (b :: c :: r.1, r.2)
    else if b < 0x20 then none
    else (readRaw (c :: rest)).map fun r => (b :: r.1, r.2)

def lex : Nat → List UInt8 → Option (List Token)
  | _, [] => some []
  | 0, _ :: _ => none
  | fuel + 1, b :: rest =>
    if isBlank b then lex fuel rest
    else if isPunct b then (lex fuel rest).map (.punct b :: ·)
    else if b = 0x22 then do
      let (raw, rest) ← readRaw rest
      if (unescape raw).isSome then (lex fuel rest).map (.str raw :: ·) else none
    else
      let text := (b :: rest).takeWhile isLitByte
      if isLitStart b ∧ (isNumber text ∨ isWord text) then
        (lex fuel ((b :: rest).dropWhile isLitByte)).map (.lit text :: ·)
      else none

mutual
def readValue : Nat → List Token → Option (Json × List Token)
  | 0, _ => none
  | _ + 1, .lit text :: k => some (lit text, k)
  | _ + 1, .str raw :: k => some (str raw, k)
  | fuel + 1, .punct b :: ts =>
    if b = 0x5b then
      if ts.head? = some (.punct 0x5d) then some (arr [], ts.tail)
      else do
        let (v, k) ← readValue fuel ts
        let (rest, k) ← readItems fuel k
        return (arr (v :: rest), k)
    else if b = 0x7b then
      if ts.head? = some (.punct 0x7d) then some (obj [], ts.tail)
      else do
        let (members, k) ← readMember fuel ts
        return (obj members, k)
    else none
  | _ + 1, [] => none
def readItems : Nat → List Token → Option (List Json × List Token)
  | fuel + 1, .punct b :: ts =>
    if b = 0x5d then some ([], ts)
    else if b = 0x2c then do
      let (v, k) ← readValue fuel ts
      let (rest, k) ← readItems fuel k
      return (v :: rest, k)
    else none
  | _, _ => none
def readMember : Nat → List Token → Option (List (List UInt8 × Json) × List Token)
  | fuel + 1, .str name :: .punct c :: ts =>
    if c = 0x3a then do
      let (v, k) ← readValue fuel ts
      match k with
      | .punct b :: k =>
        if b = 0x7d then return ([(name, v)], k)
        else if b = 0x2c then do
          let (rest, k) ← readMember fuel k
          return ((name, v) :: rest, k)
        else none
      | _ => none
    else none
  | _, _ => none
end

def read (bs : List UInt8) : Except String Json :=
  match (lex bs.length bs).bind fun ts => readValue ts.length ts with
  | some (v, []) => .ok v
  | _ => .error "not a JSON text"

variable {bs : List UInt8}

theorem readRaw_sound {raw rest : List UInt8} (out : readRaw bs = some (raw, rest)) :
    bs = raw ++ 0x22 :: rest ∧ isRaw raw = true := by
  induction bs using readRaw.induct generalizing raw rest with
  | case1 => exact nomatch out
  | case2 =>
    cases out
    exact ⟨rfl, rfl⟩
  | case3 b other =>
    rw [readRaw, if_neg other] at out
    exact nomatch out
  | case4 c more =>
    rw [readRaw, if_pos rfl] at out
    cases out
    exact ⟨rfl, rfl⟩
  | case5 c more quote ih =>
    rw [readRaw, if_neg quote, if_pos rfl] at out
    obtain ⟨⟨inner, after⟩, found, eq⟩ := Option.map_eq_some_iff.mp out
    cases eq
    obtain ⟨rfl, valid⟩ := ih found
    refine ⟨rfl, ?_⟩
    rw [isRaw, if_pos rfl, valid]
  | case6 b c more quote escape control =>
    rw [readRaw, if_neg quote, if_neg escape, if_pos control] at out
    exact nomatch out
  | case7 b c more quote escape control ih =>
    rw [readRaw, if_neg quote, if_neg escape, if_neg control] at out
    obtain ⟨⟨inner, after⟩, found, eq⟩ := Option.map_eq_some_iff.mp out
    cases eq
    obtain ⟨text, valid⟩ := ih found
    refine ⟨by rw [text]; rfl, ?_⟩
    rw [isRaw_cons escape, valid, decide_eq_true quote]
    rfl

theorem litByte_of_start : ∀ b : UInt8, isLitStart b = true → isLitByte b = true :=
  forall_byte (by decide +kernel)

theorem lex_sound {fuel : Nat} {ts : List Token} (out : lex fuel bs = some ts) : Spelled bs ts := by
  induction fuel generalizing bs ts with
  | zero =>
    cases bs with
    | nil =>
      cases out
      exact .nil
    | cons b rest => cases out
  | succ fuel ih =>
    cases bs with
    | nil =>
      cases out
      exact .nil
    | cons b rest =>
      rw [lex] at out
      split at out
      · exact .blank ‹_› (ih out)
      split at out
      · obtain ⟨us, later, rfl⟩ := Option.map_eq_some_iff.mp out
        exact .token (t := .punct b) ‹_› (ih later)
      split at out
      · rename_i quote
        simp only [Option.bind_eq_bind, Option.bind_eq_some_iff] at out
        obtain ⟨⟨raw, more⟩, found, out⟩ := out
        split at out
        · obtain ⟨us, later, rfl⟩ := Option.map_eq_some_iff.mp out
          obtain ⟨rfl, valid⟩ := readRaw_sound found
          have spelled := Spelled.token (t := .str raw) valid (ih later)
          rw [Token.bytes, List.cons_append, List.append_assoc, List.singleton_append] at spelled
          rwa [quote]
        · cases out
      · dsimp only at out
        split at out
        · rename_i starts
          obtain ⟨us, later, rfl⟩ := Option.map_eq_some_iff.mp out
          have valid : (Token.lit ((b :: rest).takeWhile isLitByte)).Valid := by
            refine ⟨?_, List.all_takeWhile⟩
            rw [List.takeWhile_cons_of_pos (litByte_of_start b starts.1)]
            exact starts.1
          have spelled := Spelled.token valid (ih later)
          rwa [Token.bytes, List.takeWhile_append_dropWhile] at spelled
        · cases out

theorem readers_sound (fuel : Nat) :
    (∀ ts v k, readValue fuel ts = some (v, k) → v.toks k = ts) ∧
    (∀ ts vs k, readItems fuel ts = some (vs, k) → moreItems vs k = ts) ∧
    ∀ ts ms k, readMember fuel ts = some (ms, k) →
      (obj ms).toks k = .punct 0x7b :: ts ∧ moreMembers ms k = .punct 0x2c :: ts := by
  induction fuel with
  | zero =>
    refine ⟨fun ts v k out => ?_, fun ts vs k out => ?_, fun ts ms k out => ?_⟩
    · exact nomatch out
    · exact nomatch out
    · exact nomatch out
  | succ fuel ih =>
    obtain ⟨value, items, member⟩ := ih
    refine ⟨fun ts v k out => ?_, fun ts vs k out => ?_, fun ts ms k out => ?_⟩
    · match ts with
      | [] => exact nomatch out
      | .lit text :: ts =>
        cases out
        rw [toks]
      | .str raw :: ts =>
        cases out
        rw [toks]
      | .punct b :: ts =>
        rw [readValue] at out
        split at out
        · rename_i bracket
          split at out
          · rename_i closed
            cases out
            rewrite [toks, bracket, ← List.cons_head?_tail closed]
            rfl
          · simp only [Option.bind_eq_bind, Option.bind_eq_some_iff] at out
            obtain ⟨⟨w, k'⟩, first, ⟨rest, k''⟩, others, out⟩ := out
            cases out
            rw [toks, items _ _ _ others, value _ _ _ first, bracket]
        · split at out
          · rename_i brace
            split at out
            · rename_i closed
              cases out
              rewrite [toks, brace, ← List.cons_head?_tail closed]
              rfl
            · simp only [Option.bind_eq_bind, Option.bind_eq_some_iff] at out
              obtain ⟨⟨ms, k'⟩, first, out⟩ := out
              cases out
              rw [(member _ _ _ first).1, brace]
          · exact nomatch out
    · match ts with
      | [] => exact nomatch out
      | .lit text :: ts => exact nomatch out
      | .str raw :: ts => exact nomatch out
      | .punct b :: ts =>
        rw [readItems] at out
        split at out
        · rename_i closed
          cases out
          rw [moreItems, closed]
        · split at out
          · rename_i comma
            simp only [Option.bind_eq_bind, Option.bind_eq_some_iff] at out
            obtain ⟨⟨w, k'⟩, first, ⟨rest, k''⟩, others, out⟩ := out
            cases out
            rw [moreItems, items _ _ _ others, value _ _ _ first, comma]
          · exact nomatch out
    · match ts with
      | [] => exact nomatch out
      | .lit text :: ts => exact nomatch out
      | .punct b :: ts => exact nomatch out
      | [.str name] => exact nomatch out
      | .str name :: .lit text :: ts => exact nomatch out
      | .str name :: .str raw :: ts => exact nomatch out
      | .str name :: .punct c :: ts =>
        rw [readMember] at out
        split at out
        · rename_i colon
          simp only [Option.bind_eq_bind, Option.bind_eq_some_iff] at out
          obtain ⟨⟨w, k'⟩, first, out⟩ := out
          have spelled := value _ _ _ first
          match k' with
          | [] => exact nomatch out
          | .lit text :: k' => exact nomatch out
          | .str raw :: k' => exact nomatch out
          | .punct b :: k' =>
            dsimp only at out
            split at out
            · rename_i closed
              cases out
              rw [toks, moreMembers, moreMembers, ← spelled, closed, colon]
              exact ⟨rfl, rfl⟩
            · split at out
              · rename_i comma
                simp only [Option.bind_eq_some_iff] at out
                obtain ⟨⟨rest, k''⟩, others, out⟩ := out
                cases out
                rw [toks, moreMembers, (member _ _ _ others).2, ← spelled, comma, colon]
                exact ⟨rfl, rfl⟩
              · exact nomatch out
        · exact nomatch out

theorem read_sound {v : Json} (out : read bs = .ok v) : v.Spells bs := by
  unfold read at out
  split at out
  · rename_i w found
    cases out
    obtain ⟨ts, lexed, value⟩ := Option.bind_eq_some_iff.mp found
    have tokens := (readers_sound ts.length).1 _ _ _ value
    rw [Spells, tokens]
    exact lex_sound lexed
  · exact nomatch out

end Json

end Hoverfly.Lib
