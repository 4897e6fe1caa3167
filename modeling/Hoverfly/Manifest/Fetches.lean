import Hoverfly.Manifest.Walk

/-! How many nodes a lookup fetches. The store may answer every fetch anew: what it said of an
address before binds it to nothing. -/
namespace Hoverfly.Manifest
open Lib

abbrev Answers := Nat → Bytes 32 → Except String (List UInt8)

structure Visit where
  result : Checked ClientError (Bytes 32 × Option String)
  fetches : Nat
  redirects : List String

structure Cursor where
  current : Bytes 32
  remaining : List UInt8
  lastContentType : Option String := none
  indexRedirected : Bool := false
  fetches : Nat := 0
  redirects : List String := []

namespace Reader
variable (rd : Reader) (answers : Answers) (path : String)

def advance (c : Cursor) : Visit ⊕ Cursor :=
  let finish result := Sum.inl { result, fetches := c.fetches + 1, redirects := c.redirects }
  match { rd with get := answers c.fetches }.fetchNode c.current with
  | .error stop => finish (.error stop)
  | .ok node =>
    match c.remaining with
    | [] =>
      match node.entry with
      | some addr => finish (.ok (addr, c.lastContentType))
      | none =>
        match if c.indexRedirected then none else extractIndexDocument node with
        | some idx => .inr { c with
            remaining := utf8 idx, indexRedirected := true, fetches := c.fetches + 1, redirects := c.redirects ++ [idx] }
        | none => finish (.fail (.manifest s!"path {path} has no entry"))
    | first :: _ =>
      match node.forks.lookup first with
      | none => finish (.fail (.manifest s!"no fork for {path}"))
      | some fork =>
        if fork.prefixBytes.isPrefixOf c.remaining then .inr { c with
          current := fork.reference, remaining := c.remaining.drop fork.prefixBytes.length,
          lastContentType := (fork.metadata.lookup entryMetadataContentTypeKey).or c.lastContentType,
          fetches := c.fetches + 1 }
        else finish (.fail (.manifest s!"path {path} doesn't match fork prefix"))

def visitFrom : (fuel : Nat) → Cursor → Option Visit
  | 0, _ => none
  | fuel + 1, c =>
    match rd.advance answers path c with
    | .inl v => some v
    | .inr c => visitFrom fuel c

def visit (fuel : Nat) (root : Bytes 32) : Option Visit :=
  rd.visitFrom answers path fuel { current := root, remaining := utf8 path }

theorem visitFrom_steady (fuel : Nat) (c : Cursor) :
    (rd.visitFrom (fun _ => rd.get) path fuel c).map (·.result) =
      rd.lookupFrom path fuel c.current c.remaining c.lastContentType c.indexRedirected := by
  induction fuel generalizing c with
  | zero => rfl
  | succ fuel ih =>
    obtain ⟨current, remaining, last, redirected, fetches, redirects⟩ := c
    unfold visitFrom advance lookupFrom
    dsimp only
    cases rd.fetchNode current with
    | error stop => rfl
    | ok node =>
      cases remaining with
      | nil =>
        dsimp only
        cases node.entry with
        | some addr => rfl
        | none =>
          dsimp only
          cases (if redirected then none else extractIndexDocument node) with
          | some idx => exact ih _
          | none => rfl
      | cons first rest =>
        dsimp only
        cases node.forks.lookup first with
        | none => rfl
        | some fork =>
          dsimp only
          by_cases starts : fork.prefixBytes.isPrefixOf (first :: rest)
          · rw [if_pos starts, if_pos starts]
            exact ih _
          · rw [if_neg starts, if_neg starts]
            rfl

variable {rd answers path}

theorem advance_cases (c : Cursor) :
    (∃ v, rd.advance answers path c = .inl v ∧ v.fetches = c.fetches + 1 ∧ v.redirects = c.redirects) ∨
    (∃ c', rd.advance answers path c = .inr c' ∧ c'.fetches = c.fetches + 1 ∧ c'.redirects = c.redirects ∧
      c'.indexRedirected = c.indexRedirected ∧ c'.remaining.length < c.remaining.length) ∨
    ∃ c' idx, rd.advance answers path c = .inr c' ∧ c.indexRedirected = false ∧ c.remaining = [] ∧
      c'.fetches = c.fetches + 1 ∧ c'.redirects = c.redirects ++ [idx] ∧ c'.remaining = utf8 idx ∧
      c'.indexRedirected = true := by
  unfold advance
  cases fetched : { rd with get := answers c.fetches }.fetchNode c.current with
  | error stop => exact .inl ⟨_, rfl, rfl, rfl⟩
  | ok node =>
    dsimp only
    split
    · rename_i empty
      split
      · exact .inl ⟨_, rfl, rfl, rfl⟩
      · split
        · rename_i idx redirect
          have fresh : c.indexRedirected = false := by
            cases turned : c.indexRedirected with
            | false => rfl
            | true =>
              rw [turned] at redirect
              cases redirect
          exact .inr (.inr ⟨_, idx, rfl, fresh, empty, rfl, rfl, rfl, rfl⟩)
        · exact .inl ⟨_, rfl, rfl, rfl⟩
    · rename_i first rest path_eq
      split
      · exact .inl ⟨_, rfl, rfl, rfl⟩
      · rename_i fork found
        split
        · refine .inr (.inl ⟨_, rfl, rfl, rfl, rfl, ?_⟩)
          obtain ⟨data, -, decoded⟩ := fetchNode_ok fetched
          have here := (lookup_eq_some_of_nodup (decodeNode_keys decoded)).mp found
          have proper : 0 < fork.prefixBytes.length := List.length_pos_iff.mpr (decodeNode_proper decoded _ here)
          rw [List.length_drop, path_eq, List.length_cons]
          omega
        · exact .inl ⟨_, rfl, rfl, rfl⟩

def Ends (rd : Reader) (answers : Answers) (path : String) (c : Cursor) (v : Visit) : Prop :=
  ∃ n, ∀ fuel ≥ n, rd.visitFrom answers path fuel c = some v

theorem Ends.now {c : Cursor} {v : Visit} (done : rd.advance answers path c = .inl v) : Ends rd answers path c v := by
  refine ⟨1, fun fuel enough => ?_⟩
  obtain ⟨fuel, rfl⟩ : ∃ n, fuel = n + 1 := ⟨fuel - 1, by omega⟩
  rw [visitFrom, done]

theorem Ends.later {c c' : Cursor} {v : Visit} (went : rd.advance answers path c = .inr c')
    (ends : Ends rd answers path c' v) : Ends rd answers path c v := by
  obtain ⟨n, ends⟩ := ends
  refine ⟨n + 1, fun fuel enough => ?_⟩
  obtain ⟨fuel, rfl⟩ : ∃ n, fuel = n + 1 := ⟨fuel - 1, by omega⟩
  rw [visitFrom, went]
  exact ends fuel (by omega)

theorem ends_redirected {c : Cursor} (redirected : c.indexRedirected = true) :
    ∃ v, Ends rd answers path c v ∧ v.redirects = c.redirects ∧ v.fetches ≤ c.fetches + c.remaining.length + 1 := by
  induction length : c.remaining.length using Nat.strong_induction_on generalizing c with
  | h m ih =>
    rcases @advance_cases rd answers path c with
      ⟨v, done, count, same⟩ | ⟨c', went, count, same, flag, shorter⟩ | ⟨c', idx, went, fresh, -⟩
    · exact ⟨v, .now done, same, by omega⟩
    · obtain ⟨v, ends, kept, bound⟩ := ih _ (length ▸ shorter) (flag.trans redirected) rfl
      exact ⟨v, ends.later went, kept.trans same, by omega⟩
    · rw [redirected] at fresh
      cases fresh

theorem ends_fresh (c : Cursor) :
    ∃ v, Ends rd answers path c v ∧
      ((v.redirects = c.redirects ∧ v.fetches ≤ c.fetches + c.remaining.length + 1) ∨
        ∃ idx, v.redirects = c.redirects ++ [idx] ∧
          v.fetches ≤ c.fetches + c.remaining.length + 1 + (utf8 idx).length + 1) := by
  induction length : c.remaining.length using Nat.strong_induction_on generalizing c with
  | h m ih =>
    rcases @advance_cases rd answers path c with
      ⟨v, done, count, same⟩ | ⟨c', went, count, same, -, shorter⟩ |
        ⟨c', idx, went, -, empty, count, turned, remaining, redirected⟩
    · exact ⟨v, .now done, .inl ⟨same, by omega⟩⟩
    · obtain ⟨v, ends, found⟩ := ih _ (length ▸ shorter) c' rfl
      refine ⟨v, ends.later went, ?_⟩
      rw [same] at found
      rcases found with ⟨kept, bound⟩ | ⟨idx, kept, bound⟩
      · exact .inl ⟨kept, by omega⟩
      · exact .inr ⟨idx, kept, by omega⟩
    · obtain ⟨v, ends, kept, bound⟩ := @ends_redirected rd answers path c' redirected
      refine ⟨v, ends.later went, .inr ⟨idx, kept.trans turned, ?_⟩⟩
      rw [remaining] at bound
      omega

end Reader

theorem lookup_terminates (rd : Reader) (answers : Answers) (root : Bytes 32) (path : String) :
    ∃ v n, (∀ fuel ≥ n, rd.visit answers path fuel root = some v) ∧ v.redirects.length ≤ 1 ∧
      v.fetches ≤ (utf8 path).length + (utf8 (v.redirects.headD "")).length + 2 ∧
      ((∀ i, answers i = rd.get) → ∀ fuel ≥ n, rd.lookupManifestPath fuel root path = some v.result) := by
  obtain ⟨v, ⟨n, ends⟩, found⟩ := @Reader.ends_fresh rd answers path { current := root, remaining := utf8 path }
  refine ⟨v, n, ends, ?_, ?_, fun steady fuel enough => ?_⟩
  · rcases found with ⟨none_, -⟩ | ⟨idx, one, -⟩
    · rw [none_]
      exact Nat.zero_le _
    · rw [one]
      exact Nat.le_refl _
  · rcases found with ⟨none_, bound⟩ | ⟨idx, one, bound⟩
    · rw [none_]
      dsimp only at bound
      omega
    · rw [one]
      dsimp only [List.nil_append, List.headD_cons] at bound ⊢
      omega
  · obtain rfl : answers = fun _ => rd.get := funext steady
    have same := rd.visitFrom_steady path fuel { current := root, remaining := utf8 path }
    rw [ends fuel enough] at same
    exact same.symm

end Hoverfly.Manifest
