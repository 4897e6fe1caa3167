import Hoverfly.Erasure.Integrity

/-! Trees nobody checked: a node's children carry spans of their own, and the joiner compares them with nothing. -/
namespace Hoverfly.Erasure
open Lib

def childrenSpanned (read : List UInt8 → Nat → Nat → Join → Except Halt Unit × Join)
    (check : List UInt8 → Nat → Nat → Join → Bool) : List DecodedChunk → Join → Bool
  | [], _ => true
  | child :: rest, j =>
    match parityOf child.levelAndLen with
    | none => true
    | some childParity =>
      check child.data child.levelAndLen.2 childParity j &&
        match read child.data child.levelAndLen.2 childParity j with
        | (.error _, _) => true
        | (.ok (), j) => childrenSpanned read check rest j

/-- Along the run of `readNode`: a leaf is as long as its span says, and the spans of a node's data children add up
to the node's. -/
def spanned (inFlight : Nat) : Nat → List UInt8 → Nat → Nat → Join → Bool
  | 0, _, _, _, _ => true
  | fuel + 1, data, subtrieSize, parity, j =>
    if subtrieSize ≤ data.length then data.length = subtrieSize
    else
      match children data parity with
      | .error _ => true
      | .ok (addrs, shardCnt) =>
        match fetchNodeChildren addrs shardCnt inFlight j.env with
        | (.error _, _) => true
        | (.ok dcs, env) =>
          ((dcs.take shardCnt).map (·.levelAndLen.2)).sum = subtrieSize &&
            childrenSpanned (readNode inFlight fuel) (spanned inFlight fuel) (dcs.take shardCnt) { j with env }

structure Writes (size : Nat) (j : Join) (result : Except Halt Unit × Join) : Prop where
  most : result.2.out.length ≤ j.out.length + size
  exact_ : result.1.toOption = some () → result.2.out.length = j.out.length + size

theorem Writes.nothing (size : Nat) (j : Join) (env : Env) (halt : Halt) : Writes size j (.error halt, { j with env }) where
  most := Nat.le_add_right _ _
  exact_ := by simp [Except.toOption]

theorem readChildren_writes {read : List UInt8 → Nat → Nat → Join → Except Halt Unit × Join}
    {check : List UInt8 → Nat → Nat → Join → Bool}
    (each : ∀ data size parity j, check data size parity j = true → Writes size j (read data size parity j))
    (dcs : List DecodedChunk) (j : Join) (steps : childrenSpanned read check dcs j = true) :
    Writes (dcs.map (·.levelAndLen.2)).sum j (readChildren read dcs j) := by
  induction dcs generalizing j with
  | nil => exact ⟨Nat.le_add_right _ _, fun _ => rfl⟩
  | cons child rest ih =>
    rw [childrenSpanned] at steps
    rw [readChildren, List.map_cons, List.sum_cons]
    cases counted : parityOf child.levelAndLen with
    | none => exact .nothing _ j j.env _
    | some parity =>
      simp only [counted, Bool.and_eq_true] at steps
      have here := each child.data child.levelAndLen.2 parity j steps.1
      cases run : read child.data child.levelAndLen.2 parity j with
      | mk result mid =>
        rw [run] at here
        simp only [run] at steps ⊢
        cases result with
        | error halt => exact ⟨Nat.le_trans here.most (by omega), by simp [Except.toOption]⟩
        | ok _ =>
          have later := ih mid steps.2
          have done := here.exact_ rfl
          dsimp only at done
          refine ⟨Nat.le_trans later.most (by omega), fun ended => ?_⟩
          exact (later.exact_ ended).trans (by omega)

theorem readNode_writes (inFlight fuel : Nat) (data : List UInt8) (size parity : Nat) (j : Join)
    (steps : spanned inFlight fuel data size parity j = true) :
    Writes size j (readNode inFlight fuel data size parity j) := by
  induction fuel generalizing data size parity j with
  | zero => exact .nothing size j j.env _
  | succ fuel ih =>
    rw [spanned] at steps
    rw [readNode]
    by_cases leaf : size ≤ data.length
    · rw [if_pos leaf] at steps ⊢
      have length : data.length = size := of_decide_eq_true steps
      refine ⟨?_, fun _ => ?_⟩ <;> simp [length]
    · rw [if_neg leaf] at steps ⊢
      cases laid : children data parity with
      | error e => exact .nothing size j j.env _
      | ok layout =>
        obtain ⟨addrs, shardCnt⟩ := layout
        simp only [laid] at steps ⊢
        cases fetched : fetchNodeChildren addrs shardCnt inFlight j.env with
        | mk result env =>
          simp only [fetched] at steps ⊢
          cases result with
          | error halt => exact .nothing size j env halt
          | ok dcs =>
            simp only [Bool.and_eq_true, decide_eq_true_eq] at steps
            have all := readChildren_writes (ih · · · ·) (dcs.take shardCnt) { j with env } steps.2
            rw [steps.1] at all
            exact ⟨all.most, all.exact_⟩

/-- The buffer when the read of the root ends, before it is cut to the span. -/
def fetchBuffer (fuel : Nat) (root : Addr) (inFlight : Nat) (env : Env) : List UInt8 :=
  match env.head.answer root with
  | .error _ => []
  | .ok rootWire =>
    match DecodedChunk.fromWire rootWire with
    | .error _ => []
    | .ok rootDc =>
      match parityOf rootDc.levelAndLen with
      | none => []
      | some rootParity =>
        (readNode (max inFlight 1) fuel rootDc.data rootDc.levelAndLen.2 rootParity
          { out := [], env := env.tail }).2.out

def fetchSpanned (fuel : Nat) (root : Addr) (inFlight : Nat) (env : Env) : Bool :=
  match env.head.answer root with
  | .error _ => true
  | .ok rootWire =>
    match DecodedChunk.fromWire rootWire with
    | .error _ => true
    | .ok rootDc =>
      match parityOf rootDc.levelAndLen with
      | none => true
      | some rootParity =>
        spanned (max inFlight 1) fuel rootDc.data rootDc.levelAndLen.2 rootParity { out := [], env := env.tail }

/-- In a run whose every step meets spans that add up, the buffer never exceeds the root's span and a result is as
long as it. -/
theorem spanned_fetch_within_span {fuel inFlight : Nat} {root : Addr} {env : Env} {wire : Wire} {dc : DecodedChunk}
    (got : env.head.answer root = .ok wire) (parsed : DecodedChunk.fromWire wire = .ok dc)
    (steps : fetchSpanned fuel root inFlight env = true) :
    (fetchBuffer fuel root inFlight env).length ≤ dc.levelAndLen.2 ∧
      ∀ out, fetchErasureBytes fuel root inFlight env = .ok out → out.length = dc.levelAndLen.2 := by
  simp only [fetchSpanned, got, parsed] at steps
  simp only [fetchBuffer, fetchErasureBytes, got, parsed]
  cases counted : parityOf dc.levelAndLen with
  | none => simp
  | some parity =>
    simp only [counted] at steps ⊢
    have writes := readNode_writes _ _ _ _ _ _ steps
    obtain ⟨most, exact_⟩ := writes
    simp only [List.length_nil, Nat.zero_add] at most exact_
    refine ⟨most, fun out ended => ?_⟩
    split at ended
    · cases ended
    rename_i j run
    cases ended
    rw [run] at exact_
    rw [List.length_take, exact_ rfl, Nat.min_self]

def twinRoot (span : Nat) (leaf : Wire) : Wire :=
  toLe spanSize span ++ refBytes [reference sizeHash leaf, reference sizeHash leaf]

def twinStore (span : Nat) (leaf : Wire) : Env := serving (contentOf [twinRoot span leaf, leaf]) fun _ => false

def fortyWire : Wire := leafWire (List.replicate 40 7)

theorem spanned_fetch_twins :
    (fetchBuffer 2 (reference sizeHash (twinRoot 80 fortyWire)) 1 (twinStore 80 fortyWire)).length ≤ 80 ∧
      ∀ out, fetchErasureBytes 2 (reference sizeHash (twinRoot 80 fortyWire)) 1 (twinStore 80 fortyWire) = .ok out →
        out.length = 80 := by
  have served : ((twinStore 80 fortyWire).head.answer (reference sizeHash (twinRoot 80 fortyWire))).toOption =
      some (twinRoot 80 fortyWire) := by decide +kernel
  have steps : fetchSpanned 2 (reference sizeHash (twinRoot 80 fortyWire)) 1 (twinStore 80 fortyWire) = true := by
    decide +kernel
  have parsed := fromWire_ok (show spanSize ≤ (twinRoot 80 fortyWire).length by decide +kernel)
  cases got : (twinStore 80 fortyWire).head.answer (reference sizeHash (twinRoot 80 fortyWire)) with
  | error text =>
    rw [got] at served
    cases served
  | ok wire =>
    rw [got] at served
    cases served
    exact spanned_fetch_within_span got parsed steps

/-- A child of forty bytes whose span says none, and a child of one byte, under a root that promises sixty-five. -/
theorem hostile_children_break_span :
    Addressed sizeHash (contentOf [twinRoot 65 (toLe spanSize 0 ++ List.replicate 40 7),
      toLe spanSize 0 ++ List.replicate 40 7]) ∧
    (fetchBuffer 2 (reference sizeHash (twinRoot 65 (toLe spanSize 0 ++ List.replicate 40 7))) 1
      (twinStore 65 (toLe spanSize 0 ++ List.replicate 40 7))).length = 80 ∧
    Addressed sizeHash (contentOf [twinRoot 65 (leafWire [7]), leafWire [7]]) ∧
    (fetchErasureBytes 2 (reference sizeHash (twinRoot 65 (leafWire [7]))) 1
      (twinStore 65 (leafWire [7]))).toOption = some [7, 7] := by
  refine ⟨contentOf_addressed _, ?_, contentOf_addressed _, ?_⟩
  · decide +kernel
  · decide +kernel

end Hoverfly.Erasure
