import Mathlib.Data.List.Sort
import Mathlib.Data.Stream.Init
import Mathlib.Data.List.Infix
import Mathlib.Algebra.Group.Nat.Defs

/-! One dispatch of a chunk: a race of the sessions that can take it, nearest first, and what is tried when it is
lost. The network and the pool answer through a `World`. -/
namespace Hoverfly.Dispatch

inductive TransportError where
  | peer (message : String)
  | other (text : String)
deriving DecidableEq

def TransportError.message : TransportError → String
  | .peer message => s!"pushsync: peer error: {message}"
  | .other text => text

def isBatchNotFound : TransportError → Bool
  | .peer message =>
    "batchstore get".toList <:+: message.toList ∧ "storage: not found".toList <:+: message.toList
  | .other _ => false

inductive ClientError where
  | noPeers (reason : String)
  | batchNotFound (reason : String)
  | shallowOnly
deriving DecidableEq

def ClientError.message : ClientError → String
  | .noPeers reason => s!"no peers: {reason}"
  | .batchNotFound reason => s!"batch not on-chain or expired: {reason}"
  | .shallowOnly => "shallow-only receipt (no neighborhood storer reached)"

structure PushInfo where
  po : UInt8
  ms : Nat
  bestPo : UInt8
  shallow : Bool
deriving DecidableEq

inductive PushOutcome where
  | receipt
  | overdraft
  | shallow

structure Session where
  dead : Bool := false
  inflightPushes : Nat := 0
  inflightCap : Nat := 1
  alive : Bool := true
  hasPending : Bool := false
  cooling : Bool := false
  storageRadius : UInt8 := 0

inductive Rejection where
  | dead
  | atCap
  | deadSessionCooldown
deriving DecidableEq

def Session.rejection (s : Session) : Option Rejection :=
  if s.dead then some .dead
  else if s.inflightPushes ≥ s.inflightCap then some .atCap
  else if s.alive then none
  else if s.hasPending then none
  else if s.cooling then some .deadSessionCooldown
  else none

def Session.inAor (s : Session) (chunkPo : UInt8) : Option Bool :=
  if s.storageRadius = 0 then none else some (chunkPo ≥ s.storageRadius)

/-- Of the attempts in flight one answers, after the preempt timer has fired so many times. -/
structure Answer where
  preempts : Nat := 0
  pick : Nat := 0
  outcome : Except TransportError PushOutcome

structure World where
  /-- The proximity of each session's overlay to the chunk; the pool is as long. -/
  po : List UInt8
  /-- The session with a given number, at the look with a given number. -/
  look : Nat → Nat → Session
  answers : Stream' Answer
  later : Stream' (Except TransportError PushOutcome)
  chunkMs : Nat

namespace World

def poOf (w : World) (idx : Nat) : UInt8 := w.po.getD idx 0

def rejected (w : World) (look : Nat) (why : Rejection) : Nat :=
  (List.range w.po.length).countP fun idx => (w.look look idx).rejection = some why

def aor (w : World) (look idx : Nat) : Nat :=
  match (w.look look idx).inAor (w.poOf idx) with
  | some true => 0
  | none => 1
  | some false => 2

def before (w : World) (look a b : Nat) : Bool :=
  w.aor look a < w.aor look b ∨ (w.aor look a = w.aor look b ∧ w.poOf b ≤ w.poOf a)

def buildOrder (w : World) (look : Nat) : List Nat :=
  ((List.range w.po.length).filter fun idx => (w.look look idx).rejection.isNone).insertionSort
    fun a b => w.before look a b = true

end World

def chunkPeerParallelism : Nat := 3

structure Race where
  order : List Nat
  cap : Nat
  orderIdx : Nat := 0
  attemptNo : Nat := 0
  inflight : List Nat := []
  overdrafts : Nat := 0
  errors : Nat := 0
  shallows : Nat := 0
  bestShallow : Option UInt8 := none
  lastErr : Option TransportError := none

inductive Raced where
  | landed (idx : Nat)
  | lost (race : Race)

namespace Race

def among (maxRetries : Nat) (order : List Nat) : Race :=
  { order, cap := min (max maxRetries 1) order.length }

def launch (r : Race) : Option Race :=
  if r.orderIdx ≥ r.cap then none
  else (r.order[r.orderIdx]?).map fun idx =>
    { r with orderIdx := r.orderIdx + 1, attemptNo := r.attemptNo + 1, inflight := r.inflight ++ [idx] }

def seed : Nat → Race → Race
  | 0, r => r
  | n + 1, r =>
    match r.launch with
    | some r => seed n r
    | none => r

/-- When no session could take the chunk: looks again, up to `left` times. Also the last look. -/
def waitForCapacity (w : World) (maxRetries : Nat) : (left look : Nat) → Race → Race × Nat
  | 0, look, r => (r, look)
  | left + 1, look, r =>
    let order := w.buildOrder (look + 1)
    if order = [] then waitForCapacity w maxRetries left (look + 1) { r with order }
    else (seed chunkPeerParallelism (among maxRetries order), look + 1)

/- The timer's arm: one more attempt while fewer than the full number are in flight. -/
def preempt (r : Race) : Race :=
  if r.inflight.length < chunkPeerParallelism then r.launch.getD r else r

def noteShallow (r : Race) (po : UInt8) : Race :=
  { r with
    shallows := r.shallows + 1
    bestShallow := if r.bestShallow.all (· < po) then some po else r.bestShallow }

def note (w : World) (r : Race) (idx : Nat) : Except TransportError PushOutcome → Option Race
  | .ok .receipt => none
  | .ok .overdraft => some { r with overdrafts := r.overdrafts + 1 }
  | .ok .shallow => some (r.noteShallow (w.poOf idx))
  | .error e => some { r with errors := r.errors + 1, lastErr := some e }

def loop (w : World) : (fuel : Nat) → Race → Stream' Answer → Raced
  | 0, r, _ => .lost r
  | fuel + 1, r, answers =>
    let r := if r.inflight = [] then r.preempt else preempt^[answers.head.preempts] r
    match r.inflight[answers.head.pick % r.inflight.length]? with
    | none => .lost r
    | some idx =>
      let left := { r with inflight := r.inflight.eraseIdx (answers.head.pick % r.inflight.length) }
      match left.note w idx answers.head.outcome with
      | none => .landed idx
      | some r => loop w fuel (r.launch.getD r) answers.tail

def open_ (r : Race) : Nat := (r.cap - r.orderIdx) + r.inflight.length

theorem open_launch (r : Race) : (r.launch.getD r).open_ = r.open_ := by
  unfold launch
  split
  · rfl
  · cases r.order[r.orderIdx]? with
    | none => rfl
    | some idx =>
      simp only [Option.map_some, Option.getD_some, open_, List.length_append, List.length_singleton]
      omega

theorem open_preempt (r : Race) : r.preempt.open_ = r.open_ := by
  unfold preempt
  split
  · exact open_launch r
  · rfl

theorem open_preempts (n : Nat) (r : Race) : (preempt^[n] r).open_ = r.open_ := by
  induction n with
  | zero => rfl
  | succ n ih => rw [Function.iterate_succ_apply', open_preempt, ih]

theorem open_note {w : World} {r next : Race} {idx : Nat} {outcome : Except TransportError PushOutcome}
    (noted : r.note w idx outcome = some next) : next.open_ = r.open_ := by
  unfold note at noted
  split at noted
  · cases noted
  all_goals
    cases noted
    rfl

theorem loop_fuel (w : World) (fuel more : Nat) (r : Race) (answers : Stream' Answer) (enough : r.open_ < fuel) :
    loop w (fuel + more) r answers = loop w fuel r answers := by
  induction fuel generalizing r answers with
  | zero => omega
  | succ fuel ih =>
    rw [Nat.add_right_comm]
    unfold loop
    dsimp only
    generalize ready : (if r.inflight = [] then r.preempt else preempt^[answers.head.preempts] r) = q
    have same : q.open_ = r.open_ := by
      rw [← ready]
      split
      · exact open_preempt r
      · exact open_preempts _ r
    split
    · rfl
    rename_i idx found
    split
    · rfl
    rename_i next noted
    apply ih
    rw [open_launch, open_note noted]
    have inside := (List.getElem?_eq_some_iff.mp found).1
    have left := List.length_eraseIdx_of_lt inside
    simp only [open_] at same enough ⊢
    omega

theorem seed_open (n : Nat) (r : Race) : (seed n r).open_ = r.open_ ∧ (seed n r).cap = r.cap := by
  induction n generalizing r with
  | zero => exact ⟨rfl, rfl⟩
  | succ n ih =>
    unfold seed
    cases launched : r.launch with
    | none => exact ⟨rfl, rfl⟩
    | some next =>
      have same : next.open_ = r.open_ := by simpa [launched] using open_launch r
      have cap : next.cap = r.cap := by
        unfold launch at launched
        split at launched
        · cases launched
        · obtain ⟨_, _, rfl⟩ := Option.map_eq_some_iff.mp launched
          rfl
      exact ⟨(ih next).1.trans same, (ih next).2.trans cap⟩

theorem open_among (maxRetries : Nat) (order : List Nat) :
    (seed chunkPeerParallelism (among maxRetries order)).open_ =
      (seed chunkPeerParallelism (among maxRetries order)).cap := by
  rw [(seed_open ..).1, (seed_open ..).2]
  rfl

theorem open_waitForCapacity (w : World) (maxRetries left look : Nat) (r : Race) (full : r.open_ = r.cap) :
    (waitForCapacity w maxRetries left look r).1.open_ = (waitForCapacity w maxRetries left look r).1.cap := by
  induction left generalizing look r with
  | zero => exact full
  | succ left ih =>
    unfold waitForCapacity
    dsimp only
    split
    · exact ih (look + 1) { r with order := _ } full
    · exact open_among ..

end Race

namespace World

def sweep (lastErr : Option TransportError) :
    List Nat → Stream' (Except TransportError PushOutcome) → Except (Option TransportError) Nat
  | [], _ => .error lastErr
  | idx :: rest, answers =>
    match answers.head with
    | .ok .receipt => .ok idx
    | .ok _ => sweep lastErr rest answers.tail
    | .error e => .error (some e)

/-- A race lost to overdrafts and shallow receipts alone: more sessions, or the same after a wait. -/
def fallback (w : World) (r : Race) : Except (Option TransportError) Nat :=
  if r.errors = 0 ∧ (r.overdrafts > 0 ∨ r.shallows > 0) then
    let extra := r.order.drop r.attemptNo
    if extra ≠ [] then sweep r.lastErr extra w.later
    else if r.overdrafts > 0 then sweep r.lastErr (r.order.take r.cap) w.later
    else .error r.lastErr
  else .error r.lastErr

def noPeersText (w : World) (look : Nat) (r : Race) (lastErr : Option TransportError) : String :=
  let dead := w.rejected look .dead
  let atCap := w.rejected look .atCap
  let cooldown := w.rejected look .deadSessionCooldown
  let cause := match lastErr with
    | some e => e.message
    | none =>
      if w.po = [] then "pool empty (all sessions died; top-up found no dialable candidates)"
      else if atCap > 0 ∧ dead = 0 ∧ cooldown = 0 then "all sessions at inflight cap"
      else if dead + atCap + cooldown > 0 then "all sessions filtered (dead/cap/cooldown)"
      else "all overdraft/shallow"
  s!"all {r.cap} attempts failed ({r.overdrafts} overdraft, {r.shallows} shallow, {r.errors} err); " ++
    s!"pool={w.po.length} eligible={w.po.length - (dead + atCap + cooldown)} " ++
    s!"(filtered: dead={dead} cap={atCap} dead_session_cd={cooldown}): {cause}"

/-- A shallow receipt proves a hop and not a storer, so it is an error here. -/
def giveUp (w : World) (look : Nat) (r : Race) (lastErr : Option TransportError) : ClientError :=
  if r.bestShallow.isSome then .shallowOnly
  else
    match lastErr with
    | some e => if isBatchNotFound e then .batchNotFound e.message else .noPeers (w.noPeersText look r lastErr)
    | none => .noPeers (w.noPeersText look r lastErr)

def racers (w : World) (maxRetries : Nat) : Race × Nat :=
  let first := Race.seed chunkPeerParallelism (.among maxRetries (w.buildOrder 0))
  if first.attemptNo = 0 then first.waitForCapacity w maxRetries 30 0 else (first, 0)

def push (w : World) (maxRetries : Nat) : Except ClientError Nat :=
  let (race, look) := w.racers maxRetries
  match race.loop w (race.cap + 1) w.answers with
  | .landed idx => .ok idx
  | .lost race =>
    match w.fallback race with
    | .ok idx => .ok idx
    | .error lastErr => .error (w.giveUp look race lastErr)

def dispatch (w : World) (maxRetries pushed : Nat) : Nat × Except ClientError PushInfo :=
  match w.push maxRetries with
  | .ok idx =>
    (pushed + 1, .ok { po := w.poOf idx
                       ms := min w.chunkMs (2 ^ 32 - 1)
                       bestPo := ((w.buildOrder 0).head?.map w.poOf).getD 0
                       shallow := false })
  | .error e => (pushed, .error e)

theorem racers_fuel (w : World) (maxRetries more : Nat) :
    (w.racers maxRetries).1.loop w ((w.racers maxRetries).1.cap + 1 + more) w.answers =
      (w.racers maxRetries).1.loop w ((w.racers maxRetries).1.cap + 1) w.answers := by
  apply Race.loop_fuel
  have full : (w.racers maxRetries).1.open_ = (w.racers maxRetries).1.cap := by
    unfold racers
    dsimp only
    split
    · exact Race.open_waitForCapacity _ _ _ _ _ (Race.open_among ..)
    · exact Race.open_among ..
  omega

theorem dispatch_pushed (w : World) (maxRetries pushed : Nat) :
    (w.dispatch maxRetries pushed).1 = pushed + if (w.dispatch maxRetries pushed).2.isOk then 1 else 0 := by
  unfold dispatch
  split <;> rfl

end World

end Hoverfly.Dispatch
