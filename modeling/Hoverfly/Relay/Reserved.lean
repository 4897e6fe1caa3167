import Mathlib.Algebra.BigOperators.Group.List.Basic
import Hoverfly.Lib.Fold
import Hoverfly.Relay.Push

/-! What each account has reserved is what its live requests hold. -/
namespace Hoverfly.Relay
open Lib Meter Push

namespace Task

def guard : Task → Option Admitted
  | .reading guard _ => guard
  | .pushing guard _ => guard
  | _ => none

def holding : Task → Option (EthAddr × Nat)
  | .refused account reservedPlur _ => some (account, reservedPlur)
  | .checked .. => none
  | .reading guard _ => guard.map fun g => (g.account, g.reservedPlur)
  | .pushing guard _ => guard.map fun g => (g.account, g.reservedPlur)
  | .ended _ => none

def amountOf (account : EthAddr) : Option (EthAddr × Nat) → Nat
  | none => 0
  | some (other, amount) => if account = other then amount else 0

def held (account : EthAddr) (t : Task) : Nat := amountOf account t.holding

end Task

namespace State

def held (r : State) (account : EthAddr) : Nat := (r.tasks.map (Task.held account)).sum

inductive Moves (cfg : MeterConfig) (path : String) (r : State) : Event → State → Prop
  | idle (e : Event) : Moves cfg path r e r
  | request (req : Request) :
      Moves cfg path r (.request req) (r.spawn (afterCheck req (admitCheck cfg r.store.mem req)))
  | reserve (id : Nat) (verified : VerifiedChallenge) (declared : Nat)
      (found : r.tasks[id]? = some (.checked verified declared)) :
      Moves cfg path r (.reserve id)
        ((r.call path (.reserve verified.account (cfg.params.priceBytes declared) verified.capPlur)).setTask id
          (afterReserve cfg verified declared
            (r.store.mem.reserve verified.account (cfg.params.priceBytes declared) verified.capPlur).2))
  | release (e : Event) (id : Nat) (t : Task) (account : EthAddr) (amount : Nat) (answer : Option Refusal)
      (found : r.tasks[id]? = some t) (holds : t.holding = some (account, amount)) :
      Moves cfg path r e ((r.call path (.release account amount)).setTask id (.ended answer))
  | finish (e : Event) (id : Nat) (t : Task) (answer : Option Refusal) (found : r.tasks[id]? = some t)
      (empty : t.holding = none) : Moves cfg path r e (r.setTask id (.ended answer))
  | body (id : Nat) (guard : Option Admitted) (contentLength : Option Nat) (read : BodyRead)
      (chunks : List StampedChunk) (found : r.tasks[id]? = some (.reading guard contentLength))
      (decoded : readFrames read = .ok chunks) :
      Moves cfg path r (.body id read) (r.setTask id (.pushing guard chunks))
  | commit (id : Nat) (guard : Admitted) (chunks : List StampedChunk) (world : FrameWorld)
      (fault : Option String) (found : r.tasks[id]? = some (.pushing (some guard) chunks)) :
      Moves cfg path r (.commit id world fault)
        ((r.commitGuard cfg path (frameLoop (some guard) world chunks).billableBytes fault (some guard)).setTask id
          (.ended none))
  | pay (account chequebook : EthAddr) (cumulative : Nat) (signature : Bytes 65) (fault : Option String) :
      Moves cfg path r (.pay account chequebook cumulative signature fault)
        (r.call path (.credit account chequebook cumulative signature fault))
  | restart (entropy : Bytes 32) (fault : Option String) :
      Moves cfg path r (.restart entropy fault) { r.call path (.reload entropy fault) with tasks := [] }

variable {r : State} {id amount : Nat} {t : Task} {account : EthAddr} {cfg : MeterConfig} {path : String}

theorem moves_dropGuard (cfg : MeterConfig) (path : String) (e : Event)
    (found : r.tasks[id]? = some t) {guard : Option Admitted}
    (holds : t.holding = guard.map fun g => (g.account, g.reservedPlur)) (answer : Option Refusal) :
    Moves cfg path r e ((r.dropGuard path guard).setTask id (.ended answer)) := by
  cases guard with
  | none => exact .finish e id t answer found holds
  | some g => exact .release e id t g.account g.reservedPlur answer found holds

theorem step_moves (cfg : MeterConfig) (path : String) (r : State) (e : Event) :
    Moves cfg path r e (r.step cfg path e) := by
  cases e with
  | request req => exact .request req
  | reserve id =>
    dsimp only [step]
    split
    · exact .reserve id _ _ ‹_›
    · exact .idle _
  | release id =>
    dsimp only [step]
    split
    · exact .release _ id _ _ _ _ ‹_› rfl
    · exact .idle _
  | body id read =>
    dsimp only [step]
    split
    · split
      · exact moves_dropGuard cfg path _ ‹_› rfl _
      · exact .body id _ _ read _ ‹_› ‹_›
    · exact .idle _
  | cancel id =>
    dsimp only [step]
    split
    · exact moves_dropGuard cfg path _ ‹_› rfl _
    · exact moves_dropGuard cfg path _ ‹_› rfl _
    · exact .idle _
  | commit id world fault =>
    dsimp only [step]
    split
    · rename_i guard chunks found
      cases guard with
      | none => exact .finish _ id _ _ found rfl
      | some g => exact .commit id g chunks world fault found
    · exact .idle _
  | pay account chequebook cumulative signature fault => exact .pay account chequebook cumulative signature fault
  | restart entropy fault => exact .restart entropy fault

def checkedAt (r : State) (id : Nat) : Option (VerifiedChallenge × Nat) :=
  match r.tasks[id]? with
  | some (.checked verified declared) => some (verified, declared)
  | _ => none

/-- No reservation leaves the range of `u128`, and the relay comes up again after a restart. -/
def InRange (cfg : MeterConfig) (path : String) (r : State) : Event → Prop
  | .reserve id => ∀ x ∈ r.checkedAt id,
      Fits 128 (r.store.mem.reserved x.1.account + cfg.params.priceBytes x.2)
  | .restart entropy fault => (Ledger.loadOrCreate path entropy fault r.store.file).2.isOk
  | _ => True

instance (cfg : MeterConfig) (path : String) (r : State) : (e : Event) → Decidable (r.InRange cfg path e)
  | .reserve _ | .restart .. => by unfold InRange; infer_instance
  | .request _ | .release _ | .body .. | .cancel _ | .commit .. | .pay .. => .isTrue trivial

def NoLeak (r : State) : Prop := ∀ account, r.store.mem.reserved account = r.held account

theorem held_setTask (found : r.tasks[id]? = some t) (t' : Task)
    (account : EthAddr) : (r.setTask id t').held account + t.held account = r.held account + t'.held account :=
  sum_map_set (Task.held account) r.tasks id t' t found

theorem held_le (found : r.tasks[id]? = some t) (account : EthAddr) :
    t.held account ≤ r.held account := by
  have moved := held_setTask found (.ended none) account
  have none_ : (Task.ended none).held account = 0 := rfl
  omega

theorem held_spawn (r : State) (empty : t.holding = none) (account : EthAddr) :
    (r.spawn t).held account = r.held account := by
  have none_ : t.held account = 0 := by rw [Task.held, empty, Task.amountOf]
  simp [held, spawn, none_]

theorem holding_afterCheck (req : Request) (answer : Except Refusal (Option (VerifiedChallenge × Nat))) :
    (afterCheck req answer).holding = none := by
  unfold afterCheck
  split <;> rfl

theorem holding_afterReserve (cfg : MeterConfig) (verified : VerifiedChallenge) (declared : Nat) (adm : Admission) :
    (afterReserve cfg verified declared adm).holding = some (verified.account, adm.reservedPlur) := by
  unfold afterReserve
  split <;> rfl

theorem reserved_credit (s : Store) (path : String) (account chequebook : EthAddr) (cumulative : Nat)
    (signature : Bytes 65) (fault : Option String) :
    (s.apply path (.credit account chequebook cumulative signature fault)).mem.reserved = s.mem.reserved := by
  dsimp only [Store.apply]
  rcases Metered.credit_spec s.mem account chequebook cumulative signature fault s.file with
    ⟨mem, e, out, same, _⟩ | ⟨mem, file, out, _, _, _, _, _, _, book⟩
  · rw [out]
    have reserved := congrArg Book.reserved same
    exact reserved
  · rw [out]
    have reserved := congrArg Book.reserved book
    exact reserved

theorem held_of_holding (holds : t.holding = some (account, amount)) :
    t.held account = amount ∧ ∀ other, other ≠ account → t.held other = 0 := by
  simp only [Task.held, holds, Task.amountOf, if_true, true_and]
  exact fun other ne => if_neg ne

inductive Shift (fits : Prop) (reserved held : Nat) : Nat → Nat → Prop
  | same : Shift fits reserved held reserved held
  | take (amount : Nat) (inRange : fits → Fits 128 (reserved + amount)) :
      Shift fits reserved held (satAdd 128 reserved amount) (held + amount)
  | give (amount left : Nat) (rest : left + amount = held) : Shift fits reserved held (reserved - amount) left
  | restart : Shift fits reserved held 0 0

theorem Shift.exact {fits : Prop} {reserved held reserved' held' : Nat}
    (shift : Shift fits reserved held reserved' held') (ok : fits) (before : reserved = held) :
    reserved' = held' := by
  cases shift with
  | same => exact before
  | take amount inRange => rw [satAdd_of_fits (inRange ok), before]
  | give amount left rest => omega
  | restart => rfl

theorem shift_give (fits : Prop)
    (found : r.tasks[id]? = some t) (holds : t.holding = some (account, amount)) (answer : Option Refusal)
    {store : Store}
    (reserved : store.mem.reserved = Function.update r.store.mem.reserved account
      (r.store.mem.reserved account - amount)) (other : EthAddr) :
    Shift fits (r.store.mem.reserved other) (r.held other) (store.mem.reserved other)
      ((setTask { r with store } id (.ended answer)).held other) := by
  have moved : (setTask { r with store } id (.ended answer)).held other + t.held other = r.held other + 0 :=
    held_setTask (r := { r with store }) found (.ended answer) other
  obtain ⟨mine, none_⟩ := held_of_holding holds
  rw [reserved]
  by_cases same : other = account
  · subst same
    rw [Function.update_self]
    exact .give amount _ (by omega)
  · have kept : (setTask { r with store } id (.ended answer)).held other = r.held other := by
      have zero := none_ other same
      omega
    rw [Function.update_of_ne same, kept]
    exact .same

theorem shift_take (fits : Prop) {t' : Task}
    (found : r.tasks[id]? = some t) (empty : t.holding = none) (holds : t'.holding = some (account, amount))
    (inRange : fits → Fits 128 (r.store.mem.reserved account + amount)) {store : Store}
    (reserved : store.mem.reserved = Function.update r.store.mem.reserved account
      (satAdd 128 (r.store.mem.reserved account) amount)) (other : EthAddr) :
    Shift fits (r.store.mem.reserved other) (r.held other) (store.mem.reserved other)
      ((setTask { r with store } id t').held other) := by
  have moved : (setTask { r with store } id t').held other + t.held other = r.held other + t'.held other :=
    held_setTask (r := { r with store }) found t' other
  have nothing : t.held other = 0 := by rw [Task.held, empty, Task.amountOf]
  obtain ⟨mine, none_⟩ := held_of_holding holds
  rw [reserved]
  by_cases same : other = account
  · subst same
    have more : (setTask { r with store } id t').held other = r.held other + amount := by omega
    rw [Function.update_self, more]
    exact .take amount inRange
  · have kept : (setTask { r with store } id t').held other = r.held other := by
      have zero := none_ other same
      omega
    rw [Function.update_of_ne same, kept]
    exact .same

theorem shift_kept (fits : Prop) (found : r.tasks[id]? = some t) {t' : Task}
    (same : t'.held account = t.held account) :
    Shift fits (r.store.mem.reserved account) (r.held account) (r.store.mem.reserved account)
      ((r.setTask id t').held account) := by
  have moved := held_setTask found t' account
  have kept : (r.setTask id t').held account = r.held account := by omega
  rw [kept]
  exact .same

theorem fits_of_inRange
    {verified : VerifiedChallenge} {declared : Nat} (found : r.tasks[id]? = some (.checked verified declared))
    (inRange : r.InRange cfg path (.reserve id)) :
    Fits 128 (r.store.mem.reserved verified.account + cfg.params.priceBytes declared) := by
  refine inRange (verified, declared) ?_
  unfold checkedAt
  rw [found]
  exact rfl

theorem reserved_reload {entropy : Bytes 32} {fault : Option String} (s : Store)
    (up : (Ledger.loadOrCreate path entropy fault s.file).2.isOk) (account : EthAddr) :
    (s.apply path (.reload entropy fault)).mem.reserved account = 0 := by
  dsimp only [Store.apply]
  cases out : Ledger.loadOrCreate path entropy fault s.file with
  | mk file answer =>
  cases answer with
  | error e =>
    rw [out] at up
    cases up
  | ok mem =>
    dsimp only
    unfold Ledger.loadOrCreate at out
    cases held : s.file with
    | some disk =>
      rw [held] at out
      exact Ledger.reserved_load (congrArg Prod.snd out) account
    | none =>
      rw [held] at out
      cases fault with
      | none =>
        cases out
        rfl
      | some e => cases out

theorem Moves.shift {r' : State} {e : Event} (moves : Moves cfg path r e r')
    (up : ∀ entropy fault, e = .restart entropy fault →
      (Ledger.loadOrCreate path entropy fault r.store.file).2.isOk) (account : EthAddr) :
    Shift (r.InRange cfg path e) (r.store.mem.reserved account) (r.held account) (r'.store.mem.reserved account)
      (r'.held account) := by
  cases moves with
  | idle => exact .same
  | request req =>
    rw [held_spawn r (holding_afterCheck ..)]
    exact .same
  | reserve id verified declared found =>
    have reserved := congrArg Book.reserved (r.store.mem.book_reserve verified.account
      (cfg.params.priceBytes declared) verified.capPlur)
    refine shift_take _ found rfl (holding_afterReserve ..) (fits_of_inRange found) ?_ account
    exact reserved
  | release _ id t other amount answer found holds =>
    have reserved := congrArg Book.reserved (r.store.mem.book_release other amount)
    refine shift_give _ found holds answer ?_ account
    exact reserved
  | finish _ id t answer found empty =>
    have none_ : t.held account = 0 := by rw [Task.held, empty, Task.amountOf]
    exact shift_kept _ found none_.symm
  | body id guard contentLength read chunks found decoded => exact shift_kept _ found rfl
  | commit id guard chunks world fault found =>
    have reserved := congrArg Book.reserved (r.store.mem.book_commit guard.account guard.reservedPlur
      (cfg.params.priceBytes (frameLoop (some guard) world chunks).billableBytes))
    refine shift_give _ found rfl none ?_ account
    exact reserved
  | pay other chequebook cumulative signature fault =>
    have same := congrFun (reserved_credit r.store path other chequebook cumulative signature fault) account
    show Shift _ _ _ ((r.store.apply path _).mem.reserved account) _
    rw [same]
    exact .same
  | restart entropy fault =>
    have none_ := reserved_reload r.store (up entropy fault rfl) account
    show Shift _ _ _ ((r.store.apply path _).mem.reserved account) 0
    rw [none_]
    exact .restart

theorem NoLeak.moves {r' : State} (exact_ : r.NoLeak) {e : Event}
    (inRange : r.InRange cfg path e) (moves : Moves cfg path r e r') : r'.NoLeak := by
  intro account
  refine (moves.shift ?_ account).exact inRange (exact_ account)
  rintro entropy fault rfl
  exact inRange

structure Exact (cfg : MeterConfig) (path : String) (r : State) : Prop where
  reserved : ∀ account, r.store.mem.reserved account = r.held account
  idle : ∀ account, (∀ t ∈ r.tasks, t.held account = 0) → r.store.mem.reserved account = 0
  unclamped : ∀ t ∈ r.tasks, ∀ account amount, t.holding = some (account, amount) →
    amount ≤ r.store.mem.reserved account
  cheque : ∀ account chequebook cumulative signature fault,
    (r.step cfg path (.pay account chequebook cumulative signature fault)).store.mem.reserved =
      r.store.mem.reserved

theorem NoLeak.exact (exact_ : r.NoLeak) (cfg : MeterConfig) (path : String) : Exact cfg path r where
  reserved := exact_
  idle account none_ := by
    rw [exact_ account, held, List.sum_eq_zero]
    intro amount member
    obtain ⟨t, inside, rfl⟩ := List.mem_map.mp member
    exact none_ t inside
  unclamped t member account amount holds := by
    obtain ⟨id, found⟩ := List.mem_iff_getElem?.mp member
    rw [exact_ account, ← (held_of_holding holds).1]
    exact held_le found account
  cheque account chequebook cumulative signature fault :=
    reserved_credit r.store path account chequebook cumulative signature fault

theorem reservations_exact (cfg : MeterConfig) (path : String) (store : Store) (events : List Event)
    (fresh : ∀ account, store.mem.reserved account = 0)
    (inRange : Along (InRange cfg path) (step cfg path) { store, tasks := [] } events) :
    Exact cfg path (run (step cfg path) { store, tasks := [] } events) := by
  have start : NoLeak { store, tasks := [] } := fresh
  have exact_ := invariant_along NoLeak (InRange cfg path) (step cfg path)
    (fun r e exact_ inRange => exact_.moves inRange (r.step_moves cfg path e)) _ events start inRange
  exact exact_.exact cfg path

def ready : State := opened "ledger.json" (Bytes.replicate 32 0)

def post (account : EthAddr) (capPlur declared : Nat) : Event :=
  .request
    { challenge := some (.ok { account, batch := Bytes.replicate 32 0, capPlur })
      allowed := true
      contentLength := some declared }

def refusedAndCut : List Event :=
  [post Store.someone 480000000 2048, post Store.someone 480000000 1024, .reserve 0, .reserve 1, .release 0,
    .cancel 1]

theorem reservations_exact_refusedAndCut :
    Exact { params := Params.default, hardMode := true } "ledger.json"
      (run (step { params := Params.default, hardMode := true } "ledger.json") ready refusedAndCut) :=
  reservations_exact _ _ ready.store refusedAndCut (fun _ => rfl) (by decide +kernel)

def hugePrice : MeterConfig where
  params :=
    { pricePlurPerKib := 2 ^ 127, minChequePlur := 1, settleEveryPlur := 1, maxOutstandingPlur := 2
      creditRatio := 1 }
  hardMode := false

def threePosts : List Event :=
  [post Store.someone 2 1024, post Store.someone 2 1024, post Store.someone 2 1024, .reserve 0, .reserve 1,
    .reserve 2, .cancel 0, .cancel 1]

/-- The sum of the three saturates, two releases take it to zero, and the third request still
holds its reservation. -/
theorem threePosts_clamp :
    let r := run (step hugePrice "ledger.json") ready threePosts
    hugePrice.params.validate.isOk = true ∧ r.store.mem.reserved Store.someone = 0 ∧
      r.held Store.someone = 2 ^ 127 := by
  decide +kernel

end State

end Hoverfly.Relay
