import Mathlib.Algebra.Order.BigOperators.Group.List
import Hoverfly.Lib.Fold
import Hoverfly.Session.Accounting

/-! What a session has paid its peer against what it has bought. A pseudosettle asks for the reserve
too, but what is accepted comes off the balance alone; the rest is paid again once the push in flight
has its receipt. -/
namespace Hoverfly.Session
open Lib

def Caller.earned : Caller → Nat
  | .receipted price => price
  | _ => 0

namespace Task

def reserved : Task → Nat
  | .sending price => price
  | _ => 0

def earned : Task → Nat
  | .settling caller _ => caller.earned
  | .returned (.receipt price) => price
  | _ => 0

def unbooked : Task → Nat
  | .settling _ (.accepted plur) => plur
  | .settling _ (.emitted plur) => plur
  | _ => 0

theorem reserved_resumed (caller : Caller) : (resumed caller).reserved = 0 := by cases caller <;> rfl

theorem earned_resumed (caller : Caller) : (resumed caller).earned = caller.earned := by cases caller <;> rfl

theorem unbooked_resumed (caller : Caller) : (resumed caller).unbooked = 0 := by cases caller <;> rfl

end Task

namespace SessionState

def inFlightPlur (s : SessionState) : Nat := (s.tasks.map Task.reserved).sum
def earnedPlur (s : SessionState) : Nat := (s.tasks.map Task.earned).sum
def unbookedPlur (s : SessionState) : Nat := (s.tasks.map Task.unbooked).sum

/-- No more is paid than what the pushes with a receipt cost, and those in flight. -/
def PaidOnce (s : SessionState) : Prop := s.acceptedPlur + s.chequedPlur ≤ s.earnedPlur + s.inFlightPlur

/-- What a step pays the peer, or gives up of the reserve. -/
def drawn (s : SessionState) : Event → Nat
  | .run i answer =>
    match s.tasks[i]?, answer with
    | some (.sending price), .error => price
    | some (.settling _ (.asked _)), .accepts plur => plur
    | some (.settling _ (.entered plur)), .go _ => plur
    | _, _ => 0
  | _ => 0

/-- The step leaves enough owed or reserved for all that was paid and has not come off the balance. -/
def Covered (s : SessionState) (event : Event) : Prop :=
  s.wastedPlur + s.unbookedPlur + s.drawn event ≤ s.accounting.balancePlur + s.accounting.reservePlur

instance (s : SessionState) (event : Event) : Decidable (Covered s event) := inferInstanceAs (Decidable (_ ≤ _))

structure Books (s : SessionState) : Prop where
  reserve : s.accounting.reservePlur = s.inFlightPlur
  fits : Fits 64 (s.accounting.balancePlur + s.accounting.reservePlur)
  paid : s.acceptedPlur + s.chequedPlur + s.accounting.balancePlur =
    s.earnedPlur + s.wastedPlur + s.unbookedPlur

variable {s : SessionState} {price i plur : Nat} {t t' : Task}

theorem Books.paidOnce_iff (books : Books s) :
    s.PaidOnce ↔ s.wastedPlur + s.unbookedPlur ≤ s.accounting.balancePlur + s.accounting.reservePlur := by
  obtain ⟨reserve, _, paid⟩ := books
  unfold PaidOnce
  omega

structure Effect (s s' : SessionState) (i : Nat) (t t' : Task) (gained drawn : Nat) : Prop where
  tasks : s'.tasks = s.tasks.set i t'
  reserve : s'.accounting.reservePlur + t.reserved = s.accounting.reservePlur + t'.reserved
  fits : Fits 64 (s'.accounting.balancePlur + s'.accounting.reservePlur)
  paid : s'.acceptedPlur + s'.chequedPlur + s'.accounting.balancePlur + s.wastedPlur + t.earned + t.unbooked =
    s.acceptedPlur + s.chequedPlur + s.accounting.balancePlur + s'.wastedPlur + t'.earned + t'.unbooked
  cover : s'.wastedPlur + t'.unbooked + (s.accounting.balancePlur + s.accounting.reservePlur) + gained =
    s.wastedPlur + t.unbooked + drawn + (s'.accounting.balancePlur + s'.accounting.reservePlur)
  one : gained = 0 ∨ drawn = 0

namespace Effect

variable {s s' : SessionState} {i gained drawn : Nat} {t t' : Task}

theorem books (effect : Effect s s' i t t' gained drawn) (found : s.tasks[i]? = some t) (books : Books s) :
    Books s' := by
  obtain ⟨tasks, reserve, fits, paid, _⟩ := effect
  have reserved := sum_map_set Task.reserved s.tasks i t' t found
  have earned := sum_map_set Task.earned s.tasks i t' t found
  have unbooked := sum_map_set Task.unbooked s.tasks i t' t found
  have before := books.reserve
  have even := books.paid
  constructor
  · unfold inFlightPlur at before ⊢
    rw [tasks]
    omega
  · exact fits
  · unfold earnedPlur unbookedPlur at even ⊢
    rw [tasks]
    omega

theorem paidOnce_iff (effect : Effect s s' i t t' gained drawn) (found : s.tasks[i]? = some t) (books : Books s)
    (once : s.PaidOnce) : s'.PaidOnce ↔
      s.wastedPlur + s.unbookedPlur + drawn ≤ s.accounting.balancePlur + s.accounting.reservePlur := by
  have unbooked := sum_map_set Task.unbooked s.tasks i t' t found
  rw [(effect.books found books).paidOnce_iff]
  have before := books.paidOnce_iff.mp once
  obtain ⟨tasks, _, _, _, cover, one⟩ := effect
  unfold unbookedPlur at before ⊢
  rw [tasks]
  omega

end Effect

theorem tryReserve_spec {acc acc' : AccountingState} (out : acc.tryReserve price = some acc') :
    Fits 64 (acc.balancePlur + (acc.reservePlur + price)) ∧
      acc.balancePlur + (acc.reservePlur + price) ≤ acc.thresholdPlur ∧
      acc' = { acc with reservePlur := acc.reservePlur + price } := by
  unfold AccountingState.tryReserve at out
  split at out
  · cases out
  · split at out
    · cases out
    · rename_i _ fits
      split at out
      · cases out
      · rename_i line
        cases out
        exact ⟨not_not.mp fits, Nat.le_of_not_lt line, rfl⟩

theorem Effect.moved (books : Books s) (i : Nat)
    (reserved : t'.reserved = t.reserved) (earned : t'.earned = t.earned) (unbooked : t'.unbooked = t.unbooked) :
    Effect s (s.put i t') i t t' 0 0 where
  tasks := rfl
  reserve := by rw [reserved]; rfl
  fits := books.fits
  paid := by rw [earned, unbooked]; rfl
  cover := by rw [unbooked]; rfl
  one := .inl rfl

theorem Effect.resumes (books : Books s) (i : Nat) (caller : Caller) {point : Point}
    (unbooked : (Task.settling caller point).unbooked = 0) :
    Effect s (s.put i (.resumed caller)) i (.settling caller point) (.resumed caller) 0 0 :=
  .moved books i (Task.reserved_resumed caller) (Task.earned_resumed caller)
    ((Task.unbooked_resumed caller).trans unbooked.symm)

theorem reserve_effect (books : Books s) (i price : Nat) {short : Task}
    (reserved : t.reserved = 0 ∧ short.reserved = 0) (earned : t.earned = 0 ∧ short.earned = 0)
    (unbooked : t.unbooked = 0 ∧ short.unbooked = 0) :
    ∃ t' gained, Effect s (s.reserve i price short) i t t' gained 0 := by
  unfold reserve
  cases out : s.accounting.tryReserve price with
  | none =>
    refine ⟨short, 0, .moved books i ?_ ?_ ?_⟩
    · exact reserved.2.trans reserved.1.symm
    · exact earned.2.trans earned.1.symm
    · exact unbooked.2.trans unbooked.1.symm
  | some acc =>
    obtain ⟨fits, _, rfl⟩ := tryReserve_spec out
    refine ⟨.sending price, price, ?_⟩
    constructor
    · rfl
    · rw [reserved.1]
      rfl
    · exact fits
    · rw [earned.1, unbooked.1]
      rfl
    · rw [unbooked.1]
      simp only [put, Task.unbooked]
      omega
    · exact .inr rfl

theorem onReceipt_effect (books : Books s) (within : price ≤ s.accounting.reservePlur) :
    ∃ t', Effect s (s.onReceipt i price) i (.sending price) t' 0 0 := by
  have exact_ : satAdd 64 s.accounting.balancePlur price = s.accounting.balancePlur + price :=
    satAdd_of_fits (books.fits.mono (by omega))
  have bought : ∀ t' : Task, t'.reserved = 0 → t'.earned = price → t'.unbooked = 0 →
      Effect s ({ s with accounting := s.accounting.receipt price }.put i t') i (.sending price) t' 0 0 := by
    intro t' reserved earned unbooked
    refine ⟨rfl, ?_, ?_, ?_, ?_, .inl rfl⟩
    · rw [reserved]
      simp only [put, AccountingState.receipt, Task.reserved]
      omega
    · simp only [put, AccountingState.receipt, exact_]
      exact books.fits.mono (by omega)
    · rw [earned, unbooked]
      simp only [put, AccountingState.receipt, exact_, Task.earned, Task.unbooked]
      omega
    · rw [unbooked]
      simp only [put, AccountingState.receipt, exact_, Task.unbooked]
      omega
  unfold onReceipt
  dsimp only
  split
  · exact ⟨_, bought _ rfl rfl rfl⟩
  · exact ⟨_, bought _ rfl rfl rfl⟩

theorem onPushError_effect (books : Books s) (within : price ≤ s.accounting.reservePlur) :
    Effect s (s.onPushError i price) i (.sending price) (.returned .failed) 0 price := by
  have fits := books.fits
  refine ⟨rfl, ?_, ?_, ?_, ?_, .inl rfl⟩
  · simp only [onPushError, put, AccountingState.cancel, Task.reserved]
    omega
  · simp only [onPushError, put, AccountingState.cancel]
    exact fits.mono (by omega)
  · simp only [onPushError, put, AccountingState.cancel, Task.earned, Task.unbooked]
  · simp only [onPushError, put, AccountingState.cancel, Task.unbooked]
    omega

theorem Effect.booked {s' : SessionState} (books : Books s)
    (tasks : s'.tasks = s.tasks.set i t') (reserved : t'.reserved = t.reserved) (earned : t'.earned = t.earned)
    (unbooked : t.unbooked = plur ∧ t'.unbooked = 0)
    (reserve : s'.accounting.reservePlur = s.accounting.reservePlur)
    (balance : s'.accounting.balancePlur = s.accounting.balancePlur - plur)
    (wasted : s'.wastedPlur = s.wastedPlur + (plur - s.accounting.balancePlur))
    (totals : s'.acceptedPlur = s.acceptedPlur ∧ s'.chequedPlur = s.chequedPlur) : Effect s s' i t t' 0 0 where
  tasks := tasks
  reserve := by omega
  fits := books.fits.mono (by omega)
  paid := by omega
  cover := by omega
  one := .inl rfl

theorem onAck_effect (books : Books s) (i : Nat) (caller : Caller) (plur nowMs : Nat) :
    ∃ t', Effect s (s.onAck i caller plur nowMs) i (.settling caller (.accepted plur)) t' 0 0 := by
  have fits := books.fits
  unfold Fits at fits
  have capped : s.accounting.balancePlur - min plur (2 ^ 64 - 1) = s.accounting.balancePlur - plur := by omega
  unfold onAck
  dsimp only
  split
  · exact ⟨_, .booked books rfl rfl rfl ⟨rfl, rfl⟩ rfl capped rfl ⟨rfl, rfl⟩⟩
  · exact ⟨_, .booked books rfl (Task.reserved_resumed caller) (Task.earned_resumed caller)
      ⟨rfl, Task.unbooked_resumed caller⟩ rfl capped rfl ⟨rfl, rfl⟩⟩

theorem Effect.paidOut {s' : SessionState} (books : Books s)
    (tasks : s'.tasks = s.tasks.set i t') (reserved : t'.reserved = t.reserved) (earned : t'.earned = t.earned)
    (unbooked : t.unbooked = 0 ∧ t'.unbooked = plur) (accounting : s'.accounting = s.accounting)
    (wasted : s'.wastedPlur = s.wastedPlur)
    (totals : s'.acceptedPlur + s'.chequedPlur = s.acceptedPlur + s.chequedPlur + plur) :
    Effect s s' i t t' 0 plur where
  tasks := tasks
  reserve := by rw [accounting, reserved]
  fits := accounting ▸ books.fits
  paid := by rw [accounting]; omega
  cover := by rw [accounting]; omega
  one := .inl rfl

theorem Effect.lost (books : Books s) (i : Nat) (caller : Caller) {point : Point}
    (unbooked : (Task.settling caller point).unbooked = plur) :
    Effect s ({ s with wastedPlur := s.wastedPlur + plur }.put i (.resumed caller)) i (.settling caller point)
      (.resumed caller) 0 0 where
  tasks := rfl
  reserve := by rw [Task.reserved_resumed]; rfl
  fits := books.fits
  paid := by
    rw [Task.earned_resumed, Task.unbooked_resumed, unbooked]
    simp only [put, Task.earned]
    omega
  cover := by
    rw [Task.unbooked_resumed, unbooked]
    simp only [put]
    omega
  one := .inl rfl

theorem enterCheque_effect (books : Books s) (i : Nat) (caller : Caller) (plur : Nat) (rates : SettlementRates) :
    ∃ t', Effect s (s.enterCheque i caller plur rates) i (.settling caller (.paying plur)) t' 0 0 := by
  have resumed : Effect s (s.put i (.resumed caller)) i (.settling caller (.paying plur)) (.resumed caller) 0 0 :=
    .resumes books i caller rfl
  unfold enterCheque
  split
  · exact ⟨_, resumed⟩
  · split
    · exact ⟨_, resumed⟩
    · exact ⟨_, rfl, rfl, books.fits, rfl, rfl, .inl rfl⟩

theorem settleStep_effect (books : Books s) (i : Nat) (caller : Caller) (point : Point)
    (answer : Answer) (found : s.tasks[i]? = some (.settling caller point)) :
    s.settleStep i caller point answer = s ∧ s.drawn (.run i answer) = 0 ∨
      ∃ t', Effect s (s.settleStep i caller point answer) i (.settling caller point) t' 0
        (s.drawn (.run i answer)) := by
  simp only [drawn, found]
  cases point with
  | queued =>
    cases answer with
    | go nowMs =>
      simp only [settleStep]
      split
      · exact .inl ⟨rfl, trivial⟩
      · exact .inr ⟨_, .moved books i rfl rfl rfl⟩
    | _ => exact .inl ⟨rfl, rfl⟩
  | resting waitMs =>
    cases answer with
    | go nowMs =>
      simp only [settleStep]
      split
      · exact .inr ⟨_, .resumes books i caller rfl⟩
      · exact .inr ⟨_, .moved books i rfl rfl rfl⟩
    | _ => exact .inl ⟨rfl, rfl⟩
  | asked owed =>
    cases answer with
    | accepts plur =>
      refine .inr ⟨_, .paidOut books rfl rfl rfl ⟨rfl, rfl⟩ rfl rfl ?_⟩
      simp only [settleStep, put]
      omega
    | error => exact .inr ⟨_, .resumes books i caller rfl⟩
    | _ => exact .inl ⟨rfl, rfl⟩
  | accepted plur =>
    cases answer with
    | go nowMs => exact .inr (onAck_effect books i caller plur nowMs)
    | error => exact .inr ⟨_, .lost books i caller rfl⟩
    | _ => exact .inl ⟨rfl, rfl⟩
  | paying plur =>
    cases answer with
    | rates rates => exact .inr (enterCheque_effect books i caller plur rates)
    | error => exact .inr ⟨_, .resumes books i caller rfl⟩
    | _ => exact .inl ⟨rfl, rfl⟩
  | entered plur =>
    cases answer with
    | go nowMs =>
      refine .inr ⟨_, .paidOut books rfl rfl rfl ⟨rfl, rfl⟩ rfl rfl ?_⟩
      simp only [settleStep, put]
      omega
    | error => exact .inr ⟨_, .resumes books i caller rfl⟩
    | _ => exact .inl ⟨rfl, rfl⟩
  | emitted plur =>
    cases answer with
    | go nowMs =>
      exact .inr ⟨_, .booked books rfl (Task.reserved_resumed caller) (Task.earned_resumed caller)
        ⟨rfl, Task.unbooked_resumed caller⟩ rfl rfl rfl ⟨rfl, rfl⟩⟩
    | error => exact .inr ⟨_, .lost books i caller rfl⟩
    | _ => exact .inl ⟨rfl, rfl⟩

theorem Books.price_le (books : Books s)
    (found : s.tasks[i]? = some (.sending price)) : price ≤ s.accounting.reservePlur := by
  rw [books.reserve]
  exact List.single_le_sum (fun _ _ => Nat.zero_le _) _ (List.mem_map.mpr ⟨_, List.mem_of_getElem? found, rfl⟩)

theorem advance_effect (books : Books s) (answer : Answer) (found : s.tasks[i]? = some t) :
    s.advance i t answer = s ∧ s.drawn (.run i answer) = 0 ∨
      ∃ t' gained, Effect s (s.advance i t answer) i t t' gained (s.drawn (.run i answer)) := by
  cases t with
  | fresh price =>
    simp only [drawn, found]
    cases answer with
    | go nowMs => exact .inr (reserve_effect books i price ⟨rfl, rfl⟩ ⟨rfl, rfl⟩ ⟨rfl, rfl⟩)
    | _ => exact .inl ⟨rfl, trivial⟩
  | retry price =>
    simp only [drawn, found]
    cases answer with
    | go nowMs => exact .inr (reserve_effect books i price ⟨rfl, rfl⟩ ⟨rfl, rfl⟩ ⟨rfl, rfl⟩)
    | _ => exact .inl ⟨rfl, trivial⟩
  | sending price =>
    have within := books.price_le found
    simp only [drawn, found]
    cases answer with
    | receipt =>
      obtain ⟨t', effect⟩ := onReceipt_effect books (i := i) within
      exact .inr ⟨t', 0, effect⟩
    | error => exact .inr ⟨_, 0, onPushError_effect books within⟩
    | _ => exact .inl ⟨rfl, rfl⟩
  | settling caller point =>
    refine (settleStep_effect books i caller point answer found).imp_right fun moved => ?_
    obtain ⟨t', effect⟩ := moved
    exact ⟨t', 0, effect⟩
  | returned outcome =>
    simp only [drawn, found]
    cases answer <;> exact .inl ⟨rfl, trivial⟩

theorem called (reserved : t.reserved = 0) (earned : t.earned = 0) (unbooked : t.unbooked = 0) (books : Books s) :
    Books { s with tasks := s.tasks ++ [t] } ∧ (PaidOnce { s with tasks := s.tasks ++ [t] } ↔ s.PaidOnce) := by
  have same : inFlightPlur { s with tasks := s.tasks ++ [t] } = s.inFlightPlur := by
    simp [inFlightPlur, reserved]
  have same' : earnedPlur { s with tasks := s.tasks ++ [t] } = s.earnedPlur := by
    simp [earnedPlur, earned]
  have same'' : unbookedPlur { s with tasks := s.tasks ++ [t] } = s.unbookedPlur := by
    simp [unbookedPlur, unbooked]
  refine ⟨⟨?_, books.fits, ?_⟩, ?_⟩
  · rw [same]
    exact books.reserve
  · rw [same', same'']
    exact books.paid
  · rw [PaidOnce, same, same', PaidOnce]

theorem step_spec (books : Books s) (event : Event) :
    Books (s.step event) ∧ (s.PaidOnce → ((s.step event).PaidOnce ↔ s.Covered event)) := by
  have idle : s.drawn event = 0 → s.PaidOnce → s.Covered event := by
    intro nothing once
    rw [Covered, nothing]
    exact books.paidOnce_iff.mp once
  cases event with
  | push price =>
    obtain ⟨kept, same⟩ := called (t := .fresh price) rfl rfl rfl books
    exact ⟨kept, fun once => iff_of_true (same.mpr once) (idle rfl once)⟩
  | settle =>
    obtain ⟨kept, same⟩ := called (t := .settling .alone .queued) rfl rfl rfl books
    exact ⟨kept, fun once => iff_of_true (same.mpr once) (idle rfl once)⟩
  | run i answer =>
    cases found : s.tasks[i]? with
    | none =>
      have same : s.step (.run i answer) = s := by simp [step, found]
      rw [same]
      exact ⟨books, fun once => iff_of_true once (idle (by simp [drawn, found]) once)⟩
    | some t =>
      have next : s.step (.run i answer) = s.advance i t answer := by simp [step, found]
      rw [next]
      rcases advance_effect books answer found with ⟨same, nothing⟩ | ⟨t', gained, effect⟩
      · rw [same]
        exact ⟨books, fun once => iff_of_true once (idle nothing once)⟩
      · exact ⟨effect.books found books, effect.paidOnce_iff found books⟩

theorem opened_books (thresholdPlur : Nat) (swap : Option SessionSwap) : Books (opened thresholdPlur swap) :=
  ⟨rfl, Nat.two_pow_pos 64, rfl⟩

def twoPushes (first : Nat) : List Event :=
  [.push refreshRatePlur, .push refreshRatePlur, .run 0 (.go 0), .run 1 (.go 0), .run 0 .receipt, .run 0 (.go 0),
    .run 0 (.go 0), .run 0 (.accepts first), .run 0 (.go 0), .run 1 .receipt, .run 1 (.go 0), .run 1 (.go 1100),
    .run 1 (.accepts refreshRatePlur), .run 1 (.go 1100)]

example : Along Covered step (opened safePeerThresholdPlur none) (twoPushes refreshRatePlur) ∧
    (run step (opened safePeerThresholdPlur none) (twoPushes refreshRatePlur)).acceptedPlur =
      2 * refreshRatePlur := by
  decide +kernel

def acceptance (s : SessionState) : Event → Option (Nat × Nat)
  | .run i (.accepts plur) =>
    match s.tasks[i]? with
    | some (.settling _ (.asked owed)) => some (plur, owed)
    | _ => none
  | _ => none

def Modest (s : SessionState) (event : Event) : Prop := ∀ a ∈ s.acceptance event, a.1 ≤ a.2

instance (s : SessionState) (event : Event) : Decidable (Modest s event) :=
  inferInstanceAs (Decidable (∀ a ∈ s.acceptance event, a.1 ≤ a.2))

end SessionState

end Hoverfly.Session
