import Hoverfly.Session.Payment

/-! The credit line of a session. Pushes only ever add to the balance, and what takes it down holds the settle
lock: a cheque is for a balance that is still there when it has gone out. -/
namespace Hoverfly.Session
open Lib

namespace Task

def cheque : Task → Nat
  | .settling _ (.paying plur) | .settling _ (.entered plur) | .settling _ (.emitted plur) => plur
  | _ => 0

theorem inside_of_cheque {t : Task} (some_ : t.cheque ≠ 0) : t.inside = true := by
  cases t with
  | settling caller point =>
    cases point with
    | queued => exact absurd rfl some_
    | _ => rfl
  | _ => exact absurd rfl some_

theorem cheque_resumed (caller : Caller) : (resumed caller).cheque = 0 := by cases caller <;> rfl

theorem inside_resumed (caller : Caller) : (resumed caller).inside = false := by cases caller <;> rfl

end Task

namespace SessionState

def owedPlur (s : SessionState) : Nat := s.accounting.reservePlur + s.accounting.balancePlur

structure Move (s s' : SessionState) (i : Nat) (t t' : Task) : Prop where
  tasks : s'.tasks = s.tasks.set i t'
  threshold : s'.accounting.thresholdPlur = s.accounting.thresholdPlur
  line : s'.owedPlur ≤ s.owedPlur ∨ s'.owedPlur ≤ s.accounting.thresholdPlur
  lock : t'.inside = true → t.inside = true ∨ s.locked = false
  balance : s.accounting.balancePlur ≤ s'.accounting.balancePlur ∨ t.inside = true
  cheque : t.cheque ≤ s.accounting.balancePlur → t'.cheque ≤ s'.accounting.balancePlur

variable {s s' : SessionState} {i : Nat} {t t' : Task}

theorem Move.still (tasks : s'.tasks = s.tasks.set i t')
    (same : s'.accounting = s.accounting) (lock : t'.inside = true → t.inside = true ∨ s.locked = false)
    (cheque : t'.cheque ≤ t.cheque) : Move s s' i t t' where
  tasks := tasks
  threshold := by rw [same]
  line := .inl (by rw [owedPlur, same]; rfl)
  lock := lock
  balance := .inl (by rw [same])
  cheque covered := by rw [same]; exact cheque.trans covered

theorem Move.resumes (t : Task) {caller : Caller}
    (tasks : s'.tasks = s.tasks.set i (.resumed caller)) (same : s'.accounting = s.accounting) :
    Move s s' i t (.resumed caller) := by
  refine .still tasks same (fun inside => ?_) ?_
  · rw [Task.inside_resumed] at inside
    cases inside
  · rw [Task.cheque_resumed]
    exact Nat.zero_le _

theorem reserve_move (s : SessionState) (i price : Nat) {short : Task} (free : short.inside = false)
    (unpaid : short.cheque = 0) : ∃ t', Move s (s.reserve i price short) i t t' := by
  unfold reserve
  cases out : s.accounting.tryReserve price with
  | none => exact ⟨short, .still rfl rfl (fun inside => by rw [free] at inside; cases inside) (by omega)⟩
  | some acc =>
    obtain ⟨_, line, rfl⟩ := tryReserve_spec out
    refine ⟨.sending price, rfl, rfl, .inr ?_, nofun, .inl (Nat.le_refl _), fun _ => Nat.zero_le _⟩
    simp only [owedPlur, put]
    omega

theorem onReceipt_move (books : Books s) {price : Nat}
    (within : price ≤ s.accounting.reservePlur) : ∃ t', Move s (s.onReceipt i price) i (.sending price) t' := by
  have exact_ : satAdd 64 s.accounting.balancePlur price = s.accounting.balancePlur + price :=
    satAdd_of_fits (books.fits.mono (by omega))
  have bought : ∀ t' : Task, t'.inside = false → t'.cheque = 0 →
      Move s ({ s with accounting := s.accounting.receipt price }.put i t') i (.sending price) t' := by
    intro t' outside unpaid
    constructor
    · rfl
    · rfl
    · simp only [owedPlur, put, AccountingState.receipt, exact_]
      omega
    · simp [outside]
    · simp only [put, AccountingState.receipt, exact_]
      omega
    · simp [unpaid]
  unfold onReceipt
  dsimp only
  split
  · exact ⟨_, bought _ rfl rfl⟩
  · exact ⟨_, bought _ rfl rfl⟩

theorem onPushError_move (s : SessionState) (i price : Nat) :
    Move s (s.onPushError i price) i (.sending price) (.returned .failed) := by
  refine ⟨rfl, rfl, .inl ?_, nofun, .inl (Nat.le_refl _), fun _ => Nat.zero_le _⟩
  simp only [owedPlur, onPushError, put, AccountingState.cancel]
  omega

theorem Move.taken {caller : Caller} {point : Point}
    (tasks : s'.tasks = s.tasks.set i t') (held : (Task.settling caller point).inside = true)
    (threshold : s'.accounting.thresholdPlur = s.accounting.thresholdPlur)
    (reserve : s'.accounting.reservePlur = s.accounting.reservePlur)
    (less : s'.accounting.balancePlur ≤ s.accounting.balancePlur) (cheque : t'.cheque ≤ s'.accounting.balancePlur) :
    Move s s' i (.settling caller point) t' where
  tasks := tasks
  threshold := threshold
  line := .inl (by unfold owedPlur; omega)
  lock _ := .inl held
  balance := .inr held
  cheque _ := cheque

variable (s)

theorem onAck_move (i : Nat) (caller : Caller) (plur nowMs : Nat) :
    ∃ t', Move s (s.onAck i caller plur nowMs) i (.settling caller (.accepted plur)) t' := by
  have less : (s.accounting.refreshed plur nowMs).balancePlur ≤ s.accounting.balancePlur := Nat.sub_le ..
  unfold onAck
  dsimp only
  split
  · exact ⟨_, .taken rfl rfl rfl rfl less (Nat.le_refl _)⟩
  · refine ⟨_, .taken rfl rfl rfl rfl less ?_⟩
    rw [Task.cheque_resumed]
    exact Nat.zero_le _

theorem onEmitted_move (i : Nat) (caller : Caller) (plur : Nat) :
    Move s (s.onEmitted i caller plur) i (.settling caller (.emitted plur)) (.resumed caller) := by
  refine .taken rfl rfl rfl rfl (Nat.sub_le ..) ?_
  rw [Task.cheque_resumed]
  exact Nat.zero_le _

theorem enterCheque_move (i : Nat) (caller : Caller) (plur : Nat) (rates : SettlementRates) :
    ∃ t', Move s (s.enterCheque i caller plur rates) i (.settling caller (.paying plur)) t' := by
  unfold enterCheque
  split
  · exact ⟨_, .resumes _ rfl rfl⟩
  · split
    · exact ⟨_, .resumes _ rfl rfl⟩
    · exact ⟨_, .still rfl rfl (fun _ => .inl rfl) (Nat.le_refl _)⟩

theorem settleStep_move (i : Nat) (caller : Caller) (point : Point) (answer : Answer) :
    s.settleStep i caller point answer = s ∨
      ∃ t', Move s (s.settleStep i caller point answer) i (.settling caller point) t' := by
  cases point with
  | queued =>
    cases answer with
    | go nowMs =>
      simp only [settleStep]
      split
      · exact .inl rfl
      · rename_i free
        exact .inr ⟨_, .still rfl rfl (fun _ => .inr (Bool.eq_false_iff.mpr free)) (Nat.le_refl _)⟩
    | _ => exact .inl rfl
  | resting waitMs =>
    cases answer with
    | go nowMs =>
      simp only [settleStep]
      split
      · exact .inr ⟨_, .resumes _ rfl rfl⟩
      · exact .inr ⟨_, .still rfl rfl (fun _ => .inl rfl) (Nat.le_refl _)⟩
    | _ => exact .inl rfl
  | asked owed =>
    cases answer with
    | accepts plur => exact .inr ⟨_, .still rfl rfl (fun _ => .inl rfl) (Nat.le_refl _)⟩
    | error => exact .inr ⟨_, .resumes _ rfl rfl⟩
    | _ => exact .inl rfl
  | accepted plur =>
    cases answer with
    | go nowMs => exact .inr (s.onAck_move i caller plur nowMs)
    | error => exact .inr ⟨_, .resumes _ rfl rfl⟩
    | _ => exact .inl rfl
  | paying plur =>
    cases answer with
    | rates rates => exact .inr (s.enterCheque_move i caller plur rates)
    | error => exact .inr ⟨_, .resumes _ rfl rfl⟩
    | _ => exact .inl rfl
  | entered plur =>
    cases answer with
    | go nowMs => exact .inr ⟨_, .still rfl rfl (fun _ => .inl rfl) (Nat.le_refl _)⟩
    | error => exact .inr ⟨_, .resumes _ rfl rfl⟩
    | _ => exact .inl rfl
  | emitted plur =>
    cases answer with
    | go nowMs => exact .inr ⟨_, s.onEmitted_move i caller plur⟩
    | error => exact .inr ⟨_, .resumes _ rfl rfl⟩
    | _ => exact .inl rfl

variable {s}

theorem advance_move (books : Books s) (answer : Answer)
    (found : s.tasks[i]? = some t) : s.advance i t answer = s ∨ ∃ t', Move s (s.advance i t answer) i t t' := by
  cases t with
  | fresh price =>
    cases answer with
    | go nowMs => exact .inr (s.reserve_move i price rfl rfl)
    | _ => exact .inl rfl
  | retry price =>
    cases answer with
    | go nowMs => exact .inr (s.reserve_move i price rfl rfl)
    | _ => exact .inl rfl
  | sending price =>
    cases answer with
    | receipt => exact .inr (onReceipt_move books (books.price_le found))
    | error => exact .inr ⟨_, s.onPushError_move i price⟩
    | _ => exact .inl rfl
  | settling caller point => exact s.settleStep_move i caller point answer
  | returned outcome => cases answer <;> exact .inl rfl

/-- The line is kept, one task at most is inside the settle lock, and what it is to pay by cheque is there. -/
structure Solvent (s : SessionState) : Prop where
  line : s.owedPlur ≤ s.accounting.thresholdPlur
  lone : ∀ (i j : Nat) (t u : Task), s.tasks[i]? = some t → s.tasks[j]? = some u → t.inside = true → u.inside = true →
    i = j
  covered : ∀ (i : Nat) (t : Task), s.tasks[i]? = some t → t.cheque ≤ s.accounting.balancePlur

theorem Move.solvent (move : Move s s' i t t')
    (found : s.tasks[i]? = some t) (solvent : Solvent s) : Solvent s' := by
  have look : ∀ (j : Nat) (u : Task), s'.tasks[j]? = some u → (j = i ∧ u = t') ∨ (j ≠ i ∧ s.tasks[j]? = some u) := by
    intro j u at_j
    rw [move.tasks] at at_j
    by_cases same : j = i
    · subst same
      rw [List.getElem?_set_self (List.getElem?_eq_some_iff.mp found).1] at at_j
      exact .inl ⟨rfl, (Option.some.inj at_j).symm⟩
    · rw [List.getElem?_set_ne (Ne.symm same)] at at_j
      exact .inr ⟨same, at_j⟩
  -- With the lock in the hands of `t'`, no other task is inside.
  have alone : t'.inside = true → ∀ j u, j ≠ i → s.tasks[j]? = some u → u.inside = true → False := by
    intro inside j u other at_j held
    rcases move.lock inside with mine | free
    · exact other (solvent.lone j i u t at_j found held mine)
    · have taken : s.locked = true := List.any_eq_true.mpr ⟨u, List.mem_of_getElem? at_j, held⟩
      rw [free] at taken
      cases taken
  constructor
  · rw [move.threshold]
    rcases move.line with less | within
    · exact less.trans solvent.line
    · exact within
  · intro j k u v at_j at_k held held'
    rcases look j u at_j with ⟨rfl, rfl⟩ | ⟨other, at_j⟩
    · rcases look k v at_k with ⟨rfl, _⟩ | ⟨other, at_k⟩
      · rfl
      · exact (alone held k v other at_k held').elim
    · rcases look k v at_k with ⟨rfl, rfl⟩ | ⟨_, at_k⟩
      · exact (alone held' j u other at_j held).elim
      · exact solvent.lone j k u v at_j at_k held held'
  · intro j u at_j
    rcases look j u at_j with ⟨rfl, rfl⟩ | ⟨other, at_j⟩
    · exact move.cheque (solvent.covered j t found)
    · rcases move.balance with more | mine
      · exact (solvent.covered j u at_j).trans more
      · by_cases unpaid : u.cheque = 0
        · rw [unpaid]
          exact Nat.zero_le _
        · exact absurd (solvent.lone j i u t at_j found (Task.inside_of_cheque unpaid) mine) other

theorem called_solvent (outside : t.inside = false) (unpaid : t.cheque = 0)
    (solvent : Solvent s) : Solvent { s with tasks := s.tasks ++ [t] } := by
  have look : ∀ (j : Nat) (u : Task), (s.tasks ++ [t])[j]? = some u → u = t ∨ s.tasks[j]? = some u := by
    intro j u at_j
    by_cases old : j < s.tasks.length
    · rw [List.getElem?_append_left old] at at_j
      exact .inr at_j
    · rw [List.getElem?_append_right (Nat.not_lt.mp old)] at at_j
      exact .inl (List.mem_singleton.mp (List.mem_of_getElem? at_j))
  refine ⟨solvent.line, ?_, ?_⟩
  · intro j k u v at_j at_k held held'
    rcases look j u at_j with rfl | at_j
    · rw [outside] at held
      cases held
    · rcases look k v at_k with rfl | at_k
      · rw [outside] at held'
        cases held'
      · exact solvent.lone j k u v at_j at_k held held'
  · intro j u at_j
    rcases look j u at_j with rfl | at_j
    · rw [unpaid]
      exact Nat.zero_le _
    · exact solvent.covered j u at_j

theorem step_solvent (books : Books s) (solvent : Solvent s) (event : Event) :
    Solvent (s.step event) ∧ (s.step event).accounting.thresholdPlur = s.accounting.thresholdPlur := by
  cases event with
  | push price => exact ⟨called_solvent rfl rfl solvent, rfl⟩
  | settle => exact ⟨called_solvent rfl rfl solvent, rfl⟩
  | run i answer =>
    cases found : s.tasks[i]? with
    | none =>
      have same : s.step (.run i answer) = s := by simp [step, found]
      rw [same]
      exact ⟨solvent, rfl⟩
    | some t =>
      have next : s.step (.run i answer) = s.advance i t answer := by simp [step, found]
      rw [next]
      rcases advance_move books answer found with same | ⟨t', move⟩
      · rw [same]
        exact ⟨solvent, rfl⟩
      · exact ⟨move.solvent found solvent, move.threshold⟩

/-- However pushes and settlements interleave, whatever comes of them and whatever the peer accepts: the reserve is
the price of the pushes in flight, the line is never overdrawn, and a cheque that has gone out is for no more than
the balance it comes off. -/
theorem credit_accounted (thresholdPlur : Nat) (swap : Option SessionSwap) (events : List Event) :
    let s := run step (opened thresholdPlur swap) events
    s.accounting.reservePlur = s.inFlightPlur ∧
      s.accounting.reservePlur + s.accounting.balancePlur ≤ thresholdPlur ∧
      ∀ (i : Nat) (caller : Caller) (plur : Nat), s.tasks[i]? = some (.settling caller (.emitted plur)) →
        plur ≤ s.accounting.balancePlur := by
  intro s
  obtain ⟨books, solvent, threshold⟩ : Books s ∧ Solvent s ∧ s.accounting.thresholdPlur = thresholdPlur := by
    apply run_invariant fun s => Books s ∧ Solvent s ∧ s.accounting.thresholdPlur = thresholdPlur
    · intro s event ⟨books, solvent, threshold⟩
      obtain ⟨kept, same⟩ := step_solvent books solvent event
      exact ⟨(step_spec books event).1, kept, same.trans threshold⟩
    · exact ⟨opened_books thresholdPlur swap, ⟨Nat.zero_le _, nofun, nofun⟩, rfl⟩
  exact ⟨books.reserve, threshold ▸ solvent.line, fun i caller plur found => solvent.covered i _ found⟩

end SessionState
end Hoverfly.Session
