import Mathlib.Data.List.AList
import Hoverfly.Lib.Run

/-! The per-peer pacer of outbound dials (GCRA). It keeps one instant a peer, the theoretical
arrival time of the next dial. Instants and durations are nanoseconds. -/
namespace Hoverfly.Limit
open Lib

variable {P : Type} [DecidableEq P]

structure DialRateLimiter (P : Type) where
  tat : AList (fun _ : P => Nat)
  emissionInterval : Nat
  burstTolerance : Nat

namespace DialRateLimiter

def new (emissionInterval burstTolerance : Nat) : DialRateLimiter P := { tat := ∅, emissionInterval, burstTolerance }

def arrival (l : DialRateLimiter P) (peer : P) (now : Nat) : Nat := max ((l.tat.lookup peer).getD now) now

/-- `none` is the panic of an instant past `horizon`, the last one the platform represents. -/
def reserveAt (horizon : Nat) (l : DialRateLimiter P) (peer : P) (now maxWait : Nat) :
    DialRateLimiter P × Option (Except Nat Nat) :=
  let tat := l.arrival peer now
  let wait := tat - now - l.burstTolerance
  if wait > maxWait then (l, some (.error wait))
  else if tat + l.emissionInterval > horizon then (l, none)
  else ({ l with tat := l.tat.insert peer (tat + l.emissionInterval) }, some (.ok wait))

end DialRateLimiter

structure Reservation (P : Type) where
  peer : P
  now : Nat
  maxWait : Nat

namespace Reservation

def apply (horizon : Nat) (l : DialRateLimiter P) (r : Reservation P) : DialRateLimiter P :=
  (l.reserveAt horizon r.peer r.now r.maxWait).1

def result (horizon : Nat) (l : DialRateLimiter P) (r : Reservation P) : Option (Except Nat Nat) :=
  (l.reserveAt horizon r.peer r.now r.maxWait).2

def dial? (horizon : Nat) (l : DialRateLimiter P) (r : Reservation P) : Option Nat :=
  match r.result horizon l with
  | some (.ok wait) => some (r.now + wait)
  | _ => none

end Reservation

namespace DialRateLimiter

def results (horizon : Nat) (peer : P) : DialRateLimiter P → List (Reservation P) → List (Option (Except Nat Nat))
  | _, [] => []
  | l, r :: rest =>
    if r.peer = peer then r.result horizon l :: results horizon peer (r.apply horizon l) rest
    else results horizon peer (r.apply horizon l) rest

def dials (horizon : Nat) (peer : P) : DialRateLimiter P → List (Reservation P) → List Nat
  | _, [] => []
  | l, r :: rest =>
    if r.peer = peer then (r.dial? horizon l).toList ++ dials horizon peer (r.apply horizon l) rest
    else dials horizon peer (r.apply horizon l) rest

variable {horizon : Nat} {l : DialRateLimiter P} {peer : P}

theorem apply_cases (horizon : Nat) (l : DialRateLimiter P) (r : Reservation P) :
    (r.apply horizon l = l ∧ r.dial? horizon l = none) ∨
      ∃ tat d, r.apply horizon l = { l with tat := l.tat.insert r.peer (tat + l.emissionInterval) } ∧
        r.dial? horizon l = some d ∧ d ≤ tat ∧ tat ≤ d + l.burstTolerance ∧
        ∀ stored, l.tat.lookup r.peer = some stored → stored ≤ tat := by
  unfold Reservation.apply Reservation.dial? Reservation.result reserveAt
  dsimp only
  split
  · exact .inl ⟨rfl, rfl⟩
  · split
    · exact .inl ⟨rfl, rfl⟩
    · have later : r.now ≤ l.arrival r.peer r.now := Nat.le_max_right _ _
      refine .inr ⟨l.arrival r.peer r.now, _, rfl, rfl, by omega, by omega, fun stored found => ?_⟩
      rw [arrival, found]
      exact Nat.le_max_left _ _

variable {r : Reservation P}

theorem lookup_apply_other (horizon : Nat) (l : DialRateLimiter P) (other : r.peer ≠ peer) :
    (r.apply horizon l).tat.lookup peer = l.tat.lookup peer := by
  rcases apply_cases horizon l r with ⟨same, _⟩ | ⟨tat, _, taken, _⟩
  · rw [same]
  · rw [taken]
    exact AList.lookup_insert_ne other.symm

theorem lookup_taken {tat : Nat}
    (taken : r.apply horizon l = { l with tat := l.tat.insert r.peer (tat + l.emissionInterval) }) :
    (r.apply horizon l).tat.lookup r.peer = some (tat + l.emissionInterval) := by
  rw [taken]
  exact AList.lookup_insert _

theorem params_apply (horizon : Nat) (l : DialRateLimiter P) (r : Reservation P) :
    (r.apply horizon l).emissionInterval = l.emissionInterval ∧ (r.apply horizon l).burstTolerance = l.burstTolerance := by
  rcases apply_cases horizon l r with ⟨same, _⟩ | ⟨_, _, taken, _⟩
  · rw [same]
    exact ⟨rfl, rfl⟩
  · rw [taken]
    exact ⟨rfl, rfl⟩

theorem dials_after {stored : Nat} (found : l.tat.lookup peer = some stored) (calls : List (Reservation P)) {k d : Nat}
    (dialled : (dials horizon peer l calls)[k]? = some d) : stored + k * l.emissionInterval ≤ d + l.burstTolerance := by
  induction calls generalizing l stored k with
  | nil => simp [dials] at dialled
  | cons r rest ih =>
    obtain ⟨interval, tolerance⟩ := params_apply horizon l r
    rw [← interval, ← tolerance]
    unfold dials at dialled
    split at dialled
    · rename_i mine
      subst mine
      rcases apply_cases horizon l r with ⟨same, none_⟩ | ⟨tat, first, taken, some_, _, early, arrival⟩
      · rw [none_, same] at dialled
        rw [same]
        exact ih found dialled
      · have stored_le := arrival stored found
        rw [some_] at dialled
        cases k with
        | zero =>
          cases dialled
          omega
        | succ k =>
          have later := ih (lookup_taken taken) dialled
          rw [interval] at later ⊢
          rw [Nat.succ_mul]
          omega
    · rename_i other
      exact ih ((lookup_apply_other horizon l other).trans found) dialled

theorem dials_spaced (calls : List (Reservation P)) {i j d e : Nat} (before : i < j)
    (first : (dials horizon peer l calls)[i]? = some d) (second : (dials horizon peer l calls)[j]? = some e) :
    d + (j - i) * l.emissionInterval ≤ e + l.burstTolerance := by
  induction calls generalizing l i j with
  | nil => simp [dials] at first
  | cons r rest ih =>
    obtain ⟨interval, tolerance⟩ := params_apply horizon l r
    rw [← interval, ← tolerance]
    unfold dials at first second
    split at first
    · rename_i mine
      subst mine
      rw [if_pos rfl] at second
      rcases apply_cases horizon l r with ⟨same, none_⟩ | ⟨tat, dialled, taken, some_, late, _, _⟩
      · rw [none_] at first second
        exact ih before first second
      · rw [some_] at first second
        obtain ⟨j, rfl⟩ := Nat.exists_eq_add_of_lt before
        cases i with
        | zero =>
          -- the first of the two is this dial: the rest is bounded by the arrival time it leaves
          cases first
          rw [Nat.zero_add] at second
          have bound := dials_after (lookup_taken taken) rest second
          rw [interval] at bound ⊢
          rw [Nat.zero_add, Nat.sub_zero, Nat.succ_mul]
          omega
        | succ i =>
          have index : i + 1 + j + 1 = (i + j + 1) + 1 := by omega
          rw [index] at second ⊢
          rw [Nat.succ_sub_succ]
          exact ih (Nat.lt_succ_of_le (Nat.le_add_right i j)) first second
    · rename_i other
      rw [if_neg other] at second
      exact ih before first second

theorem result_congr (horizon : Nat) {m : DialRateLimiter P} (r : Reservation P)
    (params : m.emissionInterval = l.emissionInterval) (tolerance : m.burstTolerance = l.burstTolerance) (same : m.tat.lookup r.peer = l.tat.lookup r.peer) :
    r.result horizon m = r.result horizon l ∧
      (r.apply horizon m).tat.lookup r.peer = (r.apply horizon l).tat.lookup r.peer := by
  unfold Reservation.result Reservation.apply reserveAt arrival
  rw [params, tolerance, same]
  dsimp only
  split
  · exact ⟨rfl, same⟩
  · split
    · exact ⟨rfl, same⟩
    · refine ⟨rfl, ?_⟩
      rw [AList.lookup_insert, AList.lookup_insert]

theorem results_filter {m : DialRateLimiter P} (params : m.emissionInterval = l.emissionInterval)
    (tolerance : m.burstTolerance = l.burstTolerance) (same : m.tat.lookup peer = l.tat.lookup peer)
    (calls : List (Reservation P)) :
    results horizon peer m (calls.filter (·.peer = peer)) = results horizon peer l calls := by
  induction calls generalizing l m with
  | nil => rfl
  | cons r rest ih =>
    obtain ⟨paramsL, toleranceL⟩ := params_apply horizon l r
    obtain ⟨paramsM, toleranceM⟩ := params_apply horizon m r
    by_cases mine : r.peer = peer
    · subst mine
      obtain ⟨result, next⟩ := result_congr horizon r params tolerance same
      rw [List.filter_cons_of_pos (by simp), results, results, if_pos rfl, if_pos rfl, result]
      exact congrArg _ (ih (paramsM.trans (params.trans paramsL.symm))
        (toleranceM.trans (tolerance.trans toleranceL.symm)) next)
    · rw [List.filter_cons_of_neg (by simpa using mine), results, if_neg mine]
      exact ih (params.trans paramsL.symm) (tolerance.trans toleranceL.symm)
        (same.trans (lookup_apply_other horizon l mine).symm)

theorem error_unchanged {wait : Nat} (refused : r.result horizon l = some (.error wait)) :
    r.apply horizon l = l := by
  unfold Reservation.result reserveAt at refused
  unfold Reservation.apply reserveAt
  dsimp only at refused ⊢
  split
  · rfl
  · rename_i free
    rw [if_neg free] at refused
    split at refused <;> cases refused

end DialRateLimiter

open DialRateLimiter

/-- Any two dials of a peer are as far apart as the slots between them, less the tolerance; a refusal charges
nobody; and no peer's results depend on the others. -/
theorem dial_pacing (horizon emissionInterval burstTolerance : Nat) (peer : P) (calls : List (Reservation P)) :
    let l : DialRateLimiter P := .new emissionInterval burstTolerance
    (∀ i j d e, i < j → (dials horizon peer l calls)[i]? = some d → (dials horizon peer l calls)[j]? = some e →
      d + (j - i) * emissionInterval ≤ e + burstTolerance) ∧
    (∀ pre, pre <+: calls → ∀ r wait, Reservation.result horizon (run (Reservation.apply horizon) l pre) r =
      some (.error wait) → r.apply horizon (run (Reservation.apply horizon) l pre) = run (Reservation.apply horizon) l pre) ∧
    results horizon peer l (calls.filter (·.peer = peer)) = results horizon peer l calls :=
  ⟨fun _ _ _ _ before first second => dials_spaced calls before first second,
    fun _ _ _ _ refused => error_unchanged refused, results_filter rfl rfl rfl calls⟩

def burst : List (Reservation Bool) := [⟨true, 0, 0⟩, ⟨true, 0, 0⟩, ⟨false, 0, 0⟩, ⟨true, 0, 50⟩, ⟨true, 10, 500⟩]

theorem dial_pacing_burst :
    let l : DialRateLimiter Bool := .new 100 100
    dials 10000 true l burst = [0, 0, 100] ∧ 0 + (2 - 0) * 100 ≤ 100 + 100 := by
  refine ⟨by decide +kernel, (dial_pacing 10000 100 100 true burst).1 0 2 0 100 (by decide) ?_ ?_⟩
  · decide +kernel
  · decide +kernel

end Hoverfly.Limit
