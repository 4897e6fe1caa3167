import Mathlib.Data.List.Nodup
import Mathlib.Data.List.Perm.Basic
import Mathlib.Data.List.Range
import Mathlib.Data.Stream.Init

/-! Indexed tasks run a bounded number at a time: they start in order, finish in any
order, and a loop takes in each result until it has had enough. -/
namespace Hoverfly.Lib

variable {R S B : Type*}

/-- The tasks that have started are those below `next`; `live` are still running. -/
structure Window where
  next : Nat
  live : List Nat

/-- The next task to finish, counted round the live ones, and what it answers. -/
structure Completion (R : Type*) where
  pick : Nat
  answer : R

namespace Window

def start (size : Nat) : Window := ⟨size, List.range size⟩

def refill (total : Nat) (w : Window) : Window :=
  if w.next < total then ⟨w.next + 1, w.live ++ [w.next]⟩ else w

def complete (total : Nat) (w : Window) (pick : Nat) : Option (Nat × Window) :=
  match w.live[pick % w.live.length]? with
  | none => none
  | some i => some (i, refill total { w with live := w.live.eraseIdx (pick % w.live.length) })

/-- `step` may end the loop early, with an error. Each round takes one completion of `env`. -/
def drain (total : Nat) (step : Nat → R → S → Except B S) :
    Nat → Window → S → Stream' (Completion R) → Except B S × Stream' (Completion R)
  | 0, _, s, env => (.ok s, env)
  | fuel + 1, w, s, env =>
    match w.complete total env.head.pick with
    | none => (.ok s, env)
    | some (i, w) =>
      match step i env.head.answer s with
      | .error b => (.error b, env.tail)
      | .ok s => drain total step fuel w s env.tail

structure Covers (total : Nat) (seen : List Nat) (w : Window) : Prop where
  bound : w.next ≤ total
  all : (seen ++ w.live).Perm (List.range w.next)
  busy : w.live = [] → w.next = total

theorem covers_start {total size : Nat} (bound : size ≤ total) (busy : 0 < size ∨ total = 0) :
    Covers total [] (start size) where
  bound := bound
  all := .refl _
  busy := by
    intro idle
    have none_ := List.range_eq_nil.mp idle
    simp only [start]
    omega

variable {total : Nat} {seen : List Nat} {w : Window}

theorem Covers.refill (covers : (seen ++ w.live).Perm (List.range w.next)) (bound : w.next ≤ total) :
    Covers total seen (w.refill total) := by
  unfold Window.refill
  split
  · rename_i room
    refine ⟨room, ?_, fun idle => absurd idle (by simp)⟩
    rw [List.range_succ, ← List.append_assoc]
    exact covers.append_right _
  · exact ⟨bound, covers, fun _ => by omega⟩

theorem Covers.complete (covers : Covers total seen w) {pick i : Nat} {w' : Window}
    (done : w.complete total pick = some (i, w')) : i < total ∧ i ∉ seen ∧ Covers total (i :: seen) w' := by
  unfold Window.complete at done
  split at done
  · cases done
  rename_i found
  cases done
  obtain ⟨inside, here⟩ := List.getElem?_eq_some_iff.mp found
  have moved : (i :: seen ++ w.live.eraseIdx (pick % w.live.length)).Perm (seen ++ w.live) := by
    refine List.perm_middle.symm.trans (List.Perm.append_left seen ?_)
    rw [← here]
    exact List.getElem_cons_eraseIdx_perm inside
  have now := moved.trans covers.all
  have started : i < w.next := List.mem_range.mp (now.subset (List.mem_cons_self ..))
  have fresh : i ∉ seen := fun before =>
    (List.nodup_cons.mp (now.nodup_iff.mpr List.nodup_range)).1 (List.mem_append_left _ before)
  exact ⟨Nat.lt_of_lt_of_le started covers.bound, fresh, .refill now covers.bound⟩

theorem Covers.idle (covers : Covers total seen w) {pick : Nat} (idle : w.complete total pick = none) :
    seen.Perm (List.range total) := by
  unfold Window.complete at idle
  split at idle
  · rename_i missing
    have none_ : w.live = [] := by
      by_contra some_
      have := Nat.mod_lt pick (List.length_pos_iff.mpr some_)
      have := List.getElem?_eq_none_iff.mp missing
      omega
    have all := covers.all
    rw [none_, List.append_nil, covers.busy none_] at all
    exact all
  · cases idle

def Ends (total : Nat) (inv : List Nat → S → Prop) (early : B → Prop) : Except B S → Prop
  | .ok s => ∃ seen, seen.Perm (List.range total) ∧ inv seen s
  | .error b => early b

theorem drain_spec {inv : List Nat → S → Prop} {early : B → Prop} {good : R → Prop}
    {step : Nat → R → S → Except B S}
    (keep : ∀ seen i a s, i < total → i ∉ seen → good a → inv seen s →
      match step i a s with
      | .ok s => inv (i :: seen) s
      | .error b => early b)
    (fuel : Nat) {s : S} {env : Stream' (Completion R)} (covers : Covers total seen w)
    (enough : total ≤ fuel + seen.length) (holds : inv seen s) (answers : env.All (good ·.answer)) :
    Ends total inv early (drain total step fuel w s env).1 ∧ (drain total step fuel w s env).2.All (good ·.answer) := by
  induction fuel generalizing seen w s env with
  | zero =>
    refine ⟨⟨seen, ?_, holds⟩, answers⟩
    -- with no fuel left as many tasks were seen as there are, so none is live
    have count := covers.all.length_eq
    rw [List.length_append, List.length_range] at count
    have none_ : w.live = [] := List.length_eq_zero_iff.mp (by have := covers.bound; omega)
    have all := covers.all
    rw [none_, List.append_nil, covers.busy none_] at all
    exact all
  | succ fuel ih =>
    unfold drain
    cases done : w.complete total env.head.pick with
    | none => exact ⟨⟨seen, covers.idle done, holds⟩, answers⟩
    | some next =>
      obtain ⟨i, w'⟩ := next
      obtain ⟨inside, fresh, covers'⟩ := covers.complete done
      have kept := keep seen i env.head.answer s inside fresh (answers 0) holds
      have later : env.tail.All (good ·.answer) := fun n => answers (n + 1)
      cases stepped : step i env.head.answer s with
      | error b =>
        rw [stepped] at kept
        simp only [stepped]
        exact ⟨kept, later⟩
      | ok s' =>
        rw [stepped] at kept
        simp only [stepped]
        exact ih covers' (by simp only [List.length_cons]; omega) kept later

end Window

end Hoverfly.Lib
