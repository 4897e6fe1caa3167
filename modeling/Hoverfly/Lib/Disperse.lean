import Mathlib.Data.List.Induction
import Mathlib.Data.List.Nodup
import Mathlib.Data.List.Perm.Basic
import Mathlib.Data.List.Range
import Mathlib.Data.List.ReduceOption
import Mathlib.Data.Finset.Card
import Mathlib.Data.Finset.Range
import Mathlib.Algebra.Group.Nat.Defs

/-! Spreading elements over ever finer buckets: each element that comes along is given the coarsest
depth at which its bucket is still free, and is passed over if none is. -/
namespace Hoverfly.Lib.Disperse

variable {A : Type*} (top : Nat → A → Nat)

def fresh (d : Nat) (seen : List A) (a : A) : Bool := 0 < d && seen.all fun b => top d b ≠ top d a

def lands (d : Nat) (seen : List A) (a : A) : Bool := fresh top d seen a && !fresh top (d - 1) seen a

def placedFrom (d : Nat) : (seen : List A) → List A → List A
  | _, [] => []
  | seen, a :: rest => (if lands top d seen a then [a] else []) ++ placedFrom d (seen ++ [a]) rest

def placed (d : Nat) (xs : List A) : List A := placedFrom top d [] xs

def allPlaced (n : Nat) (xs : List A) : List A := (List.range' 1 n).flatMap fun d => placed top d xs

/-- How many elements depth `d` takes: the second halves of the buckets one depth up. -/
def width (d : Nat) : Nat := if d = 1 then 2 else 2 ^ (d - 1)

def start (d : Nat) : Nat := if d = 1 then 0 else 2 ^ (d - 1)

def row (n d : Nat) (xs : List A) : List (Option A) :=
  if d ≤ n then (List.range (width d)).map fun k => (placed top d xs)[k]? else List.replicate (width d) none

def board (n m : Nat) (xs : List A) : List (Option A) := (List.range' 1 m).flatMap fun d => row top n d xs

def contiguous : List (Option A) → List A
  | some a :: rest => a :: contiguous rest
  | _ => []

variable {top} {d n m : Nat} {xs : List A} {a b : A}

theorem placed_concat (xs : List A) (a : A) :
    placed top d (xs ++ [a]) = placed top d xs ++ if lands top d xs a then [a] else [] := by
  have loop : ∀ seen, placedFrom top d seen (xs ++ [a]) =
      placedFrom top d seen xs ++ if lands top d (seen ++ xs) a then [a] else [] := by
    induction xs with
    | nil => simp [placedFrom]
    | cons x rest ih =>
      intro seen
      rw [List.cons_append, placedFrom, ih, placedFrom, List.append_assoc, List.append_assoc, List.singleton_append]
  exact loop []

theorem fresh_iff : fresh top d xs a = true ↔ 0 < d ∧ ∀ b ∈ xs, top d b ≠ top d a := by
  simp [fresh]

theorem fresh_concat (xs : List A) (a b : A) :
    fresh top d (xs ++ [a]) b = (fresh top d xs b && decide (top d a ≠ top d b)) := by
  simp [fresh, Bool.and_assoc]

theorem fresh_congr (same : top d a = top d b) : fresh top d xs a = fresh top d xs b := by
  simp [fresh, same]

theorem lands_of_mem_placed (member : b ∈ placed top d xs) :
    ∃ seen rest, xs = seen ++ b :: rest ∧ lands top d seen b = true := by
  induction xs using List.reverseRecOn with
  | nil => cases member
  | append_singleton xs a ih =>
    rw [placed_concat] at member
    rcases List.mem_append.mp member with before | now
    · obtain ⟨seen, rest, rfl, landed⟩ := ih before
      exact ⟨seen, rest ++ [a], List.append_assoc .., landed⟩
    · split at now
      · rename_i landed
        cases List.mem_singleton.mp now
        exact ⟨xs, [], rfl, landed⟩
      · cases now

theorem mem_of_mem_placed (member : b ∈ placed top d xs) : b ∈ xs := by
  obtain ⟨seen, rest, rfl, -⟩ := lands_of_mem_placed member
  exact List.mem_append_right _ (List.mem_cons_self ..)

theorem mem_of_mem_allPlaced (member : b ∈ allPlaced top n xs) : b ∈ xs := by
  obtain ⟨d, -, here⟩ := List.mem_flatMap.mp member
  exact mem_of_mem_placed here

section board

theorem start_add_width (pos : 0 < d) : start d + width d = 2 ^ d := by
  obtain ⟨d, rfl⟩ := Nat.exists_eq_succ_of_ne_zero pos.ne'
  unfold start width
  split
  · simp_all
  · rw [Nat.succ_sub_one, Nat.succ_eq_add_one, Nat.pow_succ]
    omega

theorem start_succ (pos : 0 < m) : start (m + 1) = 2 ^ m := if_neg (by omega)

theorem board_succ (n m : Nat) (xs : List A) : board top n (m + 1) xs = board top n m xs ++ row top n (m + 1) xs := by
  rw [board, List.range'_1_concat, List.flatMap_append, List.flatMap_singleton, Nat.add_comm 1 m, board]

theorem length_row : (row top n d xs).length = width d := by
  unfold row
  split <;> simp

theorem length_board : (board top n m xs).length = start (m + 1) := by
  induction m with
  | zero => rfl
  | succ m ih =>
    rw [board_succ, List.length_append, ih, length_row, start_add_width (Nat.succ_pos m), start_succ (Nat.succ_pos m)]

theorem take_board (le : d ≤ m) : (board top n m xs).take (start (d + 1)) = board top n d xs := by
  induction m, le using Nat.le_induction with
  | base => exact List.take_of_length_le length_board.le
  | succ m le ih =>
    have short : start (d + 1) ≤ (board top n m xs).length := by
      rw [length_board]
      cases d with
      | zero => exact Nat.zero_le _
      | succ d =>
        rw [start_succ (Nat.succ_pos d), start_succ (by omega)]
        exact Nat.pow_le_pow_right (by decide) le
    rw [board_succ, List.take_append_of_le_length short, ih]

theorem board_congr {n' : Nat} (le : m ≤ n) (le' : m ≤ n') : board top n m xs = board top n' m xs := by
  induction m with
  | zero => rfl
  | succ m ih => rw [board_succ, board_succ, ih (by omega) (by omega), row, row, if_pos le, if_pos le']

theorem row_concat_of_not_lands (elsewhere : lands top d xs a = false) : row top n d (xs ++ [a]) = row top n d xs := by
  have same : placed top d (xs ++ [a]) = placed top d xs := by simp [placed_concat, elsewhere]
  rw [row, row, same]

theorem row_concat_of_lands (le : d ≤ n) (landed : lands top d xs a = true) :
    row top n d (xs ++ [a]) = (row top n d xs).set (placed top d xs).length (some a) := by
  rw [row, row, if_pos le, if_pos le, placed_concat, if_pos landed]
  refine List.ext_getElem (by simp) fun k inside _ => ?_
  simp only [List.getElem_map, List.getElem_range, List.getElem_set]
  rcases Nat.lt_trichotomy k (placed top d xs).length with before | here | after
  · rw [List.getElem?_append_left before, if_neg (by omega)]
  · simp [here]
  · rw [List.getElem?_eq_none (by simp; omega), List.getElem?_eq_none (by omega), if_neg (by omega)]

theorem getElem?_board {e k : Nat} (pos : 0 < e) (le : e ≤ m) (inside : k < width e) :
    (board top n m xs)[start e + k]? = (row top n e xs)[k]? := by
  obtain ⟨e, rfl⟩ := Nat.exists_eq_succ_of_ne_zero pos.ne'
  have early : start (e + 1) + k < start (e + 1 + 1) := by
    rw [start_succ (Nat.succ_pos e), ← start_add_width (Nat.succ_pos e)]
    exact Nat.add_lt_add_left inside _
  rw [← List.getElem?_take_of_lt early, take_board le, board_succ, List.getElem?_append_right (by rw [length_board]; omega),
    length_board, Nat.add_sub_cancel_left]

end board

section contiguous
variable {q : List (Option A)} {s : Nat}

theorem contiguous_take (q : List (Option A)) (n : Nat) : contiguous (q.take n) = (contiguous q).take n := by
  induction q generalizing n with
  | nil => simp [contiguous]
  | cons slot rest ih =>
    cases n with
    | zero => simp [contiguous]
    | succ n =>
      cases slot with
      | none => simp [contiguous]
      | some a => simp [contiguous, ih]

theorem contiguous_sublist (q : List (Option A)) : (contiguous q).Sublist q.reduceOption := by
  induction q with
  | nil => simp [contiguous]
  | cons slot rest ih =>
    cases slot with
    | none => simp [contiguous]
    | some a => simpa [contiguous] using ih

theorem contiguous_set (hole : q[s]? = some none) (a : A) :
    (contiguous (q.set s (some a))).take (contiguous q).length = contiguous q := by
  induction q generalizing s with
  | nil => simp at hole
  | cons slot rest ih =>
    cases slot with
    | none => simp [contiguous]
    | some b =>
      cases s with
      | zero => simp at hole
      | succ s => simpa [contiguous] using ih (by simpa using hole)

theorem contiguous_drop (enough : n ≤ (contiguous q).length) :
    contiguous q = (contiguous q).take n ++ contiguous (q.drop n) := by
  induction q generalizing n with
  | nil => simp [contiguous]
  | cons slot rest ih =>
    cases n with
    | zero => simp
    | succ n =>
      cases slot with
      | none => simp [contiguous] at enough
      | some a => simpa [contiguous] using ih (by simpa [contiguous] using enough)

end contiguous

section
variable (halves : ∀ d a, top d a = top (d + 1) a / 2)
include halves

theorem fresh_succ (free : fresh top d xs a = true) : fresh top (d + 1) xs a = true := by
  rw [fresh_iff] at free ⊢
  refine ⟨Nat.succ_pos d, fun b member same => free.2 b member ?_⟩
  rw [halves d b, halves d a, same]

variable {e : Nat}

theorem fresh_mono (le : d ≤ e) (free : fresh top d xs a = true) : fresh top e xs a = true := by
  induction e, le using Nat.le_induction with
  | base => exact free
  | succ e le ih => exact fresh_succ halves ih

theorem not_fresh_mono (le : d ≤ e) (full : fresh top e xs a = false) : fresh top d xs a = false := by
  by_contra free
  rw [fresh_mono halves le (Bool.eq_true_of_not_eq_false free)] at full
  cases full

theorem not_fresh_of_lands (landed : lands top e xs a = true) (less : d < e) : fresh top d xs a = false := by
  simp only [lands, Bool.and_eq_true, Bool.not_eq_true'] at landed
  exact not_fresh_mono halves (Nat.le_sub_one_of_lt less) landed.2

theorem lands_unique (first : lands top d xs a = true) (second : lands top e xs a = true) : d = e := by
  have free : fresh top d xs a = true := by simp_all [lands]
  have free' : fresh top e xs a = true := by simp_all [lands]
  rcases Nat.lt_trichotomy d e with less | same | more
  · simp [not_fresh_of_lands halves second less] at free
  · exact same
  · simp [not_fresh_of_lands halves first more] at free'

theorem landings (n : Nat) (xs : List A) (a : A) :
    (List.range' 1 n).flatMap (fun d => if lands top d xs a then [a] else []) =
      if fresh top n xs a then [a] else [] := by
  induction n with
  | zero => rfl
  | succ n ih =>
    rw [List.range'_1_concat, List.flatMap_append, ih, List.flatMap_singleton, lands, Nat.add_comm 1 n,
      Nat.add_sub_cancel]
    cases free : fresh top n xs a with
    | true => simp [fresh_mono halves (Nat.le_succ n) free]
    | false => simp

theorem allPlaced_concat (n : Nat) (xs : List A) (a : A) :
    (allPlaced top n (xs ++ [a])).Perm (allPlaced top n xs ++ if fresh top n xs a then [a] else []) := by
  rw [← landings halves n xs a]
  simp only [allPlaced, placed_concat]
  exact (List.flatMap_append_perm _ _ _).symm

theorem nodup_allPlaced (n : Nat) (xs : List A) : ((allPlaced top n xs).map (top n)).Nodup := by
  induction xs using List.reverseRecOn with
  | nil =>
    have none_ : allPlaced top n [] = [] := List.flatMap_eq_nil_iff.mpr fun d _ => rfl
    rw [none_]
    exact List.nodup_nil
  | append_singleton xs a ih =>
    rw [((allPlaced_concat halves n xs a).map (top n)).nodup_iff, List.map_append]
    split
    · rename_i free
      have apart := (fresh_iff.mp free).2
      rw [List.map_singleton, ← List.concat_eq_append, List.nodup_concat]
      refine ⟨fun member => ?_, ih⟩
      obtain ⟨b, here, same⟩ := List.mem_map.mp member
      exact apart b (mem_of_mem_allPlaced here) same
    · simpa using ih

theorem board_concat_of_lands (pos : 0 < e) (le : e ≤ n) (room : (placed top e xs).length < width e)
    (landed : lands top e xs a = true) (m : Nat) :
    board top n m (xs ++ [a]) =
      if e ≤ m then (board top n m xs).set (start e + (placed top e xs).length) (some a) else board top n m xs := by
  induction m with
  | zero => simp [board, pos.ne']
  | succ m ih =>
    rw [board_succ, board_succ, ih]
    rcases Nat.lt_trichotomy e (m + 1) with before | here | after
    · have apart : lands top (m + 1) xs a = false := by
        by_contra other
        have := lands_unique halves landed (Bool.eq_true_of_not_eq_false other)
        omega
      have inside : start e + (placed top e xs).length < (board top n m xs).length := by
        have := start_add_width pos
        rw [length_board, start_succ (by omega)]
        have grows : 2 ^ e ≤ 2 ^ m := Nat.pow_le_pow_right (by decide) (by omega)
        omega
      rw [if_pos (by omega), if_pos (by omega), row_concat_of_not_lands apart, List.set_append_left _ _ inside]
    · subst here
      rw [if_neg (by omega), if_pos (by omega), row_concat_of_lands le landed,
        List.set_append_right _ _ (by rw [length_board]; omega), length_board, Nat.add_sub_cancel_left]
    · have apart : lands top (m + 1) xs a = false := by
        by_contra other
        have := lands_unique halves landed (Bool.eq_true_of_not_eq_false other)
        omega
      rw [if_neg (by omega), if_neg (by omega), row_concat_of_not_lands apart]

theorem not_lands_of_not_fresh (full : fresh top n xs a = false) (le : d ≤ n) : lands top d xs a = false := by
  simp [lands, not_fresh_mono halves le full]

theorem board_concat_of_not_fresh (full : fresh top n xs a = false) (m : Nat) :
    board top n m (xs ++ [a]) = board top n m xs := by
  induction m with
  | zero => rfl
  | succ m ih =>
    rw [board_succ, board_succ, ih]
    by_cases le : m + 1 ≤ n
    · rw [row_concat_of_not_lands (not_lands_of_not_fresh halves full le)]
    · rw [row, row, if_neg le, if_neg le]

omit halves in
theorem sibling_of_placed (member : b ∈ placed top (d + 2) xs) :
    ∃ c ∈ xs, top (d + 1) c = top (d + 1) b ∧ top (d + 2) c ≠ top (d + 2) b := by
  obtain ⟨seen, rest, rfl, landed⟩ := lands_of_mem_placed member
  simp only [lands, Bool.and_eq_true, Bool.not_eq_true'] at landed
  obtain ⟨free, taken⟩ := landed
  change fresh top (d + 1) seen b = false at taken
  have shared : ∃ c ∈ seen, top (d + 1) c = top (d + 1) b := by
    by_contra none_
    have open_ : fresh top (d + 1) seen b = true :=
      fresh_iff.mpr ⟨Nat.succ_pos d, fun c here same => none_ ⟨c, here, same⟩⟩
    rw [taken] at open_
    cases open_
  obtain ⟨c, here, same⟩ := shared
  exact ⟨c, List.mem_append_left _ here, same, (fresh_iff.mp free).2 c here⟩

theorem nodup_placed (d : Nat) (xs : List A) : ((placed top (d + 2) xs).map (top (d + 1))).Nodup := by
  induction xs using List.reverseRecOn with
  | nil => exact List.nodup_nil
  | append_singleton xs a ih =>
    rw [placed_concat, List.map_append]
    split
    · rename_i landed
      simp only [lands, Bool.and_eq_true] at landed
      have apart := (fresh_iff.mp landed.1).2
      rw [List.map_singleton, ← List.concat_eq_append, List.nodup_concat]
      refine ⟨fun member => ?_, ih⟩
      obtain ⟨b, here, same⟩ := List.mem_map.mp member
      obtain ⟨c, there, half, other⟩ := sibling_of_placed here
      have first := apart b (mem_of_mem_placed here)
      have second := apart c there
      -- three buckets of depth d + 2 in one of depth d + 1
      have lower : ∀ x, top (d + 1) x = top (d + 2) x / 2 := halves (d + 1)
      rw [lower, lower a] at same
      rw [lower, lower b] at half
      omega
    · simpa using ih

variable (small : ∀ d a, top d a < 2 ^ d)
include small

omit halves in
theorem length_le_of_nodup {ys : List A} (distinct : (ys.map (top d)).Nodup) : ys.length ≤ 2 ^ d := by
  have inside : (ys.map (top d)).toFinset ⊆ Finset.range (2 ^ d) := by
    intro k member
    obtain ⟨y, -, rfl⟩ := List.mem_map.mp (List.mem_toFinset.mp member)
    exact Finset.mem_range.mpr (small d y)
  have count := Finset.card_le_card inside
  rwa [List.toFinset_card_of_nodup distinct, List.length_map, Finset.card_range] at count

theorem length_placed_one (xs : List A) : (placed top 1 xs).length ≤ 2 := by
  have distinct := nodup_allPlaced halves 1 xs
  have only : allPlaced top 1 xs = placed top 1 xs := by simp [allPlaced]
  rw [only] at distinct
  exact length_le_of_nodup small distinct

theorem length_placed (d : Nat) (xs : List A) : (placed top (d + 2) xs).length ≤ 2 ^ (d + 1) :=
  length_le_of_nodup small (nodup_placed halves d xs)

theorem length_placed_le (pos : 0 < d) (xs : List A) : (placed top d xs).length ≤ width d := by
  obtain ⟨d, rfl⟩ := Nat.exists_eq_succ_of_ne_zero pos.ne'
  cases d with
  | zero => exact length_placed_one halves small xs
  | succ d => exact length_placed halves small d xs

theorem length_placed_lt (pos : 0 < d) (landed : lands top d xs a = true) : (placed top d xs).length < width d := by
  have full := length_placed_le halves small pos (xs ++ [a])
  rw [placed_concat, if_pos landed, List.length_append, List.length_singleton] at full
  exact full

theorem reduce_row (pos : 0 < d) (le : d ≤ n) (xs : List A) : (row top n d xs).reduceOption = placed top d xs := by
  obtain ⟨spare, room⟩ := Nat.exists_eq_add_of_le (length_placed_le halves small pos xs)
  have slots : row top n d xs = (placed top d xs).map some ++ List.replicate spare none := by
    rw [row, if_pos le, room]
    refine List.ext_getElem (by simp) fun k _ _ => ?_
    rw [List.getElem_map, List.getElem_range, List.getElem_append]
    split
    · rename_i inside
      rw [List.getElem_map, List.getElem?_eq_getElem (by simpa using inside)]
    · rename_i outside
      rw [List.getElem_replicate, List.getElem?_eq_none (by simpa using outside)]
  rw [slots, List.reduceOption_append, List.reduceOption_replicate_none, List.append_nil]
  simp [List.reduceOption, List.filterMap_map]

theorem reduce_board (le : n ≤ m) (xs : List A) : (board top n m xs).reduceOption = allPlaced top n xs := by
  induction m, le using Nat.le_induction with
  | base =>
    have upto : ∀ j ≤ n, (board top n j xs).reduceOption = allPlaced top j xs := by
      intro j
      induction j with
      | zero => exact fun _ => rfl
      | succ j ih =>
        intro le
        rw [board_succ, List.reduceOption_append, ih (by omega), reduce_row halves small (Nat.succ_pos j) le, allPlaced,
          allPlaced, List.range'_1_concat, List.flatMap_append, List.flatMap_singleton, Nat.add_comm 1 j]
    exact upto n le_rfl
  | succ m le ih =>
    rw [board_succ, List.reduceOption_append, ih, row, if_neg (by omega), List.reduceOption_replicate_none, List.append_nil]

theorem board_concat (le : n ≤ m) (xs : List A) (a : A) :
    board top n m (xs ++ [a]) = board top n m xs ∨
      ∃ s, (board top n m xs)[s]? = some none ∧ board top n m (xs ++ [a]) = (board top n m xs).set s (some a) := by
  cases free : fresh top n xs a with
  | false => exact .inl (board_concat_of_not_fresh halves free m)
  | true =>
    have landed : a ∈ (List.range' 1 n).flatMap fun d => if lands top d xs a then [a] else [] := by
      simp [landings halves n xs a, free]
    obtain ⟨e, range, here⟩ := List.mem_flatMap.mp landed
    obtain ⟨pos, most⟩ := List.mem_range'_1.mp range
    have landed : lands top e xs a = true := by
      by_contra not_
      simp [not_] at here
    have room := length_placed_lt halves small pos landed
    refine .inr ⟨start e + (placed top e xs).length, ?_, ?_⟩
    · rw [getElem?_board pos (by omega) room, row, if_pos (by omega)]
      simp [room]
    · rw [board_concat_of_lands halves pos (by omega) room landed, if_pos (by omega)]

theorem contiguous_board_append (le : n ≤ m) (xs ys : List A) :
    (contiguous (board top n m (xs ++ ys))).take (contiguous (board top n m xs)).length =
      contiguous (board top n m xs) := by
  induction ys using List.reverseRecOn with
  | nil => simp
  | append_singleton ys a ih =>
    rw [← List.append_assoc]
    rcases board_concat halves small le (xs ++ ys) a with same | ⟨s, hole, set_⟩
    · rw [same, ih]
    · have kept := contiguous_set hole a
      have longer : (contiguous (board top n m xs)).length ≤ (contiguous (board top n m (xs ++ ys))).length := by
        have := congrArg List.length ih
        rw [List.length_take] at this
        omega
      rw [set_, ← Nat.min_eq_left longer, ← List.take_take, kept, ih]

end

end Hoverfly.Lib.Disperse
