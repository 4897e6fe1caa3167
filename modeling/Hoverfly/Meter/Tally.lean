import Mathlib.Algebra.BigOperators.Group.Finset.Basic
import Mathlib.Algebra.BigOperators.Group.List.Basic
import Hoverfly.Lib.Fold
import Hoverfly.Lib.Word

/-! What one POST stages for the meter: its frames, counted per account and batch. The counters are
`u64` and wrap in a release build. -/
namespace Hoverfly.Meter
open Lib

structure AccountBatch where
  owner : Bytes 20
  batch : Bytes 32
deriving DecidableEq

structure TallyRow where
  key : AccountBatch
  remainingValuePlur : Nat
  bytesAdmitted : Nat := 0
  bytesDedup : Nat := 0
  frames : Nat := 0
  dedupFrames : Nat := 0
deriving DecidableEq

structure PostTally where
  rows : List TallyRow := []

structure Call where
  dedup : Bool
  key : AccountBatch
  remainingValuePlur : Nat
  bytes : Nat

namespace PostTally

def slot (key : AccountBatch) (remainingValuePlur : Nat) (f : TallyRow → TallyRow) : List TallyRow → List TallyRow
  | [] => [f { key, remainingValuePlur }]
  | row :: rest =>
    if row.key = key then
      -- a zero never replaces a reading
      let value := if row.remainingValuePlur = 0 then remainingValuePlur else row.remainingValuePlur
      f { row with remainingValuePlur := value } :: rest
    else row :: slot key remainingValuePlur f rest

def admitFrame (p : PostTally) (key : AccountBatch) (remainingValuePlur bytes : Nat) : PostTally where
  rows := slot key remainingValuePlur (fun row =>
    { row with bytesAdmitted := wrapAdd 64 row.bytesAdmitted bytes, frames := wrapAdd 64 row.frames 1 }) p.rows

def dedup (p : PostTally) (key : AccountBatch) (remainingValuePlur bytes : Nat) : PostTally where
  rows := slot key remainingValuePlur (fun row =>
    { row with bytesDedup := wrapAdd 64 row.bytesDedup bytes, dedupFrames := wrapAdd 64 row.dedupFrames 1 }) p.rows

def apply (p : PostTally) (c : Call) : PostTally :=
  if c.dedup then p.dedup c.key c.remainingValuePlur c.bytes else p.admitFrame c.key c.remainingValuePlur c.bytes

end PostTally

def tallyOf (calls : List Call) : PostTally := calls.foldl PostTally.apply {}

def bytesOf (dedup : Bool) (key : AccountBatch) (calls : List Call) : Nat :=
  ((calls.filter fun c => c.dedup = dedup ∧ c.key = key).map Call.bytes).sum

def callsOf (dedup : Bool) (key : AccountBatch) (calls : List Call) : Nat :=
  calls.countP fun c => c.dedup = dedup ∧ c.key = key

def keysOf (calls : List Call) : Finset AccountBatch := (calls.map Call.key).toFinset

theorem bytesOf_concat (dedup : Bool) (key : AccountBatch) (calls : List Call) (c : Call) :
    bytesOf dedup key (calls ++ [c]) =
      bytesOf dedup key calls + if c.dedup = dedup ∧ c.key = key then c.bytes else 0 := by
  unfold bytesOf
  rw [List.filter_append, List.map_append, List.sum_append, List.filter_cons]
  split <;> simp_all

theorem callsOf_concat (dedup : Bool) (key : AccountBatch) (calls : List Call) (c : Call) :
    callsOf dedup key (calls ++ [c]) =
      callsOf dedup key calls + if c.dedup = dedup ∧ c.key = key then 1 else 0 := by
  unfold callsOf
  rw [List.countP_append, List.countP_singleton]
  simp only [decide_eq_true_eq]

def Counts (calls : List Call) (t : TallyRow) : Prop :=
  t.bytesAdmitted = bytesOf false t.key calls % 2 ^ 64 ∧ t.bytesDedup = bytesOf true t.key calls % 2 ^ 64 ∧
    t.frames = callsOf false t.key calls % 2 ^ 64 ∧ t.dedupFrames = callsOf true t.key calls % 2 ^ 64

namespace PostTally

section
variable {key : AccountBatch} {value : Nat} {f : TallyRow → TallyRow} {rows : List TallyRow}

theorem keys_slot (keeps : ∀ t, (f t).key = t.key) :
    (slot key value f rows).map TallyRow.key =
      if key ∈ rows.map TallyRow.key then rows.map TallyRow.key else rows.map TallyRow.key ++ [key] := by
  induction rows with
  | nil => simp [slot, keeps]
  | cons row rest ih =>
    unfold slot
    by_cases same : row.key = key
    · simp [same, keeps]
    · simp only [same, if_false, List.map_cons, ih, List.mem_cons, Ne.symm same, false_or]
      split <;> rfl

theorem mem_slot (distinct : (rows.map TallyRow.key).Nodup) {t : TallyRow} (member : t ∈ slot key value f rows) :
    (t ∈ rows ∧ t.key ≠ key) ∨
    (∃ old ∈ rows, old.key = key ∧ ∃ v, t = f { old with remainingValuePlur := v }) ∨
    (key ∉ rows.map TallyRow.key ∧ t = f { key, remainingValuePlur := value }) := by
  induction rows with
  | nil => exact .inr (.inr ⟨List.not_mem_nil, List.mem_singleton.mp member⟩)
  | cons row rest ih =>
    rw [List.map_cons, List.nodup_cons] at distinct
    unfold slot at member
    by_cases same : row.key = key
    · rw [if_pos same] at member
      rcases List.mem_cons.mp member with changed | later
      · exact .inr (.inl ⟨row, List.mem_cons_self .., same, _, changed⟩)
      · refine .inl ⟨List.mem_cons_of_mem _ later, fun again => distinct.1 ?_⟩
        rw [same, ← again]
        exact List.mem_map_of_mem later
    · rw [if_neg same] at member
      rcases List.mem_cons.mp member with rfl | later
      · exact .inl ⟨List.mem_cons_self .., same⟩
      rcases ih distinct.2 later with ⟨kept, other⟩ | ⟨old, here, found, changed⟩ | ⟨absent, fresh⟩
      · exact .inl ⟨List.mem_cons_of_mem _ kept, other⟩
      · exact .inr (.inl ⟨old, List.mem_cons_of_mem _ here, found, changed⟩)
      · refine .inr (.inr ⟨fun member => ?_, fresh⟩)
        rcases List.mem_cons.mp member with rfl | deeper
        · exact same rfl
        · exact absent deeper

end

structure Staged (calls : List Call) (p : PostTally) : Prop where
  distinct : (p.rows.map TallyRow.key).Nodup
  keys : ∀ k, k ∈ p.rows.map TallyRow.key ↔ k ∈ keysOf calls
  counts : ∀ t ∈ p.rows, Counts calls t

end PostTally

variable {calls : List Call}

theorem Counts.other {t : TallyRow} (counts : Counts calls t) {c : Call} (other : c.key ≠ t.key) :
    Counts (calls ++ [c]) t := by
  unfold Counts
  simp only [bytesOf_concat, callsOf_concat, other, and_false, if_false, Nat.add_zero]
  exact counts

theorem bytesOf_of_notMem {key : AccountBatch} (absent : key ∉ keysOf calls) (dedup : Bool) :
    bytesOf dedup key calls = 0 ∧ callsOf dedup key calls = 0 := by
  have none_ : ∀ c ∈ calls, ¬(c.dedup = dedup ∧ c.key = key) := by
    rintro c member ⟨-, rfl⟩
    exact absent (List.mem_toFinset.mpr (List.mem_map_of_mem member))
  constructor
  · unfold bytesOf
    rw [List.filter_eq_nil_iff.mpr fun c member => by simpa using none_ c member]
    rfl
  · exact List.countP_eq_zero.mpr fun c member => by simpa using none_ c member

def Call.change (c : Call) (row : TallyRow) : TallyRow :=
  if c.dedup then
    { row with bytesDedup := wrapAdd 64 row.bytesDedup c.bytes, dedupFrames := wrapAdd 64 row.dedupFrames 1 }
  else
    { row with bytesAdmitted := wrapAdd 64 row.bytesAdmitted c.bytes, frames := wrapAdd 64 row.frames 1 }

theorem Call.key_change (c : Call) (row : TallyRow) : (c.change row).key = row.key := by
  unfold Call.change
  split <;> rfl

theorem PostTally.rows_apply (p : PostTally) (c : Call) :
    (p.apply c).rows = slot c.key c.remainingValuePlur c.change p.rows := by
  obtain ⟨dedup, key, value, bytes⟩ := c
  cases dedup <;> rfl

theorem Counts.change {row : TallyRow} (counts : Counts calls row) {c : Call} (same : c.key = row.key) :
    Counts (calls ++ [c]) (c.change row) := by
  obtain ⟨admitted, deduped, frames, dedupFrames⟩ := counts
  unfold Counts
  rw [c.key_change]
  obtain ⟨dedup, key, value, bytes⟩ := c
  change key = row.key at same
  cases dedup with
  | false => simp [Call.change, bytesOf_concat, callsOf_concat, wrapAdd, *]
  | true => simp [Call.change, bytesOf_concat, callsOf_concat, wrapAdd, *]

theorem PostTally.Staged.apply {p : PostTally} (staged : Staged calls p) (c : Call) :
    Staged (calls ++ [c]) (p.apply c) := by
  have keys_append : ∀ k, k ∈ keysOf (calls ++ [c]) ↔ k ∈ keysOf calls ∨ k = c.key := by
    intro k
    simp [keysOf, or_comm]
  have rows := p.rows_apply c
  have keys : (p.apply c).rows.map TallyRow.key = if c.key ∈ p.rows.map TallyRow.key
      then p.rows.map TallyRow.key else p.rows.map TallyRow.key ++ [c.key] := by
    rw [rows]
    exact keys_slot c.key_change
  refine ⟨?_, fun k => ?_, fun t member => ?_⟩
  · rw [keys]
    split
    · exact staged.distinct
    · rename_i absent
      exact List.nodup_append.mpr ⟨staged.distinct, List.nodup_singleton _, fun k here d there same =>
        absent (List.mem_singleton.mp there ▸ same ▸ here)⟩
  · rw [keys, keys_append, ← staged.keys k]
    split
    · rename_i present
      exact ⟨.inl, fun either => either.elim id fun same => same ▸ present⟩
    · rw [List.mem_append, List.mem_singleton]
  · rw [rows] at member
    rcases mem_slot staged.distinct member with ⟨kept, other⟩ | ⟨old, here, found, v, rfl⟩ | ⟨absent, rfl⟩
    · exact (staged.counts t kept).other (Ne.symm other)
    · have counted : Counts calls { old with remainingValuePlur := v } := staged.counts old here
      exact counted.change found.symm
    · have unseen : c.key ∉ keysOf calls := fun seen => absent ((staged.keys _).mpr seen)
      refine Counts.change ?_ rfl
      unfold Counts
      simp only [bytesOf_of_notMem unseen]
      exact ⟨rfl, rfl, rfl, rfl⟩

theorem staged_tallyOf (calls : List Call) : (tallyOf calls).Staged calls :=
  foldl_invariant (fun seen p => p.Staged seen) PostTally.apply calls {}
    ⟨List.nodup_nil, fun _ => by simp [keysOf], fun t member => nomatch member⟩
    fun _ c _ _ staged => staged.apply c

def Unwrapped (calls : List Call) : Prop :=
  ∀ k ∈ keysOf calls, bytesOf false k calls < 2 ^ 64 ∧ bytesOf true k calls < 2 ^ 64 ∧ callsOf false k calls < 2 ^ 64

instance (calls : List Call) : Decidable (Unwrapped calls) :=
  inferInstanceAs (Decidable (∀ k ∈ keysOf calls, _))

theorem sum_rows_tallyOf (unwrapped : Unwrapped calls) (g : Nat → Nat → Nat → Nat) :
    ((tallyOf calls).rows.map fun t => g t.bytesAdmitted t.bytesDedup t.frames).sum =
      ∑ k ∈ keysOf calls, g (bytesOf false k calls) (bytesOf true k calls) (callsOf false k calls) := by
  have staged := staged_tallyOf calls
  have same : keysOf calls = ((tallyOf calls).rows.map TallyRow.key).toFinset := by
    ext k
    rw [List.mem_toFinset, staged.keys]
  have exact_ : ((tallyOf calls).rows.map fun t => g t.bytesAdmitted t.bytesDedup t.frames) =
      ((tallyOf calls).rows.map TallyRow.key).map fun k =>
        g (bytesOf false k calls) (bytesOf true k calls) (callsOf false k calls) := by
    rw [List.map_map]
    refine List.map_congr_left fun t member => ?_
    obtain ⟨admitted, deduped, frames, -⟩ := staged.counts t member
    obtain ⟨a, d, f⟩ := unwrapped t.key ((staged.keys _).mp (List.mem_map_of_mem member))
    rw [admitted, deduped, frames, Nat.mod_eq_of_lt a, Nat.mod_eq_of_lt d, Nat.mod_eq_of_lt f]
    rfl
  rw [exact_, same, List.sum_toFinset _ staged.distinct]

/-- Each `dedup` uses up an earlier `admit` of the same key and size; `opened` are those not used yet. -/
def PairedFrom : List (AccountBatch × Nat) → List Call → Prop
  | _, [] => True
  | opened, c :: rest =>
    if c.dedup then (c.key, c.bytes) ∈ opened ∧ PairedFrom (opened.erase (c.key, c.bytes)) rest
    else PairedFrom ((c.key, c.bytes) :: opened) rest

instance instDecidablePairedFrom : (opened : List (AccountBatch × Nat)) → (calls : List Call) →
    Decidable (PairedFrom opened calls)
  | _, [] => .isTrue trivial
  | opened, c :: rest =>
    have : Decidable (PairedFrom (opened.erase (c.key, c.bytes)) rest) := instDecidablePairedFrom _ rest
    have : Decidable (PairedFrom ((c.key, c.bytes) :: opened) rest) := instDecidablePairedFrom _ rest
    inferInstanceAs (Decidable (if c.dedup then (c.key, c.bytes) ∈ opened ∧ PairedFrom (opened.erase (c.key, c.bytes)) rest
      else PairedFrom ((c.key, c.bytes) :: opened) rest))

def Paired (calls : List Call) : Prop := PairedFrom [] calls

instance (calls : List Call) : Decidable (Paired calls) := inferInstanceAs (Decidable (PairedFrom [] calls))

def openBytes (key : AccountBatch) (opened : List (AccountBatch × Nat)) : Nat :=
  (opened.map fun e => if e.1 = key then e.2 else 0).sum

theorem bytesOf_cons (dedup : Bool) (key : AccountBatch) (c : Call) (calls : List Call) :
    bytesOf dedup key (c :: calls) = (if c.dedup = dedup ∧ c.key = key then c.bytes else 0) + bytesOf dedup key calls := by
  unfold bytesOf
  rw [List.filter_cons]
  split <;> simp_all

theorem PairedFrom.le {opened : List (AccountBatch × Nat)} (paired : PairedFrom opened calls)
    (key : AccountBatch) : bytesOf true key calls ≤ openBytes key opened + bytesOf false key calls := by
  induction calls generalizing opened with
  | nil => exact Nat.zero_le _
  | cons c rest ih =>
    rw [bytesOf_cons, bytesOf_cons]
    unfold PairedFrom at paired
    split at paired
    · rename_i answered
      obtain ⟨member, paired⟩ := paired
      have used : openBytes key opened = (if c.key = key then c.bytes else 0) +
          openBytes key (opened.erase (c.key, c.bytes)) :=
        ((List.perm_cons_erase member).map _).sum_eq
      have later := ih paired
      simp only [answered, true_and, Bool.true_eq_false, false_and, if_false]
      omega
    · rename_i counted
      have later := ih paired
      have more : openBytes key ((c.key, c.bytes) :: opened) = (if c.key = key then c.bytes else 0) + openBytes key opened :=
        List.sum_cons
      simp only [counted, Bool.false_eq_true, true_and, false_and, if_false]
      omega

theorem Paired.le (paired : Paired calls) (key : AccountBatch) :
    bytesOf true key calls ≤ bytesOf false key calls := by
  have all := PairedFrom.le paired key
  rwa [openBytes, List.map_nil, List.sum_nil, Nat.zero_add] at all

end Hoverfly.Meter
