import Hoverfly.Lib.Map
import Hoverfly.Meter.Params
import Hoverfly.Meter.Tally

/-! The meter: a bounded ledger over accounts and batches, oldest row out first; the totals of the rows that are
gone are kept apart. -/
namespace Hoverfly
open Lib

namespace Meter

def cashoutThresholdPlur : Nat := 2500000000000000

structure Row where
  kibAdmitted : Nat
  kibDedup : Nat
  frames : Nat
  dedupFrames : Nat
  remainingValuePlur : Nat
  firstSeen : Nat
  lastSeen : Nat

structure OwnerTotals where
  kib : Nat := 0
  kibDedup : Nat := 0
  frames : Nat := 0
  batches : Nat := 0

/-- The product is below `2 ^ 128`. -/
def OwnerTotals.owedPlur (t : OwnerTotals) : Nat := (t.kib - t.kibDedup) * Params.default.pricePlurPerKib

/-- The headline figures, without the time, the prices in dollars and the calibrations. -/
structure Summary where
  accounts : Nat
  batches : Nat
  evictedBatches : Nat
  kibAdmitted : Nat
  kibDedup : Nat
  framesAdmitted : Nat
  owedPlur : Nat
  accountsReachingSettlement : Nat
  accountsReachingCashout : Nat

end Meter

structure Meter where
  rows : AList (fun _ : Meter.AccountBatch => Meter.Row) := ∅
  order : List Meter.AccountBatch := []
  cap : Nat
  evictedRows : Nat := 0
  evictedKib : Nat := 0
  evictedKibDedup : Nat := 0
  evictedFrames : Nat := 0

namespace Meter

def new (cap : Nat) : Meter := { cap := max cap 1 }

/-- Bytes become KiB here, once for each request and batch. -/
def absorb (now : Nat) (m : Meter) (t : TallyRow) : Meter :=
  let kib := divCeil t.bytesAdmitted 1024
  let kibDedup := min (divCeil t.bytesDedup 1024) kib
  match m.rows.lookup t.key with
  | some row =>
    { m with
      rows := m.rows.insert t.key
        { kibAdmitted := wrapAdd 64 row.kibAdmitted kib
          kibDedup := wrapAdd 64 row.kibDedup kibDedup
          frames := wrapAdd 64 row.frames t.frames
          dedupFrames := wrapAdd 64 row.dedupFrames t.dedupFrames
          -- the latest reading wins
          remainingValuePlur := if t.remainingValuePlur > 0 then t.remainingValuePlur else row.remainingValuePlur
          firstSeen := row.firstSeen
          lastSeen := now } }
  | none =>
    { m with
      rows := m.rows.insert t.key
        { kibAdmitted := kib, kibDedup, frames := t.frames, dedupFrames := t.dedupFrames,
          remainingValuePlur := t.remainingValuePlur, firstSeen := now, lastSeen := now }
      order := m.order ++ [t.key] }

def evictOldest (m : Meter) (old : AccountBatch) : Meter :=
  match m.rows.lookup old with
  | some row =>
    { m with
      rows := m.rows.erase old
      evictedRows := wrapAdd 64 m.evictedRows 1
      evictedKib := wrapAdd 64 m.evictedKib row.kibAdmitted
      evictedKibDedup := wrapAdd 64 m.evictedKibDedup row.kibDedup
      evictedFrames := wrapAdd 64 m.evictedFrames row.frames }
  | none => m

def evict (m : Meter) : List AccountBatch → Meter
  | [] => { m with order := [] }
  | old :: rest => if rest.length + 1 > m.cap then evict (m.evictOldest old) rest else { m with order := old :: rest }

def merge (m : Meter) (now : Nat) (tally : PostTally) : Meter :=
  let fed := tally.rows.foldl (absorb now) m
  fed.evict fed.order

def byOwner (m : Meter) : AList (fun _ : Bytes 20 => OwnerTotals) :=
  m.rows.entries.foldl (fun out e =>
    let t := (out.lookup e.1.owner).getD {}
    out.insert e.1.owner
      { kib := wrapAdd 64 t.kib e.2.kibAdmitted
        kibDedup := wrapAdd 64 t.kibDedup e.2.kibDedup
        frames := wrapAdd 64 t.frames e.2.frames
        batches := wrapAdd 64 t.batches 1 }) ∅

def summary (m : Meter) : Summary :=
  let liveKib := wrapSum 64 (m.rows.entries.map (·.2.kibAdmitted))
  let liveDedup := wrapSum 64 (m.rows.entries.map (·.2.kibDedup))
  let liveFrames := wrapSum 64 (m.rows.entries.map (·.2.frames))
  let kib := wrapAdd 64 liveKib m.evictedKib
  let dedup := wrapAdd 64 (min liveKib liveDedup) m.evictedKibDedup
  let owners := m.byOwner
  { accounts := owners.entries.length
    batches := m.rows.entries.length
    evictedBatches := m.evictedRows
    kibAdmitted := kib
    kibDedup := dedup
    framesAdmitted := wrapAdd 64 liveFrames m.evictedFrames
    owedPlur := (kib - dedup) * Params.default.pricePlurPerKib
    accountsReachingSettlement :=
      (owners.entries.filter fun e => e.2.owedPlur ≥ Params.default.settleEveryPlur).length
    accountsReachingCashout := (owners.entries.filter fun e => e.2.owedPlur ≥ cashoutThresholdPlur).length }

def after (cap : Nat) (posts : List (Nat × List Call)) : Meter :=
  posts.foldl (fun m post => m.merge post.1 (tallyOf post.2)) (new cap)

def Queued (m : Meter) : Prop := m.order.Perm m.rows.keys

variable {m : Meter} {kib dedup frames : Nat} {calls : List Call}

theorem Queued.absorb (queued : m.Queued) (now : Nat) (t : TallyRow) : (m.absorb now t).Queued := by
  unfold Meter.absorb Queued
  cases found : m.rows.lookup t.key with
  | some row =>
    have known : t.key ∈ m.rows := AList.lookup_isSome.mp (by rw [found]; rfl)
    refine List.Perm.trans queued (List.Perm.symm ?_)
    have keys := perm_keys_insert m.rows t.key
    simp only [known, if_true] at keys
    exact keys _
  | none =>
    have fresh : t.key ∉ m.rows := AList.lookup_eq_none.mp found
    have keys := perm_keys_insert m.rows t.key
    simp only [fresh, if_false] at keys
    exact ((List.perm_append_singleton ..).trans (queued.cons _)).trans (keys _).symm

theorem keys_evictOldest {old : AccountBatch} {rest : List AccountBatch}
    (same : (old :: rest).Perm m.rows.keys) : rest.Perm (m.evictOldest old).rows.keys := by
  have known : old ∈ m.rows := same.subset (List.mem_cons_self ..)
  obtain ⟨row, found⟩ := Option.isSome_iff_exists.mp (AList.lookup_isSome.mpr known)
  unfold evictOldest
  rw [found]
  exact perm_keys_erase same

theorem cap_evictOldest (m : Meter) (old : AccountBatch) : (m.evictOldest old).cap = m.cap := by
  unfold evictOldest
  split <;> rfl

theorem queued_evict {queue : List AccountBatch} (same : queue.Perm m.rows.keys) :
    (m.evict queue).Queued ∧ (m.evict queue).order.length ≤ m.cap ∧ (m.evict queue).cap = m.cap := by
  induction queue generalizing m with
  | nil => exact ⟨same, Nat.zero_le _, rfl⟩
  | cons old rest ih =>
    unfold evict
    split
    · have later := ih (keys_evictOldest same)
      rwa [cap_evictOldest] at later
    · rename_i within
      exact ⟨same, Nat.not_lt.mp within, rfl⟩

theorem queued_foldl (queued : m.Queued) (now : Nat) (ts : List TallyRow) :
    (ts.foldl (Meter.absorb now) m).Queued ∧ (ts.foldl (Meter.absorb now) m).cap = m.cap := by
  induction ts generalizing m with
  | nil => exact ⟨queued, rfl⟩
  | cons t ts ih =>
    have cap : (m.absorb now t).cap = m.cap := by
      unfold Meter.absorb
      simp only
      split <;> rfl
    have later := ih (queued.absorb now t)
    rwa [cap] at later

theorem queued_merge (queued : m.Queued) (now : Nat) (p : PostTally) :
    (m.merge now p).Queued ∧ (m.merge now p).order.length ≤ m.cap ∧ (m.merge now p).cap = m.cap := by
  obtain ⟨fed, cap⟩ := queued_foldl queued now p.rows
  have out := queued_evict fed
  rwa [cap] at out

structure Holds (kib dedup frames : Nat) (m : Meter) : Prop where
  kibs : weigh Row.kibAdmitted m.rows + m.evictedKib = kib
  dedups : weigh Row.kibDedup m.rows + m.evictedKibDedup = dedup
  frames : weigh Row.frames m.rows + m.evictedFrames = frames
  less : dedup ≤ kib
  rowwise : ∀ k row, m.rows.lookup k = some row → row.kibDedup ≤ row.kibAdmitted

section
variable {rows : AList (fun _ : AccountBatch => Row)} {old : AccountBatch} {total gone : Nat} (get : Row → Nat)

theorem weigh_write {new : Row} {n : Nat} (sum : weigh get rows + gone = total)
    (grown : get new = ((rows.lookup old).map get).getD 0 + n) : weigh get (rows.insert old new) + gone = total + n := by
  have moved := weigh_insert get old new rows
  omega

theorem weigh_evict {row : Row} (sum : weigh get rows + gone = total) (fits : total < 2 ^ 64)
    (found : rows.lookup old = some row) : weigh get (rows.erase old) + wrapAdd 64 gone (get row) = total := by
  have moved := weigh_erase get old rows
  rw [found, Option.map_some, Option.getD_some] at moved
  rw [wrapAdd_of_fits (show _ < _ by omega)]
  omega

end

theorem Holds.write {k d f : Nat} (holds : m.Holds kib dedup frames) {key : AccountBatch}
    {new : Row} (kibNew : new.kibAdmitted = ((m.rows.lookup key).map Row.kibAdmitted).getD 0 + k)
    (dedupNew : new.kibDedup = ((m.rows.lookup key).map Row.kibDedup).getD 0 + d)
    (framesNew : new.frames = ((m.rows.lookup key).map Row.frames).getD 0 + f) (cut : d ≤ k)
    (ordered : new.kibDedup ≤ new.kibAdmitted) (order : List AccountBatch) :
    Holds (kib + k) (dedup + d) (frames + f) { m with rows := m.rows.insert key new, order } := by
  obtain ⟨kibs, dedups, framesEq, less, rowwise⟩ := holds
  refine ⟨weigh_write Row.kibAdmitted kibs kibNew, weigh_write Row.kibDedup dedups dedupNew,
    weigh_write Row.frames framesEq framesNew, Nat.add_le_add less cut, fun k row found => ?_⟩
  rcases lookup_insert_cases found with ⟨rfl, rfl⟩ | ⟨_, found⟩
  · exact ordered
  · exact rowwise k row found

theorem Holds.absorb (holds : m.Holds kib dedup frames) (now : Nat) (t : TallyRow)
    (kibFits : kib + divCeil t.bytesAdmitted 1024 < 2 ^ 64) (framesFit : frames + t.frames < 2 ^ 64) :
    (m.absorb now t).Holds (kib + divCeil t.bytesAdmitted 1024)
      (dedup + min (divCeil t.bytesDedup 1024) (divCeil t.bytesAdmitted 1024)) (frames + t.frames) := by
  have cut : min (divCeil t.bytesDedup 1024) (divCeil t.bytesAdmitted 1024) ≤ divCeil t.bytesAdmitted 1024 :=
    Nat.min_le_right _ _
  unfold Meter.absorb
  simp only
  generalize min (divCeil t.bytesDedup 1024) (divCeil t.bytesAdmitted 1024) = d at *
  generalize divCeil t.bytesAdmitted 1024 = k at *
  cases found : m.rows.lookup t.key with
  | some row =>
    have ordered := holds.rowwise _ _ found
    have kibLe := holds.kibs
    have framesLe := holds.frames
    have heldKib := le_weigh Row.kibAdmitted found
    have heldFrames := le_weigh Row.frames found
    have kibSum : wrapAdd 64 row.kibAdmitted k = row.kibAdmitted + k := wrapAdd_of_fits (show _ < _ by omega)
    have dedupSum : wrapAdd 64 row.kibDedup d = row.kibDedup + d := wrapAdd_of_fits (show _ < _ by omega)
    have framesSum : wrapAdd 64 row.frames t.frames = row.frames + t.frames := wrapAdd_of_fits (show _ < _ by omega)
    have grown : wrapAdd 64 row.kibDedup d ≤ wrapAdd 64 row.kibAdmitted k := by omega
    refine holds.write ?_ ?_ ?_ cut grown m.order
    · rw [found]
      exact kibSum
    · rw [found]
      exact dedupSum
    · rw [found]
      exact framesSum
  | none =>
    refine holds.write ?_ ?_ ?_ cut cut (m.order ++ [t.key])
    · rw [found]
      exact (Nat.zero_add k).symm
    · rw [found]
      exact (Nat.zero_add d).symm
    · rw [found]
      exact (Nat.zero_add t.frames).symm

def kibIn (ts : List TallyRow) : Nat := (ts.map fun t => divCeil t.bytesAdmitted 1024).sum
def dedupIn (ts : List TallyRow) : Nat :=
  (ts.map fun t => min (divCeil t.bytesDedup 1024) (divCeil t.bytesAdmitted 1024)).sum
def framesIn (ts : List TallyRow) : Nat := (ts.map fun t => t.frames).sum

theorem Holds.foldl (holds : m.Holds kib dedup frames) (now : Nat)
    {ts : List TallyRow} (kibFits : kib + kibIn ts < 2 ^ 64) (framesFit : frames + framesIn ts < 2 ^ 64) :
    (ts.foldl (Meter.absorb now) m).Holds (kib + kibIn ts) (dedup + dedupIn ts) (frames + framesIn ts) := by
  induction ts generalizing kib dedup frames m with
  | nil => exact holds
  | cons t ts ih =>
    simp only [kibIn, dedupIn, framesIn, List.map_cons, List.sum_cons, ← Nat.add_assoc] at kibFits framesFit ⊢
    exact ih (holds.absorb now t (by omega) (by omega)) kibFits framesFit

theorem Holds.evictOldest (holds : m.Holds kib dedup frames)
    (kibFits : kib < 2 ^ 64) (framesFit : frames < 2 ^ 64) (old : AccountBatch) :
    (m.evictOldest old).Holds kib dedup frames := by
  unfold Meter.evictOldest
  cases found : m.rows.lookup old with
  | none => exact holds
  | some row =>
    obtain ⟨kibs, dedups, framesEq, less, rowwise⟩ := holds
    refine ⟨weigh_evict Row.kibAdmitted kibs kibFits found,
      weigh_evict Row.kibDedup dedups (Nat.lt_of_le_of_lt less kibFits) found,
      weigh_evict Row.frames framesEq framesFit found, less, fun k row found => ?_⟩
    exact rowwise k row (lookup_of_erase found).2

theorem Holds.evict (holds : m.Holds kib dedup frames)
    (kibFits : kib < 2 ^ 64) (framesFit : frames < 2 ^ 64) (queue : List AccountBatch) :
    (m.evict queue).Holds kib dedup frames := by
  induction queue generalizing m with
  | nil => exact ⟨holds.kibs, holds.dedups, holds.frames, holds.less, holds.rowwise⟩
  | cons old rest ih =>
    unfold Meter.evict
    split
    · exact ih (holds.evictOldest kibFits framesFit old)
    · exact ⟨holds.kibs, holds.dedups, holds.frames, holds.less, holds.rowwise⟩

theorem Holds.merge (holds : m.Holds kib dedup frames) (now : Nat) {p : PostTally}
    (kibFits : kib + kibIn p.rows < 2 ^ 64) (framesFit : frames + framesIn p.rows < 2 ^ 64) :
    (m.merge now p).Holds (kib + kibIn p.rows) (dedup + dedupIn p.rows) (frames + framesIn p.rows) :=
  (holds.foldl now kibFits framesFit).evict kibFits framesFit _

theorem Holds.summary (holds : m.Holds kib dedup frames) (kibFits : kib < 2 ^ 64) (framesFit : frames < 2 ^ 64) :
    m.summary.kibAdmitted = kib ∧ m.summary.kibDedup = dedup ∧ m.summary.framesAdmitted = frames := by
  obtain ⟨kibs, dedups, framesEq, less, rowwise⟩ := holds
  have dedupLe : weigh Row.kibDedup m.rows ≤ weigh Row.kibAdmitted m.rows := by
    refine List.sum_le_sum fun e member => rowwise e.1 e.2 ?_
    exact AList.mem_lookup_iff.mpr member
  have liveKib : wrapSum 64 (m.rows.entries.map (·.2.kibAdmitted)) = weigh Row.kibAdmitted m.rows :=
    wrapSum_of_fits (show weigh Row.kibAdmitted m.rows < 2 ^ 64 by omega)
  have liveDedup : wrapSum 64 (m.rows.entries.map (·.2.kibDedup)) = weigh Row.kibDedup m.rows :=
    wrapSum_of_fits (show weigh Row.kibDedup m.rows < 2 ^ 64 by omega)
  have liveFrames : wrapSum 64 (m.rows.entries.map (·.2.frames)) = weigh Row.frames m.rows :=
    wrapSum_of_fits (show weigh Row.frames m.rows < 2 ^ 64 by omega)
  simp only [Meter.summary, liveKib, liveDedup, liveFrames, Nat.min_eq_right dedupLe]
  refine ⟨?_, ?_, ?_⟩
  · rw [wrapAdd_of_fits (show _ < _ by omega), kibs]
  · rw [wrapAdd_of_fits (show _ < _ by omega), dedups]
  · rw [wrapAdd_of_fits (show _ < _ by omega), framesEq]

def kibOf (calls : List Call) : Nat := ∑ k ∈ keysOf calls, divCeil (bytesOf false k calls) 1024

def dedupKibOf (calls : List Call) : Nat := ∑ k ∈ keysOf calls, divCeil (bytesOf true k calls) 1024

def framesOf (calls : List Call) : Nat := ∑ k ∈ keysOf calls, callsOf false k calls

theorem kibIn_tallyOf (unwrapped : Unwrapped calls) : kibIn (tallyOf calls).rows = kibOf calls :=
  sum_rows_tallyOf unwrapped fun a _ _ => divCeil a 1024

theorem framesIn_tallyOf (unwrapped : Unwrapped calls) :
    framesIn (tallyOf calls).rows = framesOf calls :=
  sum_rows_tallyOf unwrapped fun _ _ f => f

theorem dedupIn_tallyOf (unwrapped : Unwrapped calls) (paired : Paired calls) :
    dedupIn (tallyOf calls).rows = dedupKibOf calls := by
  refine (sum_rows_tallyOf unwrapped fun a d _ => min (divCeil d 1024) (divCeil a 1024)).trans ?_
  exact Finset.sum_congr rfl fun k _ => Nat.min_eq_left (divCeil_mono 1024 (paired.le k))

theorem queued_after (cap : Nat) (posts : List (Nat × List Call)) :
    (after cap posts).Queued ∧ (after cap posts).order.length ≤ max cap 1 ∧ (after cap posts).cap = max cap 1 := by
  refine foldl_invariant (fun _ (m : Meter) => m.Queued ∧ m.order.length ≤ max cap 1 ∧ m.cap = max cap 1) _ posts _
    ⟨.nil, Nat.zero_le _, rfl⟩ fun _ post m _ => ?_
  rintro ⟨queued, -, same⟩
  have out := queued_merge queued post.1 (tallyOf post.2)
  rwa [same] at out

def HoldsAll (posts : List (Nat × List Call)) (m : Meter) : Prop :=
  m.Holds (posts.map fun post => kibOf post.2).sum (posts.map fun post => dedupKibOf post.2).sum
    (posts.map fun post => framesOf post.2).sum

theorem holds_new (cap : Nat) : HoldsAll [] (new cap) := by
  refine ⟨rfl, rfl, rfl, Nat.le_refl 0, fun k row found => ?_⟩
  exact absurd ((AList.lookup_empty k).symm.trans found) nofun

theorem holds_after (cap : Nat) {posts : List (Nat × List Call)} (paired : ∀ post ∈ posts, Paired post.2)
    (unwrapped : ∀ post ∈ posts, Unwrapped post.2) (kibFits : (posts.map fun post => kibOf post.2).sum < 2 ^ 64)
    (framesFit : (posts.map fun post => framesOf post.2).sum < 2 ^ 64) : HoldsAll posts (after cap posts) := by
  refine foldl_invariant HoldsAll _ posts _ (holds_new cap) fun seen post m sofar holds => ?_
  have member : post ∈ posts := sofar.subset (List.mem_append_right _ (List.mem_singleton_self post))
  have kibLe := (sofar.sublist.map fun post => kibOf post.2).sum_le_sum fun _ _ => Nat.zero_le _
  have framesLe := (sofar.sublist.map fun post => framesOf post.2).sum_le_sum fun _ _ => Nat.zero_le _
  unfold HoldsAll at holds ⊢
  simp only [List.map_append, List.sum_append, List.map_singleton, List.sum_singleton] at kibLe framesLe ⊢
  rw [← kibIn_tallyOf (unwrapped post member), ← framesIn_tallyOf (unwrapped post member)] at *
  rw [← dedupIn_tallyOf (unwrapped post member) (paired post member)]
  exact holds.merge post.1 (by omega) (by omega)

/-- As long as no `u64` counter wraps, the summary's figures are the sums over all requests, the queue lists the
keys of the rows, each once and no more than the cap, and no row has more deduplicated than admitted. -/
theorem totals_survive_eviction (cap : Nat) {posts : List (Nat × List Call)} (paired : ∀ post ∈ posts, Paired post.2)
    (unwrapped : ∀ post ∈ posts, Unwrapped post.2) (kibFits : (posts.map fun post => kibOf post.2).sum < 2 ^ 64)
    (framesFit : (posts.map fun post => framesOf post.2).sum < 2 ^ 64) :
    ((after cap posts).summary.kibAdmitted = (posts.map fun post => kibOf post.2).sum ∧
      (after cap posts).summary.kibDedup = (posts.map fun post => dedupKibOf post.2).sum ∧
      (after cap posts).summary.framesAdmitted = (posts.map fun post => framesOf post.2).sum) ∧
    ((after cap posts).order.Nodup ∧ (∀ k, k ∈ (after cap posts).order ↔ k ∈ (after cap posts).rows) ∧
      (after cap posts).order.length ≤ max cap 1) ∧
    ∀ k row, (after cap posts).rows.lookup k = some row → row.kibDedup ≤ row.kibAdmitted := by
  have holds := holds_after cap paired unwrapped kibFits framesFit
  obtain ⟨queued, short, -⟩ := queued_after cap posts
  refine ⟨holds.summary kibFits framesFit, ⟨?_, fun k => queued.mem_iff, short⟩, holds.rowwise⟩
  exact queued.nodup_iff.mpr (after cap posts).rows.keys_nodup

/-- Two frames of `2 ^ 63` bytes in one request make the byte counter wrap, and a cap of zero is taken as one. -/
theorem totals_wrap :
    let key : AccountBatch := ⟨Bytes.replicate 20 1, Bytes.replicate 32 2⟩
    let calls : List Call := [⟨false, key, 7, 2 ^ 63⟩, ⟨false, key, 7, 2 ^ 63⟩]
    (after 0 [(0, calls)]).summary.kibAdmitted = 0 ∧ kibOf calls = 2 ^ 54 ∧ (after 0 [(0, calls)]).order.length = 1 := by
  decide +kernel

theorem totals_survive_eviction_twoBatches :
    let first : AccountBatch := ⟨Bytes.replicate 20 1, Bytes.replicate 32 2⟩
    let second : AccountBatch := ⟨Bytes.replicate 20 1, Bytes.replicate 32 3⟩
    let posts : List (Nat × List Call) :=
      [(0, [⟨false, first, 7, 1500⟩, ⟨true, first, 7, 1500⟩]), (5, [⟨false, second, 9, 4000⟩]),
        (8, [⟨false, first, 6, 100⟩])]
    ((after 1 posts).summary.kibAdmitted = (posts.map fun post => kibOf post.2).sum ∧
      (after 1 posts).summary.kibDedup = (posts.map fun post => dedupKibOf post.2).sum ∧
      (after 1 posts).summary.framesAdmitted = (posts.map fun post => framesOf post.2).sum) ∧
    ((after 1 posts).order.Nodup ∧ (∀ k, k ∈ (after 1 posts).order ↔ k ∈ (after 1 posts).rows) ∧
      (after 1 posts).order.length ≤ max 1 1) ∧
    ∀ k row, (after 1 posts).rows.lookup k = some row → row.kibDedup ≤ row.kibAdmitted :=
  totals_survive_eviction 1 (by decide +kernel) (by decide +kernel) (by decide +kernel) (by decide +kernel)

end Meter

end Hoverfly
