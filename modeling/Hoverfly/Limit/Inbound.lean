import Hoverfly.Lib.Budget
import Hoverfly.Lib.Map
import Mathlib.Data.Rat.Cast.Order

/-! The relay's inbound rate limiter. Token counts are exact rationals and instants are nanoseconds. -/
namespace Hoverfly.Limit
open Lib

def seconds (nanos : Nat) : ℚ := nanos / 10 ^ 9

structure Bucket where
  tokens : ℚ
  last : Nat
deriving DecidableEq

namespace Bucket

def refill (b : Bucket) (now : Nat) (rate burst : ℚ) : Bucket :=
  { tokens := fill burst b.tokens (seconds (now - b.last) * rate), last := now }

def take (b : Bucket) : Bucket := { b with tokens := b.tokens - 1 }

def isFull (b : Bucket) (burst : ℚ) : Bool := b.tokens ≥ burst

end Bucket

structure InboundLimiter where
  buckets : AList (fun _ : List UInt8 => Bucket)
  cap : Nat
  rate : ℚ
  burst : ℚ

def minPositive : ℚ := 1 / 2 ^ 1022

namespace InboundLimiter

def new (ratePerSec burst : ℚ) (cap : Nat) : InboundLimiter :=
  { buckets := ∅, cap := max cap 1, rate := max ratePerSec minPositive, burst := max burst 1 }

def tracked (l : InboundLimiter) : Nat := l.buckets.entries.length

def sweep (l : InboundLimiter) (now : Nat) : InboundLimiter :=
  { l with buckets := retain (·.refill now l.rate l.burst) (fun b => !b.isFull l.burst) l.buckets }

def enter (l : InboundLimiter) (key : List UInt8) (now : Nat) : InboundLimiter × Bool :=
  ({ l with buckets := l.buckets.insert key { tokens := l.burst - 1, last := now } }, true)

def allowAt (l : InboundLimiter) (key : List UInt8) (now : Nat) : InboundLimiter × Bool :=
  match l.buckets.lookup key with
  | some b =>
    let b := b.refill now l.rate l.burst
    if b.tokens < 1 then ({ l with buckets := l.buckets.insert key b }, false)
    else ({ l with buckets := l.buckets.insert key b.take }, true)
  | none =>
    if l.tracked ≥ l.cap then
      let l := l.sweep now
      -- every bucket is still throttled: a stranger is refused rather than a limit forgotten
      if l.tracked ≥ l.cap then (l, false) else l.enter key now
    else l.enter key now

end InboundLimiter

structure Call where
  key : List UInt8
  now : Nat

def Call.apply (l : InboundLimiter) (c : Call) : InboundLimiter := (l.allowAt c.key c.now).1

def Call.allowed (l : InboundLimiter) (c : Call) : Bool := (l.allowAt c.key c.now).2

namespace InboundLimiter

def level (l : InboundLimiter) (key : List UInt8) (now : Nat) : ℚ :=
  ((l.buckets.lookup key).map fun b => (b.refill now l.rate l.burst).tokens).getD l.burst

structure UpTo (rate burst : ℚ) (cap : Nat) (l : InboundLimiter) (clock : Nat) : Prop where
  rate : l.rate = rate
  burst : l.burst = burst
  cap : l.cap = cap
  last : ∀ key b, l.buckets.lookup key = some b → b.last ≤ clock
  tokens : ∀ key b, l.buckets.lookup key = some b → 0 ≤ b.tokens
  tracked : l.tracked ≤ l.cap

end InboundLimiter

theorem seconds_nonneg (nanos : Nat) : 0 ≤ seconds nanos := div_nonneg (Nat.cast_nonneg _) (by positivity)

theorem seconds_add (a b : Nat) : seconds (a + b) = seconds a + seconds b := by
  unfold seconds
  rw [Nat.cast_add, add_div]

theorem Bucket.refill_refill {b : Bucket} {t u : Nat} {rate : ℚ} (burst : ℚ) (rising : 0 ≤ rate) (before : b.last ≤ t)
    (le : t ≤ u) : (b.refill t rate burst).refill u rate burst = b.refill u rate burst := by
  have gain : 0 ≤ seconds (u - t) * rate := mul_nonneg (seconds_nonneg _) rising
  have whole : u - b.last = (t - b.last) + (u - t) := by omega
  unfold Bucket.refill
  dsimp only
  rw [fill_fill _ _ gain, whole, seconds_add, add_mul]

namespace InboundLimiter

variable {rate burst : ℚ} {cap : Nat} {l : InboundLimiter} {clock now u : Nat} {key k : List UInt8}

theorem allowAt_cases (l : InboundLimiter) (key : List UInt8) (now : Nat) :
    (∃ b, l.buckets.lookup key = some b ∧ (b.refill now l.rate l.burst).tokens < 1 ∧
      l.allowAt key now = ({ l with buckets := l.buckets.insert key (b.refill now l.rate l.burst) }, false)) ∨
    (∃ b, l.buckets.lookup key = some b ∧ 1 ≤ (b.refill now l.rate l.burst).tokens ∧
      l.allowAt key now = ({ l with buckets := l.buckets.insert key (b.refill now l.rate l.burst).take }, true)) ∨
    (l.buckets.lookup key = none ∧ l.allowAt key now = (l.sweep now, false)) ∨
    l.buckets.lookup key = none ∧ ∃ m, (m = l ∨ m = l.sweep now) ∧ m.tracked < m.cap ∧
      l.allowAt key now = m.enter key now := by
  unfold allowAt
  cases found : l.buckets.lookup key with
  | some b =>
    dsimp only
    split
    · rename_i spent
      exact .inl ⟨b, rfl, spent, rfl⟩
    · rename_i some_
      exact .inr (.inl ⟨b, rfl, not_lt.mp some_, rfl⟩)
  | none =>
    dsimp only
    split
    · split
      · exact .inr (.inr (.inl ⟨rfl, rfl⟩))
      · rename_i room
        exact .inr (.inr (.inr ⟨rfl, _, .inr rfl, Nat.not_le.mp room, rfl⟩))
    · rename_i room
      exact .inr (.inr (.inr ⟨rfl, l, .inl rfl, Nat.not_le.mp room, rfl⟩))

theorem level_put (l : InboundLimiter) (key k : List UInt8) (b : Bucket) (u : Nat) :
    level { l with buckets := l.buckets.insert key b } k u =
      if k = key then (b.refill u l.rate l.burst).tokens else l.level k u := by
  unfold level
  split
  · rename_i same
    rw [same, AList.lookup_insert]
    rfl
  · rename_i other
    rw [AList.lookup_insert_ne other]

theorem level_eq {b : Bucket} (found : l.buckets.lookup k = some b) (u : Nat) :
    l.level k u = (b.refill u l.rate l.burst).tokens := by
  rw [level, found]
  rfl

theorem level_of_new (unknown : l.buckets.lookup k = none) (u : Nat) : l.level k u = l.burst := by
  rw [level, unknown]
  rfl

theorem level_sweep (upTo : UpTo rate burst cap l clock) (rising : 0 ≤ rate) (after : clock ≤ now) (le : now ≤ u) :
    (l.sweep now).level k u = l.level k u := by
  have gain : 0 ≤ seconds (u - now) * l.rate := mul_nonneg (seconds_nonneg _) (upTo.rate ▸ rising)
  have swept := lookup_retain (·.refill now l.rate l.burst) (fun b => !b.isFull l.burst) l.buckets k
  cases found : l.buckets.lookup k with
  | none =>
    rw [found] at swept
    rw [level_of_new found, level_of_new swept]
    rfl
  | some b =>
    have through := Bucket.refill_refill l.burst (upTo.rate ▸ rising) ((upTo.last k b found).trans after) le
    rw [level_eq found, ← through]
    rw [found] at swept
    by_cases full : (b.refill now l.rate l.burst).isFull l.burst = true
    · have dropped : (l.sweep now).buckets.lookup k = none := by
        rw [sweep, swept]
        simp [full]
      rw [level_of_new dropped]
      exact (fill_full (of_decide_eq_true full) gain).symm
    · have kept : (l.sweep now).buckets.lookup k = some (b.refill now l.rate l.burst) := by
        rw [sweep, swept]
        simp [full]
      rw [level_eq kept]
      rfl

theorem level_allowAt_le (upTo : UpTo rate burst cap l clock) (rising : 0 ≤ rate) (after : clock ≤ now) (le : now ≤ u) :
    (l.allowAt key now).1.level k u ≤ l.level k u := by
  have rising' : 0 ≤ l.rate := upTo.rate ▸ rising
  rcases l.allowAt_cases key now with ⟨b, found, _, out⟩ | ⟨b, found, _, out⟩ | ⟨_, out⟩ | ⟨unknown, m, which, _, out⟩
  · rw [out, level_put]
    split
    · rename_i same
      rw [Bucket.refill_refill l.burst rising' ((upTo.last key b found).trans after) le, same, level_eq found]
    · exact le_refl _
  · rw [out, level_put]
    split
    · rename_i same
      have through := Bucket.refill_refill l.burst rising' ((upTo.last key b found).trans after) le
      rw [same, level_eq found, ← through]
      exact fill_mono _ (sub_le_self _ zero_le_one)
    · exact le_refl _
  · rw [out, level_sweep upTo rising after le]
  · have same : m.level k u = l.level k u ∧ m.rate = l.rate ∧ m.burst = l.burst := by
      rcases which with rfl | rfl
      · exact ⟨rfl, rfl, rfl⟩
      · exact ⟨level_sweep upTo rising after le, rfl, rfl⟩
    rw [out, enter, level_put]
    split
    · rename_i new
      rw [new, level_of_new unknown, ← same.2.2]
      exact fill_le_burst ..
    · exact same.1.le

theorem level_allowed (allowed : (l.allowAt key now).2 = true) :
    (l.allowAt key now).1.level key now + 1 ≤ l.level key now := by
  have still : ∀ b : Bucket, b.last = now → (b.refill now l.rate l.burst).tokens ≤ b.tokens := by
    intro b here
    have none_ : seconds (now - b.last) * l.rate = 0 := by simp [here, seconds]
    exact (fill_le_add ..).trans (by rw [none_, add_zero])
  rcases l.allowAt_cases key now with ⟨b, _, _, out⟩ | ⟨b, found, _, out⟩ | ⟨_, out⟩ | ⟨unknown, m, which, _, out⟩
  · rw [out] at allowed
    cases allowed
  · rw [out, level_put, if_pos rfl, level_eq found]
    have left := still (b.refill now l.rate l.burst).take rfl
    unfold Bucket.take at left ⊢
    dsimp only at left ⊢
    linarith
  · rw [out] at allowed
    cases allowed
  · have same : m.rate = l.rate ∧ m.burst = l.burst := by
      rcases which with rfl | rfl <;> exact ⟨rfl, rfl⟩
    rw [out, enter, level_put, if_pos rfl, level_of_new unknown, same.1, same.2]
    have left := still ⟨l.burst - 1, now⟩ rfl
    dsimp only at left
    linarith

theorem upTo_put {b : Bucket} (upTo : UpTo rate burst cap l clock) (after : clock ≤ now) (last : b.last ≤ now)
    (tokens : 0 ≤ b.tokens) (room : key ∈ l.buckets ∨ l.tracked < l.cap) :
    UpTo rate burst cap { l with buckets := l.buckets.insert key b } now where
  rate := upTo.rate
  burst := upTo.burst
  cap := upTo.cap
  last k c found := by
    rcases lookup_insert_cases found with ⟨rfl, rfl⟩ | ⟨_, found⟩
    · exact last
    · exact (upTo.last k c found).trans after
  tokens k c found := by
    rcases lookup_insert_cases found with ⟨rfl, rfl⟩ | ⟨_, found⟩
    · exact tokens
    · exact upTo.tokens k c found
  tracked := by
    rcases room with known | free
    · exact (length_insert_of_mem known b).le.trans upTo.tracked
    · exact (length_insert_le ..).trans free

theorem upTo_sweep (upTo : UpTo rate burst cap l clock) (rising : 0 ≤ rate) (positive : 0 ≤ burst) (now : Nat) :
    UpTo rate burst cap (l.sweep now) now where
  rate := upTo.rate
  burst := upTo.burst
  cap := upTo.cap
  last k c found := by
    rw [sweep, lookup_retain] at found
    obtain ⟨b, _, rfl⟩ := Option.map_eq_some_iff.mp found
    exact le_refl _
  tokens k c found := by
    rw [sweep, lookup_retain] at found
    obtain ⟨b, kept, rfl⟩ := Option.map_eq_some_iff.mp found
    have some_ := upTo.tokens k b (Option.filter_eq_some_iff.mp kept).1
    exact fill_nonneg (upTo.burst ▸ positive) some_ (mul_nonneg (seconds_nonneg _) (upTo.rate ▸ rising))
  tracked := (length_retain_le ..).trans upTo.tracked

theorem upTo_allowAt (upTo : UpTo rate burst cap l clock) (rising : 0 ≤ rate) (large : 1 ≤ burst) (after : clock ≤ now) :
    UpTo rate burst cap (l.allowAt key now).1 now := by
  have positive : 0 ≤ burst := zero_le_one.trans large
  have full : 0 ≤ burst - 1 := sub_nonneg.mpr large
  rcases l.allowAt_cases key now with ⟨b, found, _, out⟩ | ⟨b, found, some_, out⟩ | ⟨_, out⟩ | ⟨_, m, which, free, out⟩
  · rw [out]
    refine upTo_put upTo after (le_refl _) ?_ (.inl (AList.lookup_isSome.mp (by rw [found]; rfl)))
    exact fill_nonneg (upTo.burst ▸ positive) (upTo.tokens key b found)
      (mul_nonneg (seconds_nonneg _) (upTo.rate ▸ rising))
  · rw [out]
    exact upTo_put upTo after (le_refl _) (sub_nonneg.mpr some_) (.inl (AList.lookup_isSome.mp (by rw [found]; rfl)))
  · rw [out]
    exact upTo_sweep upTo rising positive now
  · rw [out]
    rcases which with rfl | rfl
    · exact upTo_put upTo after (le_refl _) (upTo.burst ▸ full) (.inr free)
    · have swept := upTo_sweep upTo rising positive now
      exact upTo_put swept (le_refl _) (le_refl _) (upTo.burst ▸ full) (.inr free)

theorem level_nonneg (upTo : UpTo rate burst cap l clock) (rising : 0 ≤ rate) (positive : 0 ≤ burst) (u : Nat) :
    0 ≤ l.level k u := by
  cases found : l.buckets.lookup k with
  | none =>
    rw [level_of_new found, upTo.burst]
    exact positive
  | some b =>
    rw [level_eq found]
    exact fill_nonneg (upTo.burst ▸ positive) (upTo.tokens k b found)
      (mul_nonneg (seconds_nonneg _) (upTo.rate ▸ rising))

theorem level_le_add (upTo : UpTo rate burst cap l clock) (rising : 0 ≤ rate) (after : clock ≤ now) (le : now ≤ u) :
    l.level k u ≤ l.level k now + seconds (u - now) * rate := by
  cases found : l.buckets.lookup k with
  | none =>
    rw [level_of_new found, level_of_new found]
    exact le_add_of_nonneg_right (mul_nonneg (seconds_nonneg _) rising)
  | some b =>
    have through := Bucket.refill_refill l.burst (upTo.rate ▸ rising) ((upTo.last k b found).trans after) le
    rw [level_eq found, level_eq found, ← through, ← upTo.rate]
    exact fill_le_add ..

/-- The level of one key is a budget that the granted requests of that key draw on, whatever the others do. -/
theorem budget (rising : 0 ≤ rate) (large : 1 ≤ burst) (cap : Nat) (k : List UInt8) :
    Budget Call.apply Call.now (fun l c => decide (c.key = k) && c.allowed l) (UpTo rate burst cap)
      (fun l u => l.level k u) (rate / 10 ^ 9) where
  keep upTo after := upTo_allowAt upTo rising large after
  nonneg upTo _ := level_nonneg upTo rising (zero_le_one.trans large) _
  grows upTo after le := by
    refine (level_le_add upTo rising after le).trans (le_of_eq ?_)
    unfold seconds
    ring
  lower upTo after le := level_allowAt_le upTo rising after le
  spend _ _ granted := by
    obtain ⟨mine, allowed⟩ := Bool.and_eq_true_iff.mp granted
    rw [← of_decide_eq_true mine]
    exact level_allowed allowed

theorem upTo_new (ratePerSec burst : ℚ) (cap : Nat) :
    UpTo (max ratePerSec minPositive) (max burst 1) (max cap 1) (new ratePerSec burst cap) 0 where
  rate := rfl
  burst := rfl
  cap := rfl
  last _ _ found := nomatch found
  tokens _ _ found := nomatch found
  tracked := Nat.zero_le _

theorem upTo_run (rising : 0 ≤ rate) (large : 1 ≤ burst) {calls : List Call}
    (ordered : (calls.map Call.now).Pairwise (· ≤ ·)) (upTo : UpTo rate burst cap l clock)
    (after : ∀ c ∈ calls, clock ≤ c.now) : ∃ clock', UpTo rate burst cap (run Call.apply l calls) clock' := by
  induction calls generalizing l clock with
  | nil => exact ⟨clock, upTo⟩
  | cons c rest ih =>
    obtain ⟨first, ordered⟩ := List.pairwise_cons.mp ordered
    exact ih ordered (upTo_allowAt upTo rising large (after c (List.mem_cons_self ..)))
      fun d member => first _ (List.mem_map_of_mem member)

end InboundLimiter

def Call.granted (key : List UInt8) (s t : Nat) (l : InboundLimiter) (c : Call) : Bool :=
  decide (s ≤ c.now ∧ c.now ≤ t) && (decide (c.key = key) && c.allowed l)

/-- No key gets more through in a window than a burst and what the window adds, and the map stays bounded. -/
theorem inbound_bounded (ratePerSec burst : ℚ) (cap : Nat) {calls : List Call}
    (ordered : (calls.map Call.now).Pairwise (· ≤ ·)) :
    let l := InboundLimiter.new ratePerSec burst cap
    (∀ key s t, (tally (Call.granted key s t) Call.apply l calls : ℚ) ≤ l.burst + l.rate * seconds (t - s)) ∧
      ∀ pre, pre <+: calls → (run Call.apply l pre).tracked ≤ l.cap := by
  intro l
  have rising : (0 : ℚ) ≤ max ratePerSec minPositive := le_max_of_le_right (by unfold minPositive; positivity)
  have large : (1 : ℚ) ≤ max burst 1 := le_max_right _ _
  have start := InboundLimiter.upTo_new ratePerSec burst cap
  refine ⟨fun key s t => ?_, fun pre within => ?_⟩
  · have window := (InboundLimiter.budget rising large _ key).window (by positivity) s t ordered start
      fun _ _ => Nat.zero_le _
    refine window.trans (le_of_eq ?_)
    rw [Nat.max_zero, InboundLimiter.level_of_new rfl, seconds]
    change max burst 1 + _ = max burst 1 + max ratePerSec minPositive * _
    ring
  · have before : (pre.map Call.now).Pairwise (· ≤ ·) := ordered.sublist (within.sublist.map _)
    obtain ⟨_, reached⟩ := InboundLimiter.upTo_run rising large before start fun _ _ => Nat.zero_le _
    exact reached.tracked.trans (le_of_eq reached.cap)

def flood : List Call := [⟨[1], 0⟩, ⟨[1], 0⟩, ⟨[2], 0⟩, ⟨[2], 2 * 10 ^ 9⟩, ⟨[1], 2 * 10 ^ 9⟩, ⟨[1], 4 * 10 ^ 9⟩]

theorem inbound_bounded_flood :
    let l := InboundLimiter.new 1 1 1
    tally (Call.granted [1] 0 (4 * 10 ^ 9)) Call.apply l flood = 2 ∧
      (∀ key s t, (tally (Call.granted key s t) Call.apply l flood : ℚ) ≤ l.burst + l.rate * seconds (t - s)) ∧
      ∀ pre, pre <+: flood → (run Call.apply l pre).tracked ≤ l.cap :=
  ⟨by decide +kernel, inbound_bounded 1 1 1 (by decide)⟩

end Hoverfly.Limit
