import Hoverfly.Lib.Checked
import Hoverfly.Lib.Chunks
import Hoverfly.Lib.Word

/-! Redundancy levels, chunk addresses, and how a node's layout is read back off its
span and its payload. A chunk in wire form is `span(8, LE) | payload`. -/
namespace Hoverfly.Erasure
open Lib

def chunkSize : Nat := 4096
def branches : Nat := 128
def spanSize : Nat := 8
def hashSize : Nat := 32

abbrev Wire := List UInt8
abbrev Addr := Bytes 32

inductive Level where
  | none
  | medium
  | strong
  | insane
  | paranoid
deriving DecidableEq, Repr

namespace Level

def toU8 : Level → UInt8
  | .none => 0
  | .medium => 1
  | .strong => 2
  | .insane => 3
  | .paranoid => 4

def fromU8 (v : UInt8) : Option Level :=
  if v = 0 then some .none
  else if v = 1 then some .medium
  else if v = 2 then some .strong
  else if v = 3 then some .insane
  else if v = 4 then some .paranoid
  else Option.none

def mediumEt : List (Nat × Nat) := [(95, 9), (69, 8), (47, 7), (29, 6), (15, 5), (6, 4), (2, 3), (1, 2)]

def strongEt : List (Nat × Nat) :=
  [(105, 21), (96, 20), (87, 19), (78, 18), (70, 17), (62, 16), (54, 15), (47, 14), (40, 13), (33, 12),
   (27, 11), (21, 10), (16, 9), (11, 8), (7, 7), (4, 6), (2, 5), (1, 4)]

def insaneEt : List (Nat × Nat) :=
  [(93, 31), (88, 30), (83, 29), (78, 28), (74, 27), (69, 26), (64, 25), (60, 24), (55, 23), (51, 22),
   (46, 21), (42, 20), (38, 19), (34, 18), (30, 17), (27, 16), (23, 15), (20, 14), (17, 13), (14, 12),
   (11, 11), (9, 10), (6, 9), (4, 8), (3, 7), (2, 6), (1, 5)]

def paranoidEt : List (Nat × Nat) :=
  [(37, 89), (36, 87), (35, 86), (34, 84), (33, 83), (32, 81), (31, 80), (30, 78), (29, 76), (28, 75),
   (27, 73), (26, 71), (25, 70), (24, 68), (23, 66), (22, 65), (21, 63), (20, 61), (19, 59), (18, 58),
   (17, 56), (16, 54), (15, 52), (14, 50), (13, 48), (12, 47), (11, 45), (10, 43), (9, 40), (8, 38),
   (7, 36), (6, 34), (5, 31), (4, 29), (3, 26), (2, 23), (1, 19)]

def erasureTable : Level → List (Nat × Nat)
  | .none => []
  | .medium => mediumEt
  | .strong => strongEt
  | .insane => insaneEt
  | .paranoid => paranoidEt

def parities (level : Level) (shards : Nat) : Nat :=
  match level.erasureTable.find? fun row => shards ≥ row.1 with
  | some row => row.2
  | Option.none => 0

def maxShards (level : Level) : Nat := branches - level.parities branches

theorem maxShards_mem (level : Level) : 39 ≤ level.maxShards ∧ level.maxShards ≤ 128 := by
  cases level <;> decide

theorem parities_none (k : Nat) : Level.none.parities k = 0 := rfl

theorem parities_spec (level : Level) (coded : level ≠ .none) :
    (∀ k < level.maxShards, k + level.parities k < 128) ∧
      level.maxShards + level.parities level.maxShards = 128 := by
  cases level with
  | none => exact absurd rfl coded
  | _ => decide

theorem parities_fit (level : Level) {k : Nat} (most : k ≤ level.maxShards) : k + level.parities k ≤ 128 := by
  by_cases coded : level = .none
  · have := level.maxShards_mem
    subst coded
    rw [parities_none]
    omega
  · obtain ⟨low, full⟩ := level.parities_spec coded
    rcases Nat.lt_or_eq_of_le most with less | same
    · exact Nat.le_of_lt (low k less)
    · rw [same, full]

theorem parities_pos {level : Level} (coded : level ≠ .none) {k : Nat} (pos : 0 < k) : 0 < level.parities k := by
  have reached : ∀ table : List (Nat × Nat), (∃ row ∈ table, row.1 = 1) → (∀ row ∈ table, 0 < row.2) →
      0 < match table.find? fun row => k ≥ row.1 with | some row => row.2 | Option.none => 0 := by
    intro table one positive
    obtain ⟨row, member, first⟩ := one
    cases found : table.find? fun row => k ≥ row.1 with
    | none =>
      have missed := List.find?_eq_none.mp found row member
      simp only [first, decide_eq_true_eq] at missed
      omega
    | some row => exact positive row (List.mem_of_find?_eq_some found)
  cases level with
  | none => exact absurd rfl coded
  | _ => exact reached _ (by decide) (by decide)

end Level

/-- The address of a chunk in wire form, by the hash `bmt` of its span and payload. -/
def wireAddress (bmt : Nat → List UInt8 → Addr) (wire : Wire) : Option Addr :=
  if wire.length < spanSize ∨ wire.length - spanSize > chunkSize then none
  else some (bmt (fromLe (wire.take spanSize)) (wire.drop spanSize))

def decodeSpan (span : List UInt8) : Level × Nat :=
  let buf := span.take spanSize
  let top := buf.getD (spanSize - 1) 0
  if top ≤ 128 then (.none, fromLe buf)
  else ((Level.fromU8 (top &&& 0x7f)).getD .none, fromLe (buf.set (spanSize - 1) 0))

def isLevelEncoded (span : List UInt8) : Bool :=
  span.length ≥ spanSize ∧ span.getD (spanSize - 1) 0 > 128

/-- The tree level whose one branch can hold `span`. The fuel covers every run in which no product wraps. -/
def branchLevel (branching span : Nat) : Nat → Nat → Nat → Option Nat
  | 0, _, _ => none
  | fuel + 1, branchSize, level =>
    if branchSize < span then branchLevel branching span fuel (wrapMul 64 branchSize branching) (level + 1)
    else some level

def countShards (referenceSize span : Nat) : Nat → Nat → Nat → Option Nat
  | 0, _, _ => none
  | fuel + 1, spanOffset, dataShards =>
    if spanOffset < span then countShards referenceSize span fuel (wrapAdd 64 spanOffset referenceSize) (dataShards + 1)
    else some dataShards

def referenceCount (span : Nat) (level : Level) : Option (Nat × Nat) :=
  let branching := max level.maxShards 1
  match branchLevel branching span 64 chunkSize 1 with
  | none => none
  | some branch =>
    let referenceSize := (wrapMul 64 · branching)^[branch - 2] chunkSize
    (countShards referenceSize span 256 referenceSize 1).map fun dataShards =>
      (dataShards, level.parities dataShards)

def asAddr (bytes : List UInt8) : Option Addr := if sized : bytes.length = 32 then some ⟨bytes, sized⟩ else none

def chunkAddresses (payload : List UInt8) (parities : Nat) : List Addr × Nat :=
  ((chunks hashSize payload).filterMap asAddr, (payload.length - parities * hashSize) / hashSize)

/-- `left` counts the whole references below `l`. -/
def payloadSizeFrom (data : List UInt8) : (left l : Nat) → Option Nat
  | 0, _ => none
  | left + 1, l =>
    if (data.take l).drop (l - hashSize) ≠ List.replicate hashSize 0 then some l
    else payloadSizeFrom data left (l - hashSize)

/-- The payload's length without trailing all-zero references. -/
def chunkPayloadSize (data : List UInt8) : Option Nat :=
  payloadSizeFrom data (data.length / hashSize) data.length

theorem decodeSpan_level {level : Level} (coded : level ≠ .none) (n : Nat) :
    decodeSpan ((toLe 8 n).set 7 (level.toU8 ||| 0x80)) = (level, n % 2 ^ 56) := by
  have top : (toLe 8 n).set 7 (level.toU8 ||| 0x80) = toLe 7 n ++ [level.toU8 ||| 0x80] := by
    rw [toLe_last, List.set_append_right _ _ (by simp)]
    simp
  have whole : ∀ b : UInt8, (toLe 7 n ++ [b]).take spanSize = toLe 7 n ++ [b] := by
    intro b
    rw [List.take_of_length_le (by simp [spanSize])]
  have last : ∀ b : UInt8, (toLe 7 n ++ [b]).getD (spanSize - 1) 0 = b := by
    intro b
    simp [List.getD_eq_getElem?_getD, spanSize]
  have cleared : fromLe ((toLe 7 n ++ [level.toU8 ||| 0x80]).set (spanSize - 1) 0) = n % 2 ^ 56 := by
    rw [List.set_append_right _ _ (by simp [spanSize])]
    simp [spanSize, fromLe_append, fromLe_toLe, fromLe]
  unfold decodeSpan
  dsimp only
  rw [top, whole, last, cleared]
  cases level with
  | none => exact absurd rfl coded
  | _ => rfl

theorem decodeSpan_plain {n : Nat} (small : n < 2 ^ 63) : decodeSpan (toLe 8 n) = (.none, n) := by
  have top : UInt8.ofNat (n / 256 ^ 7) ≤ 128 := by
    rw [UInt8.le_iff_toNat_le, UInt8.toNat_ofNat']
    have : n / 256 ^ 7 < 128 := Nat.div_lt_of_lt_mul (by omega)
    exact Nat.le_of_lt (Nat.lt_of_le_of_lt (Nat.mod_le _ _) this)
  have whole : (toLe 8 n).take spanSize = toLe 8 n := List.take_of_length_le (by simp [spanSize])
  have last : (toLe 8 n).getD (spanSize - 1) 0 = UInt8.ofNat (n / 256 ^ 7) := by
    rw [toLe_last]
    simp [List.getD_eq_getElem?_getD, spanSize]
  unfold decodeSpan
  dsimp only
  rw [whole, last, if_pos top, fromLe_toLe, Nat.mod_eq_of_lt (by omega)]

section
variable {b h k span : Nat}

inductive Spent where
  | fuel

/-- The loops of `referenceCount` in a build that panics where a product or a sum overflows. -/
def branchLevelChecked (branching span : Nat) : Nat → Nat → Nat → Checked Spent Nat
  | 0, _, _ => .fail .fuel
  | fuel + 1, branchSize, level =>
    if branchSize < span then do
      let branchSize ← .mul 64 branchSize branching
      branchLevelChecked branching span fuel branchSize (level + 1)
    else .ok level

def referenceSizeChecked (branching : Nat) : (left referenceSize : Nat) → Checked Spent Nat
  | 0, referenceSize => .ok referenceSize
  | left + 1, referenceSize => do
    let referenceSize ← .mul 64 referenceSize branching
    referenceSizeChecked branching left referenceSize

def countShardsChecked (referenceSize span : Nat) : Nat → Nat → Nat → Checked Spent Nat
  | 0, _, _ => .fail .fuel
  | fuel + 1, spanOffset, dataShards =>
    if spanOffset < span then do
      let spanOffset ← .add 64 spanOffset referenceSize
      countShardsChecked referenceSize span fuel spanOffset (dataShards + 1)
    else .ok dataShards

def selectSize (fuel span : Nat) (level : Level) : Checked Spent Nat := do
  let branching := max level.maxShards 1
  let branch ← branchLevelChecked branching span fuel chunkSize 1
  referenceSizeChecked branching (branch - 2) chunkSize

def referenceCountChecked (fuel span : Nat) (level : Level) : Checked Spent (Nat × Nat) := do
  let referenceSize ← selectSize fuel span level
  let dataShards ← countShardsChecked referenceSize span fuel referenceSize 1
  return (dataShards, level.parities dataShards)

variable {fuel r : Nat} {level : Level}

theorem branchLevel_of_checked {branchSize l : Nat} (out : branchLevelChecked b span fuel branchSize l = .ok r) :
    branchLevel b span fuel branchSize l = some r := by
  induction fuel generalizing branchSize l with
  | zero => cases out
  | succ fuel ih =>
    unfold branchLevelChecked at out
    unfold branchLevel
    split at out
    · obtain ⟨next, product, rest⟩ := bind_ok out
      obtain ⟨fits, rfl⟩ := Checked.eq_of_mul_ok product
      rw [if_pos ‹_›, wrapMul_of_fits fits]
      exact ih rest
    · cases out
      exact if_neg ‹_›

theorem referenceSize_of_checked {left size : Nat} (out : referenceSizeChecked b left size = .ok r) :
    (wrapMul 64 · b)^[left] size = r := by
  induction left generalizing size with
  | zero =>
    cases out
    rfl
  | succ left ih =>
    obtain ⟨next, product, rest⟩ := bind_ok out
    obtain ⟨fits, rfl⟩ := Checked.eq_of_mul_ok product
    rw [Function.iterate_succ_apply, wrapMul_of_fits fits]
    exact ih rest

theorem countShards_of_checked {c offset d : Nat} (out : countShardsChecked c span fuel offset d = .ok r) :
    countShards c span fuel offset d = some r := by
  induction fuel generalizing offset d with
  | zero => cases out
  | succ fuel ih =>
    unfold countShardsChecked at out
    unfold countShards
    split at out
    · obtain ⟨next, sum, rest⟩ := bind_ok out
      obtain ⟨fits, rfl⟩ := Checked.eq_of_add_ok sum
      rw [if_pos ‹_›, wrapAdd, Nat.mod_eq_of_lt fits]
      exact ih rest
    · cases out
      exact if_neg ‹_›

theorem branchLevelChecked_spec (small : span < 2 ^ 56) (branching : b ≤ 128) (low : chunkSize * b ^ h < span)
    (high : span ≤ chunkSize * b ^ (h + 1)) (fuel j : Nat) (below : j ≤ h + 1) (enough : h + 1 - j < fuel) :
    branchLevelChecked b span fuel (chunkSize * b ^ j) (j + 1) = .ok (h + 2) := by
  induction fuel generalizing j with
  | zero => omega
  | succ fuel ih =>
    unfold branchLevelChecked
    by_cases last : j = h + 1
    · subst last
      rw [if_neg (by omega)]
    · have positive : 0 < b := by
        rcases Nat.eq_zero_or_pos b with zero | pos
        · rw [zero, Nat.zero_pow (by omega), Nat.mul_zero] at high
          omega
        · exact pos
      have smaller : chunkSize * b ^ j ≤ chunkSize * b ^ h :=
        Nat.mul_le_mul_left _ (Nat.pow_le_pow_right positive (by omega))
      have fits : chunkSize * b ^ j * b < 2 ^ 64 :=
        Nat.lt_of_le_of_lt (Nat.mul_le_mul_left _ branching) (by omega)
      rw [if_pos (by omega), Checked.mul_ok fits, Nat.mul_assoc, ← Nat.pow_succ]
      exact ih (j + 1) (by omega) (by omega)

theorem referenceSizeChecked_spec (branching : b ≤ 128) (left j : Nat) (small : chunkSize * b ^ (j + left) < 2 ^ 56)
    (pos : 0 < b) : referenceSizeChecked b left (chunkSize * b ^ j) = .ok (chunkSize * b ^ (j + left)) := by
  induction left generalizing j with
  | zero => rfl
  | succ left ih =>
    have smaller : chunkSize * b ^ j ≤ chunkSize * b ^ (j + (left + 1)) :=
      Nat.mul_le_mul_left _ (Nat.pow_le_pow_right pos (by omega))
    have fits : chunkSize * b ^ j * b < 2 ^ 64 :=
      Nat.lt_of_le_of_lt (Nat.mul_le_mul_left _ branching) (by omega)
    have next : j + (left + 1) = j + 1 + left := by omega
    rw [next] at small ⊢
    rw [referenceSizeChecked, Checked.mul_ok fits, Nat.mul_assoc, ← Nat.pow_succ]
    exact ih (j + 1) small

theorem countShardsChecked_spec {c : Nat} (small : span < 2 ^ 56) (each : c < 2 ^ 56) (low : c * (k - 1) < span ∨ k = 1)
    (high : span ≤ c * k) (fuel d : Nat) (started : 0 < d) (below : d ≤ k) (enough : k - d < fuel) :
    countShardsChecked c span fuel (c * d) d = .ok k := by
  induction fuel generalizing d with
  | zero => omega
  | succ fuel ih =>
    unfold countShardsChecked
    by_cases last : d = k
    · subst last
      rw [if_neg (by omega)]
    · have low : c * (k - 1) < span := low.resolve_right (by omega)
      have more : c * d ≤ c * (k - 1) := Nat.mul_le_mul_left _ (by omega)
      rw [if_pos (by omega), Checked.add_ok (by omega), ← Nat.mul_succ]
      exact ih (d + 1) (by omega) (by omega) (by omega)

theorem referenceCount_of_checked {branch size d : Nat}
    (first : branchLevelChecked (max level.maxShards 1) span 64 chunkSize 1 = .ok branch)
    (second : referenceSizeChecked (max level.maxShards 1) (branch - 2) chunkSize = .ok size)
    (third : countShardsChecked size span 256 size 1 = .ok d) :
    referenceCount span level = some (d, level.parities d) := by
  unfold referenceCount
  dsimp only
  rw [branchLevel_of_checked first]
  dsimp only
  rw [referenceSize_of_checked second, countShards_of_checked third]
  rfl

structure Counted (level : Level) (span h k : Nat) : Prop where
  pos : 1 ≤ k
  most : k ≤ level.maxShards
  small : chunkSize * level.maxShards ^ h < 2 ^ 56
  branch : ∀ fuel ≥ 64, ∃ branch, branch - 2 = h ∧
    branchLevelChecked (max level.maxShards 1) span fuel chunkSize 1 = .ok branch
  low : chunkSize * level.maxShards ^ h * (k - 1) < span ∨ k = 1
  high : span ≤ chunkSize * level.maxShards ^ h * k

theorem counted_branch (small : span < 2 ^ 56) (two : 2 ≤ k) (most : k ≤ level.maxShards)
    (low : chunkSize * level.maxShards ^ h * (k - 1) < span)
    (high : span ≤ chunkSize * level.maxShards ^ h * k) : Counted level span h k := by
  obtain ⟨least, greatest⟩ := level.maxShards_mem
  have branching : max level.maxShards 1 = level.maxShards := by omega
  have each : chunkSize * level.maxShards ^ h ≤ chunkSize * level.maxShards ^ h * (k - 1) :=
    Nat.le_mul_of_pos_right _ (by omega)
  have full : span ≤ chunkSize * level.maxShards ^ (h + 1) := by
    rw [Nat.pow_succ, ← Nat.mul_assoc]
    exact Nat.le_trans high (Nat.mul_le_mul_left _ most)
  have height : h < 56 := by
    have two_pow : 2 ^ h ≤ level.maxShards ^ h := Nat.pow_le_pow_left (by omega) h
    have : 2 ^ h < 2 ^ 56 := by
      have : 1 * level.maxShards ^ h ≤ chunkSize * level.maxShards ^ h := Nat.mul_le_mul_right _ (by decide)
      omega
    exact (Nat.pow_lt_pow_iff_right (by omega)).mp this
  refine ⟨by omega, most, by omega, fun fuel enough => ⟨h + 2, rfl, ?_⟩, .inl low, high⟩
  have branch := branchLevelChecked_spec small greatest (by omega) full fuel 0 (by omega) (by omega)
  rw [Nat.pow_zero, Nat.mul_one] at branch
  rw [branching, branch]

theorem counted_chunk (within : span ≤ chunkSize) : Counted level span 0 1 := by
  have least := level.maxShards_mem.1
  refine ⟨le_rfl, by omega, ?_, fun fuel enough => ⟨1, rfl, ?_⟩, .inr rfl, ?_⟩
  · rw [Nat.pow_zero]
    decide
  · obtain ⟨fuel, rfl⟩ : ∃ n, fuel = n + 1 := ⟨fuel - 1, by omega⟩
    exact if_neg (Nat.not_lt.mpr within)
  · rw [Nat.pow_zero, Nat.mul_one, Nat.mul_one]
    exact within

theorem exists_counted (level : Level) (small : span < 2 ^ 56) : ∃ h k, Counted level span h k := by
  obtain ⟨least, -⟩ := level.maxShards_mem
  by_cases within : span ≤ chunkSize
  · exact ⟨0, 1, counted_chunk within⟩
  have reached : ∃ h, span ≤ chunkSize * level.maxShards ^ (h + 1) := by
    refine ⟨55, ?_⟩
    have two_pow : 2 ^ 56 ≤ level.maxShards ^ 56 := Nat.pow_le_pow_left (by omega) 56
    have : 1 * level.maxShards ^ 56 ≤ chunkSize * level.maxShards ^ 56 := Nat.mul_le_mul_right _ (by decide)
    exact (by omega : span ≤ chunkSize * level.maxShards ^ 56)
  have full := Nat.find_spec reached
  have before : chunkSize * level.maxShards ^ Nat.find reached < span := by
    cases found : Nat.find reached with
    | zero =>
      rw [Nat.pow_zero]
      omega
    | succ h => exact Nat.lt_of_not_le (Nat.find_min reached (by omega))
  generalize Nat.find reached = h at full before
  rw [Nat.pow_succ, ← Nat.mul_assoc] at full
  generalize size_eq : chunkSize * level.maxShards ^ h = size at full before
  have pos : 0 < size := by
    rw [← size_eq]
    exact Nat.mul_pos (by decide) (Nat.pow_pos (by omega))
  have two : 1 ≤ (span - 1) / size := (Nat.one_le_div_iff pos).mpr (by omega)
  have most : (span - 1) / size < level.maxShards := Nat.div_lt_of_lt_mul (by omega)
  have low : size * ((span - 1) / size) ≤ span - 1 := Nat.mul_div_le ..
  have high : span - 1 < size * ((span - 1) / size + 1) := Nat.lt_mul_div_succ _ pos
  refine ⟨h, (span - 1) / size + 1, counted_branch small (by omega) most ?_ ?_⟩ <;> rw [size_eq]
  · rw [Nat.add_sub_cancel]
    omega
  · omega

theorem Counted.size (counted : Counted level span h k) {branch : Nat} (same : branch - 2 = h) :
    referenceSizeChecked (max level.maxShards 1) (branch - 2) chunkSize = .ok (chunkSize * level.maxShards ^ h) := by
  obtain ⟨least, greatest⟩ := level.maxShards_mem
  have branching : max level.maxShards 1 = level.maxShards := by omega
  have size := @referenceSizeChecked_spec level.maxShards greatest h 0 (by rw [Nat.zero_add]; exact counted.small) (by omega)
  rw [Nat.zero_add, Nat.pow_zero, Nat.mul_one] at size
  rw [branching, same, size]

theorem Counted.count (counted : Counted level span h k) (small : span < 2 ^ 56) (enough : 256 ≤ fuel) :
    countShardsChecked (chunkSize * level.maxShards ^ h) span fuel (chunkSize * level.maxShards ^ h) 1 = .ok k := by
  have greatest := level.maxShards_mem.2
  have most := counted.most
  have count := countShardsChecked_spec small counted.small counted.low counted.high fuel 1 (by omega) counted.pos (by omega)
  rwa [Nat.mul_one] at count

theorem Counted.referenceCount (counted : Counted level span h k) (small : span < 2 ^ 56) :
    referenceCount span level = some (k, level.parities k) := by
  obtain ⟨branch, same, first⟩ := counted.branch 64 le_rfl
  exact referenceCount_of_checked first (counted.size same) (counted.count small le_rfl)

/-- A node over `k` subtrees of height `h`, all but the last full, is counted from its span alone. -/
theorem referenceCount_spec (small : span < 2 ^ 56) (two : 2 ≤ k) (most : k ≤ level.maxShards)
    (low : chunkSize * level.maxShards ^ h * (k - 1) < span)
    (high : span ≤ chunkSize * level.maxShards ^ h * k) :
    referenceCount span level = some (k, level.parities k) :=
  (counted_branch small two most low high).referenceCount small

end

theorem decodeSpan_small {bytes : List UInt8} (coded : (decodeSpan bytes).1 ≠ .none) : (decodeSpan bytes).2 < 2 ^ 56 := by
  unfold decodeSpan at coded ⊢
  dsimp only at coded ⊢
  split at coded
  · exact absurd rfl coded
  · rename_i marked
    rw [if_neg marked]
    have sized : spanSize - 1 < (bytes.take spanSize).length := by
      by_contra short
      rw [List.getD_eq_getElem?_getD, List.getElem?_eq_none (by omega)] at marked
      exact marked (by decide)
    have cleared := fromLe_lt ((bytes.take spanSize).take (spanSize - 1))
    rw [List.length_take, Nat.min_eq_left sized.le] at cleared
    have longest : (bytes.take spanSize).length ≤ spanSize := List.length_take_le ..
    dsimp only
    rw [List.set_eq_take_append_cons_drop, if_pos sized, List.drop_eq_nil_of_le (by omega), fromLe_append]
    exact cleared

theorem referenceCount_hostile :
    (∀ (level : Level) (span : Nat), span < 2 ^ 56 → ∃ size d,
      (∀ fuel ≥ 256, selectSize fuel span level = .ok size ∧
        referenceCountChecked fuel span level = .ok (d, level.parities d)) ∧
      referenceCount span level = some (d, level.parities d) ∧
      1 ≤ d ∧ d ≤ level.maxShards ∧ d + level.parities d ≤ 128 ∧
      span ≤ d * size ∧ ∀ k, 1 ≤ k → span ≤ k * size → d ≤ k) ∧
    ∀ bytes, (decodeSpan bytes).1 ≠ .none → (decodeSpan bytes).2 < 2 ^ 56 := by
  refine ⟨fun level span small => ?_, fun bytes => decodeSpan_small⟩
  obtain ⟨h, d, counted⟩ := exists_counted level small
  refine ⟨chunkSize * level.maxShards ^ h, d, fun fuel enough => ?_, counted.referenceCount small, counted.pos,
    counted.most, level.parities_fit counted.most, ?_, fun k pos covered => ?_⟩
  · obtain ⟨branch, same, first⟩ := counted.branch fuel (by omega)
    have selected : selectSize fuel span level = .ok (chunkSize * level.maxShards ^ h) := by
      simp only [selectSize, first, bind, Except.bind, counted.size same]
    refine ⟨selected, ?_⟩
    simp only [referenceCountChecked, selected, bind, Except.bind, counted.count small enough]
    rfl
  · rw [Nat.mul_comm]
    exact counted.high
  · rcases counted.low with low | one
    · rw [Nat.mul_comm] at covered
      have less := Nat.lt_of_mul_lt_mul_left (low.trans_le covered)
      omega
    · omega

theorem referenceCount_hostile_medium :
    10000 < 2 ^ 56 ∧ ∃ d, referenceCount 10000 .medium = some (d, Level.medium.parities d) ∧ d ≤ 119 := by
  obtain ⟨_, d, -, counted, -, most, -⟩ := referenceCount_hostile.1 .medium 10000 (by decide)
  exact ⟨by decide, d, counted, most⟩

def refBytes (refs : List Addr) : List UInt8 := refs.flatMap fun a => a.val

theorem refBytes_append (xs ys : List Addr) : refBytes (xs ++ ys) = refBytes xs ++ refBytes ys :=
  List.flatMap_append

theorem asAddr_val (a : Addr) : asAddr a.val = some a := dif_pos a.property

variable (refs : List Addr)

theorem chunks_refBytes : (chunks hashSize (refBytes refs)).filterMap asAddr = refs := by
  induction refs with
  | nil => rfl
  | cons a rest ih =>
    have first : chunks hashSize (a.val ++ refBytes rest) = a.val :: chunks hashSize (refBytes rest) :=
      chunks_append (by decide) a.property _
    rw [refBytes, List.flatMap_cons, ← refBytes, first, List.filterMap_cons_some (asAddr_val a), ih]

theorem length_refBytes : (refBytes refs).length = hashSize * refs.length := by
  induction refs with
  | nil => rfl
  | cons a rest ih =>
    rw [refBytes, List.flatMap_cons, ← refBytes, List.length_append, ih, a.property, List.length_cons, hashSize]
    omega

theorem chunkAddresses_spec {k p : Nat} (split : refs.length = k + p) :
    chunkAddresses (refBytes refs) p = (refs, k) := by
  have data : (32 * (k + p) - p * 32) / 32 = k := by omega
  unfold chunkAddresses
  rw [chunks_refBytes, length_refBytes, split, hashSize, data]

theorem payloadSizeFrom_last (a : Addr) (nonzero : a.val ≠ List.replicate hashSize 0) (padding : List UInt8) :
    payloadSizeFrom (refBytes (refs ++ [a]) ++ padding) (refs.length + 1) (hashSize * (refs.length + 1)) =
      some (hashSize * (refs.length + 1)) := by
  have sized : (refBytes (refs ++ [a])).length = hashSize * (refs.length + 1) := by
    rw [length_refBytes, List.length_append, List.length_singleton]
  have last : (refBytes (refs ++ [a])).drop (hashSize * refs.length) = a.val := by
    rw [refBytes_append, List.drop_left' (length_refBytes refs)]
    exact List.append_nil _
  rw [payloadSizeFrom, List.take_left' sized, Nat.mul_succ, Nat.add_sub_cancel, last, if_pos nonzero]

theorem payloadSizeFrom_zero (bytes : List UInt8) {left y z : Nat} (below : y + 1 ≤ z) :
    payloadSizeFrom (bytes ++ List.replicate (hashSize * z) 0) (left + 1) (bytes.length + hashSize * (y + 1)) =
      payloadSizeFrom (bytes ++ List.replicate (hashSize * z) 0) left (bytes.length + hashSize * y) := by
  have down : bytes.length + hashSize * (y + 1) - hashSize = bytes.length + hashSize * y := by
    rw [Nat.mul_succ]
    omega
  have fits : hashSize * (y + 1) ≤ hashSize * z := Nat.mul_le_mul_left _ below
  rw [payloadSizeFrom, down, List.take_length_add_append, List.drop_length_add_append, List.take_replicate,
    List.drop_replicate, Nat.min_eq_left fits, Nat.mul_succ, Nat.add_sub_cancel_left, if_neg (by simp)]

theorem chunkPayloadSize_spec (a : Addr) (nonzero : a.val ≠ List.replicate hashSize 0) (z : Nat) :
    chunkPayloadSize (refBytes (refs ++ [a]) ++ List.replicate (hashSize * z) 0) =
      some (hashSize * (refs.length + 1)) := by
  have sized : (refBytes (refs ++ [a])).length = hashSize * (refs.length + 1) := by
    rw [length_refBytes, List.length_append, List.length_singleton]
  have loop : ∀ y ≤ z, payloadSizeFrom (refBytes (refs ++ [a]) ++ List.replicate (hashSize * z) 0)
      (refs.length + 1 + y) ((refBytes (refs ++ [a])).length + hashSize * y) =
        some (hashSize * (refs.length + 1)) := by
    intro y
    induction y with
    | zero =>
      intro _
      rw [Nat.mul_zero, Nat.add_zero, Nat.add_zero, sized]
      exact payloadSizeFrom_last refs a nonzero _
    | succ y ih =>
      intro below
      rw [← Nat.add_assoc, payloadSizeFrom_zero _ below]
      exact ih (by omega)
  unfold chunkPayloadSize
  rw [List.length_append, List.length_replicate, sized, ← Nat.mul_add, Nat.mul_div_cancel_left _ (by decide),
    Nat.mul_add]
  exact sized ▸ loop z (Nat.le_refl z)

end Hoverfly.Erasure
