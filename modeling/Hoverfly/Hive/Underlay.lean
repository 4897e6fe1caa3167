import Mathlib.Tactic.Ring
import Hoverfly.Lib.Checked

/-! The underlay of a peer as hive announces it: one address, or a marked list of addresses, each after
its length. The lengths are varints of the sender; `w` is the width of `usize`. -/
namespace Hoverfly.Hive
open Lib

def underlayListPrefix : UInt8 := 0x99

def readVarintFrom (w : Nat) : List UInt8 → (value shift i : Nat) → Checked Unit (Nat × Nat)
  | [], _, _, _ => .fail ()
  | b :: rest, value, shift, i => do
    let bits ← Checked.shl w (b &&& 0x7f).toNat shift
    if b &&& 0x80 = 0 then .ok (value ||| bits, i + 1)
    else if shift + 7 ≥ 64 then .fail ()
    else readVarintFrom w rest (value ||| bits) (shift + 7) (i + 1)

def readVarint (w : Nat) (data : List UInt8) : Checked Unit (Nat × Nat) := readVarintFrom w data 0 0 0

def nextEntry (w : Nat) (data : List UInt8) (pos : Nat) : Checked Unit (List UInt8 × Nat) := do
  let suffix ← Checked.slice data pos data.length
  let (len, n) ← readVarint w suffix
  let start ← Checked.add w pos n
  let stop ← Checked.add w start len
  if stop > data.length then .fail ()
  else do
    let bytes ← Checked.slice data start stop
    .ok (bytes, stop)

section
variable {M : Type} (w : Nat) (tryFrom : List UInt8 → Option M)

/-- The loop of `deserialize_list`; `none` when the fuel runs out. `tryFrom` reads a multiaddress. -/
def deserializeFrom (data : List UInt8) : Nat → (pos : Nat) → (addrs : List M) → Option (Checked Unit (List M))
  | 0, _, _ => none
  | fuel + 1, pos, addrs =>
    if pos < data.length then
      match nextEntry w data pos with
      | .error stop => some (.error stop)
      | .ok (bytes, stop) => deserializeFrom data fuel stop (addrs ++ (tryFrom bytes).toList)
    else some (.ok addrs)

def deserializeList (fuel : Nat) (data : List UInt8) : Option (Checked Unit (List M)) :=
  deserializeFrom w tryFrom data fuel 0 []

def deserializeUnderlays (fuel : Nat) : List UInt8 → Option (Checked Unit (List M))
  | [] => some (.fail ())
  | first :: rest =>
    if first = underlayListPrefix then deserializeList w tryFrom fuel rest
    else
      match tryFrom (first :: rest) with
      | some m => some (.ok [m])
      | none => some (.fail ())

end

def varint : List UInt8 → Option (Nat × Nat)
  | [] => none
  | b :: rest =>
    if b.toNat < 128 then some (b.toNat, 1)
    else (varint rest).map fun r => (b.toNat - 128 + 128 * r.1, r.2 + 1)

def limit (w : Nat) : Nat := (w + 6) / 7

/-- After `i` bytes a varint goes on past the last byte that can be shifted, and the reader has not given up. -/
def OverlongAt (w i : Nat) (data : List UInt8) : Prop :=
  limit w < 10 ∧ limit w - i < data.length ∧ ∀ b ∈ data.take (limit w - i), 128 ≤ b.toNat

theorem toNat_low (b : UInt8) : (b &&& 0x7f).toNat = b.toNat % 128 := by
  rw [UInt8.toNat_and]
  exact Nat.and_two_pow_sub_one_eq_mod b.toNat 7

theorem high_eq_zero_iff (b : UInt8) : b &&& 0x80 = 0 ↔ b.toNat < 128 := by
  have bytes : ∀ n < 256, n &&& 128 = 0 ↔ n < 128 := by decide +kernel
  rw [← UInt8.toNat_inj, UInt8.toNat_and]
  exact bytes b.toNat b.toNat_lt

variable {w value i : Nat}

theorem or_shifted {k c : Nat} (small : value < 2 ^ k) (inside : k < w) :
    value ||| c * 2 ^ k % 2 ^ w = (value + c * 2 ^ k) % 2 ^ w := by
  have whole : 2 ^ w = 2 ^ k * 2 ^ (w - k) := by
    rw [← Nat.pow_add]
    congr 1
    omega
  have high : c * 2 ^ k % 2 ^ w = 2 ^ k * (c % 2 ^ (w - k)) := by
    rw [whole, Nat.mul_comm c, Nat.mul_mod_mul_left]
  rw [high, Nat.or_comm, ← Nat.two_pow_add_eq_or_of_lt small, whole, Nat.add_comm value, Nat.mul_comm c]
  rw [Nat.mod_mul, Nat.mul_add_mod, Nat.mod_eq_of_lt small, Nat.mul_add_div (Nat.two_pow_pos k),
    Nat.div_eq_of_lt small, Nat.add_zero, Nat.add_comm]

theorem varint_bounds {data : List UInt8} {m n : Nat} (read : varint data = some (m, n)) : 1 ≤ n ∧ n ≤ data.length := by
  induction data generalizing m n with
  | nil => exact nomatch read
  | cons b rest ih =>
    unfold varint at read
    split at read
    · cases read
      exact ⟨Nat.le_refl 1, Nat.succ_le_succ (Nat.zero_le _)⟩
    · obtain ⟨⟨k, l⟩, later, out⟩ := Option.map_eq_some_iff.mp read
      cases out
      exact ⟨Nat.succ_le_succ (Nat.zero_le _), Nat.succ_le_succ (ih later).2⟩

theorem lt_of_varint {data : List UInt8} {m n k : Nat} (read : varint data = some (m, n))
    (onward : ∀ b ∈ data.take k, 128 ≤ b.toNat) : k < n := by
  induction data generalizing m n k with
  | nil => exact nomatch read
  | cons b rest ih =>
    cases k with
    | zero => exact (varint_bounds read).1
    | succ k =>
      rw [List.take_succ_cons] at onward
      obtain ⟨first, others⟩ := List.forall_mem_cons.mp onward
      unfold varint at read
      rw [if_neg (Nat.not_lt.mpr first)] at read
      obtain ⟨⟨j, l⟩, later, out⟩ := Option.map_eq_some_iff.mp read
      cases out
      exact Nat.succ_lt_succ (ih later others)

theorem overlongAt_cons (reached : i + 1 ≤ limit w) (b : UInt8) (rest : List UInt8) :
    OverlongAt w i (b :: rest) ↔ 128 ≤ b.toNat ∧ OverlongAt w (i + 1) rest := by
  unfold OverlongAt
  obtain ⟨k, left⟩ : ∃ k, limit w - i = k + 1 := ⟨limit w - (i + 1), by omega⟩
  rw [left, show limit w - (i + 1) = k by omega, List.take_succ_cons, List.forall_mem_cons, List.length_cons,
    Nat.add_lt_add_iff_right]
  exact ⟨fun h => ⟨h.2.2.1, h.1, h.2.1, h.2.2.2⟩, fun h => ⟨h.2.1, h.2.2.1, h.1, h.2.2.2⟩⟩

theorem readVarintFrom_cons (b : UInt8) (rest : List UInt8) (below : value < 2 ^ (7 * i)) (inside : 7 * i < w) :
    readVarintFrom w (b :: rest) value (7 * i) i =
      if b.toNat < 128 then .ok ((value + b.toNat % 128 * 2 ^ (7 * i)) % 2 ^ w, i + 1)
      else if 64 ≤ 7 * (i + 1) then .fail ()
      else readVarintFrom w rest ((value + b.toNat % 128 * 2 ^ (7 * i)) % 2 ^ w) (7 * (i + 1)) (i + 1) := by
  have shifted : (Checked.shl w (b &&& 0x7f).toNat (7 * i) : Checked Unit Nat) =
      .ok (b.toNat % 128 * 2 ^ (7 * i) % 2 ^ w) := by
    rw [toNat_low]
    exact if_pos inside
  rw [readVarintFrom, shifted, ← or_shifted below inside, Nat.mul_succ]
  exact if_congr (high_eq_zero_iff b) rfl rfl

theorem readVarintFrom_outside (b : UInt8) (rest : List UInt8) (value : Nat) (outside : ¬7 * i < w) :
    readVarintFrom w (b :: rest) value (7 * i) i = .error (.panic .overflow) := by
  have leaves : (Checked.shl w (b &&& 0x7f).toNat (7 * i) : Checked Unit Nat) = .error (.panic .overflow) :=
    if_neg outside
  rw [readVarintFrom, leaves]
  rfl

theorem value_grows (below : value < 2 ^ (7 * i)) (b w : Nat) :
    (value + b % 128 * 2 ^ (7 * i)) % 2 ^ w < 2 ^ (7 * (i + 1)) := by
  have factor : 2 ^ (7 * (i + 1)) = 128 * 2 ^ (7 * i) := by
    rw [Nat.mul_succ, Nat.pow_add, Nat.mul_comm]
  have digit : b % 128 * 2 ^ (7 * i) ≤ 127 * 2 ^ (7 * i) :=
    Nat.mul_le_mul_right _ (Nat.le_of_lt_succ (Nat.mod_lt _ (by decide)))
  refine Nat.lt_of_le_of_lt (Nat.mod_le _ _) ?_
  omega

theorem readVarintFrom_cases (small : w ≤ 64) (data : List UInt8) (below : value < 2 ^ (7 * i))
    (reached : i ≤ limit w) (going : i ≤ 9) :
    (∃ m n, varint data = some (m, n) ∧ i + n ≤ limit w ∧
      readVarintFrom w data value (7 * i) i = .ok ((value + m * 2 ^ (7 * i)) % 2 ^ w, i + n)) ∨
    (OverlongAt w i data ∧ readVarintFrom w data value (7 * i) i = .error (.panic .overflow)) ∨
    ((∀ m n, varint data = some (m, n) → limit w < i + n) ∧ ¬OverlongAt w i data ∧
      readVarintFrom w data value (7 * i) i = .fail ()) := by
  have limit_eq : limit w = (w + 6) / 7 := rfl
  induction data generalizing value i with
  | nil =>
    refine .inr (.inr ⟨fun m n read => ?_, fun long => ?_, rfl⟩)
    · exact nomatch read
    · exact absurd long.2.1 (Nat.not_lt_zero _)
  | cons b rest ih =>
    by_cases inside : 7 * i < w
    · have next : i + 1 ≤ limit w := by omega
      rw [readVarintFrom_cons b rest below inside, varint, overlongAt_cons next]
      by_cases last : b.toNat < 128
      · rw [if_pos last, if_pos last, Nat.mod_eq_of_lt last]
        exact .inl ⟨b.toNat, 1, rfl, next, rfl⟩
      rw [if_neg last, if_neg last]
      by_cases full : 64 ≤ 7 * (i + 1)
      · -- the tenth byte goes on
        rw [if_pos full]
        refine .inr (.inr ⟨fun m n read => ?_, fun long => ?_, rfl⟩)
        · obtain ⟨⟨k, l⟩, later, out⟩ := Option.map_eq_some_iff.mp read
          have bounds := varint_bounds later
          cases out
          omega
        · have := long.2.1
          omega
      rw [if_neg full]
      have low : b.toNat % 128 = b.toNat - 128 := by
        have := b.toNat_lt
        omega
      rcases ih (value_grows below b.toNat w) next (by omega) with ⟨m, n, later, within, out⟩ | ⟨long, out⟩ | ⟨longer, short, out⟩
      · refine .inl ⟨b.toNat - 128 + 128 * m, n + 1, by rw [later]; rfl, by omega, ?_⟩
        have number : value + (b.toNat - 128) * 2 ^ (7 * i) + m * 2 ^ (7 * (i + 1)) =
            value + (b.toNat - 128 + 128 * m) * 2 ^ (7 * i) := by
          rw [Nat.mul_succ, Nat.pow_add]
          ring
        rw [out, Nat.mod_add_mod, low, number, Nat.add_assoc i, Nat.add_comm 1]
      · exact .inr (.inl ⟨⟨Nat.not_lt.mp last, long⟩, out⟩)
      · refine .inr (.inr ⟨fun m n read => ?_, fun long => short long.2, out⟩)
        obtain ⟨⟨k, l⟩, later, out⟩ := Option.map_eq_some_iff.mp read
        cases out
        have := longer k l later
        omega
    · have all : i = limit w := by omega
      refine .inr (.inl ⟨⟨by omega, ?_, ?_⟩, readVarintFrom_outside b rest value inside⟩)
      · rw [all, Nat.sub_self]
        exact Nat.succ_pos _
      · rw [all, Nat.sub_self, List.take_zero]
        exact fun b member => nomatch member

theorem readVarint_cases (small : w ≤ 64) (data : List UInt8) :
    (∃ m n, varint data = some (m, n) ∧ n ≤ limit w ∧ readVarint w data = .ok (m % 2 ^ w, n)) ∨
    (OverlongAt w 0 data ∧ readVarint w data = .error (.panic .overflow)) ∨
    ((∀ m n, varint data = some (m, n) → limit w < n) ∧ ¬OverlongAt w 0 data ∧ readVarint w data = .fail ()) := by
  have start := readVarintFrom_cases small data (show 0 < 2 ^ (7 * 0) by decide) (Nat.zero_le _) (Nat.zero_le _)
  simp only [Nat.mul_zero, Nat.pow_zero, Nat.mul_one, Nat.zero_add] at start
  exact start

/-- The bytes are whole entries: a length, and as many bytes as it says once it is cut to a word. -/
inductive Entries (w : Nat) : List UInt8 → List (List UInt8) → Prop where
  | nil : Entries w [] []
  | cons {data : List UInt8} {m n : Nat} {payloads : List (List UInt8)} (read : varint data = some (m, n))
      (short : n ≤ limit w) (whole : n + m % 2 ^ w ≤ data.length)
      (rest : Entries w (data.drop (n + m % 2 ^ w)) payloads) :
      Entries w data ((data.take (n + m % 2 ^ w)).drop n :: payloads)

/-- Past some whole entries, `pos` bytes into the list, a length goes on past the shifts of a word, or
added to the position it leaves the word. -/
inductive Overflows (w : Nat) : (pos : Nat) → List UInt8 → Prop where
  | shift {pos : Nat} {data : List UInt8} (long : OverlongAt w 0 data) : Overflows w pos data
  | sum {pos : Nat} {data : List UInt8} {m n : Nat} (read : varint data = some (m, n)) (short : n ≤ limit w)
      (large : 2 ^ w ≤ pos + n + m % 2 ^ w) : Overflows w pos data
  | later {pos : Nat} {data : List UInt8} {m n : Nat} (read : varint data = some (m, n)) (short : n ≤ limit w)
      (whole : n + m % 2 ^ w ≤ data.length)
      (rest : Overflows w (pos + (n + m % 2 ^ w)) (data.drop (n + m % 2 ^ w))) : Overflows w pos data

section
variable {w : Nat} {data : List UInt8} {pos : Nat}

theorem slice_suffix (inside : pos ≤ data.length) :
    (Checked.slice data pos data.length : Checked Unit (List UInt8)) = .ok (data.drop pos) := by
  rw [Checked.slice_ok inside (Nat.le_refl _), List.take_length]

theorem nextEntry_of_error (inside : pos ≤ data.length) {stop : Stop Unit}
    (read : readVarint w (data.drop pos) = .error stop) : nextEntry w data pos = .error stop := by
  unfold nextEntry
  rw [slice_suffix inside]
  change (readVarint w (data.drop pos) >>= _) = _
  rw [read]
  rfl

theorem nextEntry_of_ok (room : data.length < 2 ^ w) {len n : Nat} (inside : pos + n ≤ data.length)
    (read : readVarint w (data.drop pos) = .ok (len, n)) :
    nextEntry w data pos =
      if pos + n + len < 2 ^ w then
        if pos + n + len > data.length then .fail ()
        else .ok (((data.drop pos).take (n + len)).drop n, pos + (n + len))
      else .error (.panic .overflow) := by
  unfold nextEntry
  rw [slice_suffix (Nat.le_trans (Nat.le_add_right pos n) inside)]
  change (readVarint w (data.drop pos) >>= _) = _
  rw [read]
  have start : (Checked.add w pos n : Checked Unit Nat) = .ok (pos + n) :=
    Checked.add_ok (Nat.lt_of_le_of_lt inside room)
  change (Checked.add w pos n >>= _) = _
  rw [start]
  change (Checked.add w (pos + n) len >>= _) = _
  by_cases fits : pos + n + len < 2 ^ w
  · have stop : (Checked.add w (pos + n) len : Checked Unit Nat) = .ok (pos + n + len) := Checked.add_ok fits
    rw [stop, if_pos fits]
    change (if pos + n + len > data.length then _ else Checked.slice data (pos + n) (pos + n + len) >>= _) = _
    by_cases outside : pos + n + len > data.length
    · rw [if_pos outside, if_pos outside]
    · have bytes : (data.take (pos + n + len)).drop (pos + n) = ((data.drop pos).take (n + len)).drop n := by
        rw [List.drop_take, List.drop_take, List.drop_drop, Nat.add_sub_cancel_left, Nat.add_sub_cancel_left]
      have sliced : (Checked.slice data (pos + n) (pos + n + len) : Checked Unit (List UInt8)) =
          .ok (((data.drop pos).take (n + len)).drop n) := by
        rw [Checked.slice_ok (Nat.le_add_right _ _) (Nat.not_lt.mp outside), bytes]
      rw [if_neg outside, if_neg outside, sliced, Nat.add_assoc]
      rfl
  · have stop : (Checked.add w (pos + n) len : Checked Unit Nat) = .error (.panic .overflow) := if_neg fits
    rw [stop, if_neg fits]
    rfl

theorem nextEntry_cases (small : w ≤ 64) (room : data.length < 2 ^ w) (inside : pos ≤ data.length) :
    (∃ m n, varint (data.drop pos) = some (m, n) ∧ n ≤ limit w ∧ n + m % 2 ^ w ≤ (data.drop pos).length ∧
      nextEntry w data pos = .ok (((data.drop pos).take (n + m % 2 ^ w)).drop n, pos + (n + m % 2 ^ w))) ∨
    ((OverlongAt w 0 (data.drop pos) ∨
        ∃ m n, varint (data.drop pos) = some (m, n) ∧ n ≤ limit w ∧ 2 ^ w ≤ pos + n + m % 2 ^ w) ∧
      nextEntry w data pos = .error (.panic .overflow)) ∨
    (¬OverlongAt w 0 (data.drop pos) ∧
      (∀ m n, varint (data.drop pos) = some (m, n) → n ≤ limit w →
        pos + n + m % 2 ^ w < 2 ^ w ∧ (data.drop pos).length < n + m % 2 ^ w) ∧
      nextEntry w data pos = .fail ()) := by
  have left : (data.drop pos).length = data.length - pos := List.length_drop
  rcases readVarint_cases small (data.drop pos) with ⟨m, n, read, short, out⟩ | ⟨long, out⟩ | ⟨longer, whole, out⟩
  · have bounds := varint_bounds read
    rw [nextEntry_of_ok room (by omega) out]
    by_cases fits : pos + n + m % 2 ^ w < 2 ^ w
    · rw [if_pos fits]
      by_cases outside : pos + n + m % 2 ^ w > data.length
      · rw [if_pos outside]
        refine .inr (.inr ⟨fun long => ?_, fun k l again _ => ?_, rfl⟩)
        · have := lt_of_varint read long.2.2
          omega
        · cases read.symm.trans again
          omega
      · rw [if_neg outside]
        exact .inl ⟨m, n, read, short, by omega, rfl⟩
    · rw [if_neg fits]
      exact .inr (.inl ⟨.inr ⟨m, n, read, short, Nat.not_lt.mp fits⟩, rfl⟩)
  · exact .inr (.inl ⟨.inl long, nextEntry_of_error inside out⟩)
  · refine .inr (.inr ⟨whole, fun m n read short => ?_, nextEntry_of_error inside out⟩)
    exact absurd (longer m n read) (Nat.not_lt.mpr short)

theorem overflows_iff_of_whole {m n : Nat} (read : varint data = some (m, n)) (short : n ≤ limit w)
    (whole : n + m % 2 ^ w ≤ data.length) (fits : pos + n + m % 2 ^ w < 2 ^ w) :
    Overflows w pos data ↔ Overflows w (pos + (n + m % 2 ^ w)) (data.drop (n + m % 2 ^ w)) := by
  constructor
  · intro overflows
    cases overflows with
    | shift long => exact absurd (lt_of_varint read long.2.2) (Nat.not_lt.mpr short)
    | sum again _ large =>
      cases read.symm.trans again
      exact absurd fits (Nat.not_lt.mpr large)
    | later again _ _ rest =>
      cases read.symm.trans again
      exact rest
  · exact .later read short whole

theorem entries_iff_of_whole {m n : Nat} (read : varint data = some (m, n)) (short : n ≤ limit w)
    (whole : n + m % 2 ^ w ≤ data.length) (ps : List (List UInt8)) :
    Entries w data ps ↔ ∃ qs, Entries w (data.drop (n + m % 2 ^ w)) qs ∧
      ps = (data.take (n + m % 2 ^ w)).drop n :: qs := by
  constructor
  · intro entries
    cases entries with
    | nil => exact nomatch read
    | cons again _ _ rest =>
      cases read.symm.trans again
      exact ⟨_, rest, rfl⟩
  · rintro ⟨qs, rest, rfl⟩
    exact .cons read short whole rest

theorem Entries.head {ps : List (List UInt8)} (entries : Entries w data ps) (some_ : data ≠ []) :
    ∃ m n, varint data = some (m, n) ∧ n ≤ limit w ∧ n + m % 2 ^ w ≤ data.length := by
  cases entries with
  | nil => exact absurd rfl some_
  | cons read short whole _ => exact ⟨_, _, read, short, whole⟩

theorem Entries.not_large {ps : List (List UInt8)} (entries : Entries w data ps) (some_ : data ≠ [])
    (room : pos + data.length < 2 ^ w) :
    ¬(OverlongAt w 0 data ∨ ∃ m n, varint data = some (m, n) ∧ n ≤ limit w ∧ 2 ^ w ≤ pos + n + m % 2 ^ w) := by
  obtain ⟨m, n, read, short, whole⟩ := entries.head some_
  rintro (long | ⟨k, l, again, _, large⟩)
  · exact absurd (lt_of_varint read long.2.2) (Nat.not_lt.mpr short)
  · cases read.symm.trans again
    omega

theorem not_overflows_of_cut (fine : ¬OverlongAt w 0 data)
    (cut : ∀ m n, varint data = some (m, n) → n ≤ limit w →
      pos + n + m % 2 ^ w < 2 ^ w ∧ data.length < n + m % 2 ^ w) : ¬Overflows w pos data := by
  intro overflows
  cases overflows with
  | shift long => exact fine long
  | sum read short large => exact absurd (cut _ _ read short).1 (Nat.not_lt.mpr large)
  | later read short whole _ => exact absurd (cut _ _ read short).2 (Nat.not_lt.mpr whole)

theorem not_overflows_nil : ¬Overflows w pos [] := by
  intro overflows
  cases overflows with
  | shift long => exact absurd long.2.1 (Nat.not_lt_zero _)
  | sum read => exact nomatch read
  | later read => exact nomatch read

theorem deserializeFrom_spec {M : Type} (tryFrom : List UInt8 → Option M) (small : w ≤ 64) (room : data.length < 2 ^ w)
    {fuel : Nat} (inside : pos ≤ data.length) (enough : data.length - pos < fuel) (addrs : List M) :
    ∃ r, deserializeFrom w tryFrom data fuel pos addrs = some r ∧
      ((∃ p, r = .error (.panic p)) ↔ Overflows w pos (data.drop pos)) ∧
      ∀ out, r = .ok out ↔ ∃ ps, Entries w (data.drop pos) ps ∧ out = addrs ++ ps.filterMap tryFrom := by
  induction fuel generalizing pos addrs with
  | zero => exact absurd enough (Nat.not_lt_zero _)
  | succ fuel ih =>
    have left : (data.drop pos).length = data.length - pos := List.length_drop
    unfold deserializeFrom
    by_cases more : pos < data.length
    · rw [if_pos more]
      have some_ : data.drop pos ≠ [] := List.ne_nil_of_length_pos (by omega)
      rcases nextEntry_cases small room inside with ⟨m, n, read, short, whole, out⟩ | ⟨large, out⟩ | ⟨fine, cut, out⟩
      · have bounds := varint_bounds read
        have stop : pos + (n + m % 2 ^ w) ≤ data.length := by omega
        obtain ⟨r, looped, panics, returns⟩ := ih stop (by omega)
          (addrs ++ (tryFrom (((data.drop pos).take (n + m % 2 ^ w)).drop n)).toList)
        rw [out]
        refine ⟨r, looped, ?_, fun final => ?_⟩
        · rw [panics, overflows_iff_of_whole read short whole (by omega), List.drop_drop]
        · have joined : ∀ p (qs : List (List UInt8)),
              addrs ++ (tryFrom p).toList ++ qs.filterMap tryFrom = addrs ++ (p :: qs).filterMap tryFrom := by
            intro p qs
            rw [List.append_assoc, List.filterMap_cons]
            cases tryFrom p <;> rfl
          simp only [returns, entries_iff_of_whole read short whole, List.drop_drop, joined]
          constructor
          · rintro ⟨qs, entries, rfl⟩
            exact ⟨_, ⟨qs, entries, rfl⟩, rfl⟩
          · rintro ⟨_, ⟨qs, entries, rfl⟩, rfl⟩
            exact ⟨qs, entries, rfl⟩
      · rw [out]
        refine ⟨_, rfl, iff_of_true ⟨_, rfl⟩ ?_, fun final => iff_of_false (fun h => nomatch h) ?_⟩
        · rcases large with long | ⟨m, n, read, short, large⟩
          · exact .shift long
          · exact .sum read short large
        · rintro ⟨ps, entries, -⟩
          exact entries.not_large some_ (by omega) large
      · rw [out]
        refine ⟨_, rfl, iff_of_false (fun ⟨p, h⟩ => nomatch h) (not_overflows_of_cut fine cut), fun final => ?_⟩
        refine iff_of_false (fun h => nomatch h) ?_
        rintro ⟨ps, entries, -⟩
        obtain ⟨m, n, read, short, whole⟩ := entries.head some_
        exact absurd (cut m n read short).2 (Nat.not_lt.mpr whole)
    · rw [if_neg more, List.drop_eq_nil_of_le (Nat.not_lt.mp more)]
      refine ⟨_, rfl, iff_of_false (fun ⟨p, h⟩ => nomatch h) not_overflows_nil, fun final => ?_⟩
      constructor
      · rintro ⟨⟩
        exact ⟨[], .nil, (List.append_nil _).symm⟩
      · rintro ⟨ps, entries, rfl⟩
        cases entries with
        | nil => rw [List.filterMap_nil, List.append_nil]
        | cons read => exact nomatch read

end

/-- Reading an underlay returns on every input but a list in which a length overflows; a list is read to its end
exactly when it is returned. -/
theorem deserializeUnderlays_total_iff {M : Type} (tryFrom : List UInt8 → Option M) {w : Nat} (word : w = 32 ∨ w = 64)
    {data : List UInt8} (isize : data.length < 2 ^ (w - 1)) {fuel : Nat} (enough : data.length < fuel) :
    ((∃ r, deserializeUnderlays w tryFrom fuel data = some r ∧ ∀ p, r ≠ .error (.panic p)) ∧
      ∀ out, deserializeList w tryFrom fuel data = some (.ok out) ↔ ∃ ps, Entries w data ps ∧ out = ps.filterMap tryFrom) ↔
    ∀ list, data = underlayListPrefix :: list → ¬Overflows w 0 list := by
  have small : w ≤ 64 := by omega
  have room : data.length < 2 ^ w := by
    rcases word with rfl | rfl <;> omega
  have consumed : ∀ out, deserializeList w tryFrom fuel data = some (.ok out) ↔
      ∃ ps, Entries w data ps ∧ out = ps.filterMap tryFrom := by
    obtain ⟨r, looped, -, returns⟩ := deserializeFrom_spec tryFrom small room (Nat.zero_le _) enough []
    intro out
    rw [deserializeList, looped]
    exact Option.some_inj.trans (returns out)
  rw [and_iff_left consumed]
  match data with
  | [] =>
    refine iff_of_true ⟨_, rfl, fun p h => nomatch h⟩ fun list h => ?_
    exact nomatch h
  | first :: rest =>
    rw [deserializeUnderlays]
    by_cases listed : first = underlayListPrefix
    · rw [if_pos listed]
      subst listed
      rw [List.length_cons] at room enough
      obtain ⟨r, looped, panics, -⟩ :=
        deserializeFrom_spec tryFrom small (Nat.lt_of_succ_lt room) (Nat.zero_le _) (Nat.lt_of_succ_lt enough) []
      rw [deserializeList, looped]
      constructor
      · rintro ⟨_, ⟨⟩, returns⟩ _ ⟨⟩ overflows
        obtain ⟨p, panicked⟩ := panics.mpr overflows
        exact returns p panicked
      · intro fine
        exact ⟨r, rfl, fun p panicked => fine rest rfl (panics.mp ⟨p, panicked⟩)⟩
    · rw [if_neg listed]
      refine iff_of_true ?_ fun list h => absurd (List.cons.inj h).1 listed
      cases tryFrom (first :: rest) with
      | some m => exact ⟨_, rfl, fun p h => nomatch h⟩
      | none => exact ⟨_, rfl, fun p h => nomatch h⟩

theorem deserializeUnderlays_maxLength :
    deserializeUnderlays 64 (fun bytes => some bytes) 13
        (0x99 :: [0xff, 0xff, 0xff, 0xff, 0xff, 0xff, 0xff, 0xff, 0xff, 0x01]) = some (.error (.panic .overflow)) ∧
      deserializeUnderlays 32 (fun bytes => some bytes) 13
        (0x99 :: [0x80, 0x80, 0x80, 0x80, 0x80, 0x00]) = some (.error (.panic .overflow)) := by
  decide +kernel

theorem deserializeUnderlays_total_pair :
    ((∃ r, deserializeUnderlays 64 (fun bytes => some bytes) 7 [0x99, 2, 4, 5, 1, 6] = some r ∧
        ∀ p, r ≠ .error (.panic p)) ∧
      ∀ out, deserializeList 64 (fun bytes => some bytes) 7 [0x99, 2, 4, 5, 1, 6] = some (.ok out) ↔
        ∃ ps, Entries 64 [0x99, 2, 4, 5, 1, 6] ps ∧ out = ps.filterMap fun bytes => some bytes) := by
  refine (deserializeUnderlays_total_iff _ (.inr rfl) (by decide +kernel) (by decide)).mpr fun list listed => ?_
  obtain rfl := (List.cons.inj listed).2
  have second : ¬Overflows 64 3 [1, 6] :=
    (overflows_iff_of_whole (m := 1) (n := 1) rfl (by decide) (by decide) (by decide)).not.mpr not_overflows_nil
  exact (overflows_iff_of_whole (m := 2) (n := 1) rfl (by decide) (by decide) (by decide)).not.mpr second

end Hoverfly.Hive
