import Mathlib.LinearAlgebra.Vandermonde
import Mathlib.Data.List.ReduceOption
import Hoverfly.Erasure.Galois
import Hoverfly.Lib.Elimination

/-! The systematic Reed–Solomon code: a Vandermonde matrix whose top square has been
reduced to the identity. Any `dataShards` of the shards determine the data. -/
namespace Hoverfly.Erasure
open Lib Elimination

structure Mat where
  rows : Nat
  cols : Nat
  data : Grid Gf

namespace Mat

def ofFn (rows cols : Nat) (f : Nat → Nat → Gf) : Mat :=
  { rows, cols, data := (List.range rows).map fun r => (List.range cols).map (f r) }

def identity (size : Nat) : Mat := ofFn size size fun i j => if i = j then 1 else 0

def vandermonde (rows cols : Nat) : Mat := ofFn rows cols fun r c => ⟨galExp (UInt8.ofNat r) c⟩

def subMatrix (m : Mat) (rmin cmin rmax cmax : Nat) : Mat :=
  ofFn (rmax - rmin) (cmax - cmin) fun r c => entry m.data (rmin + r) (cmin + c)

def augment (m right : Mat) : Mat :=
  ofFn m.rows (m.cols + right.cols) fun r c =>
    if c < m.cols then entry m.data r c else entry right.data r (c - m.cols)

def multiply (m right : Mat) : Mat :=
  ofFn m.rows right.cols fun r c =>
    (List.range m.cols).foldl (fun acc i => acc + entry m.data r i * entry right.data i c) 0

def invert (m : Mat) : Option Mat :=
  if m.rows ≠ m.cols then none
  else
    (eliminate (m.augment (identity m.rows)).data).map fun data =>
      subMatrix { rows := m.rows, cols := 2 * m.rows, data } 0 m.rows m.rows (2 * m.rows)

def build (dataShards totalShards : Nat) : Option Mat :=
  let vm := vandermonde totalShards dataShards
  ((vm.subMatrix 0 0 dataShards dataShards).invert).map vm.multiply

variable {rows cols r c n k total : Nat}

theorem entry_ofFn (f : Nat → Nat → Gf) (hr : r < rows) (hc : c < cols) :
    entry (ofFn rows cols f).data r c = f r c := by
  simp [entry, ofFn, List.getD_eq_getElem?_getD, hr, hc]

theorem shaped_ofFn (rows cols : Nat) (f : Nat → Nat → Gf) : Shaped rows cols (ofFn rows cols f).data := by
  refine ⟨by simp [ofFn], fun i hi => ?_⟩
  simp [ofFn, List.getD_eq_getElem?_getD, hi]

theorem foldl_add (f : Nat → Gf) (n : Nat) :
    (List.range n).foldl (fun acc i => acc + f i) 0 = ∑ i : Fin n, f i := by
  induction n with
  | zero => simp
  | succ n ih =>
    rw [List.range_succ, List.foldl_append, ih, Fin.sum_univ_castSucc]
    simp

def square (n : Nat) (m : Mat) : Matrix (Fin n) (Fin n) Gf := left n m.data

theorem tracks_augment (m : Mat) (rows : m.rows = n) (cols : m.cols = n) :
    Tracks (square n m) (m.augment (identity n)).data := by
  have width : n + n = 2 * n := by omega
  have onLeft : left n (m.augment (identity n)).data = square n m := by
    ext i j
    unfold left augment
    rw [entry_ofFn _ (by omega) (by have := j.isLt; simp only [identity, ofFn]; omega), if_pos (by omega)]
    rfl
  have onRight : right n (m.augment (identity n)).data = 1 := by
    ext i j
    unfold right augment
    rw [entry_ofFn _ (by omega) (by have := j.isLt; simp only [identity, ofFn]; omega), if_neg (by omega),
      cols, Nat.add_sub_cancel_left, identity, entry_ofFn _ i.isLt j.isLt, Matrix.one_apply]
    simp only [Fin.ext_iff]
  refine ⟨?_, ?_, ?_⟩
  · have shaped := shaped_ofFn m.rows (m.cols + (identity n).cols) fun r c =>
      if c < m.cols then entry m.data r c else entry (identity n).data r (c - m.cols)
    rw [rows, cols, show (identity n).cols = n from rfl, width] at shaped
    unfold augment
    rw [rows, cols, show (identity n).cols = n from rfl, width]
    exact shaped
  · rw [onLeft, onRight, one_mul]
  · rw [onRight, Matrix.det_one]
    exact one_ne_zero

theorem invert_spec (m : Mat) (rows : m.rows = n) (cols : m.cols = n) :
    (m.invert = none → (square n m).det = 0) ∧
      ∀ k, m.invert = some k → k.rows = n ∧ k.cols = n ∧ Shaped n n k.data ∧ square n k * square n m = 1 := by
  obtain ⟨stuck, next⟩ := eliminate_spec (tracks_augment m rows cols)
  unfold invert
  rw [if_neg (not_not.mpr (rows.trans cols.symm)), rows]
  constructor
  · exact fun none_ => stuck (Option.map_eq_none_iff.mp none_)
  · intro k out
    obtain ⟨data, eliminated, rfl⟩ := Option.map_eq_some_iff.mp out
    obtain ⟨_, inverse⟩ := next data eliminated
    have width : 2 * n - n = n := by omega
    have shaped : Shaped n n (subMatrix { rows := n, cols := 2 * n, data } 0 n n (2 * n)).data := by
      have plain := shaped_ofFn (n - 0) (2 * n - n) fun r c => entry data (0 + r) (n + c)
      unfold subMatrix
      rw [width] at plain ⊢
      exact plain
    refine ⟨rfl, width, shaped, ?_⟩
    have same : square n (subMatrix { rows := n, cols := 2 * n, data } 0 n n (2 * n)) = right n data := by
      ext i j
      unfold square left subMatrix
      rw [entry_ofFn _ (by omega) (by omega), Nat.zero_add]
      rfl
    rw [same, inverse]

theorem entry_multiply (m right : Mat) (hr : r < m.rows) (hc : c < right.cols) :
    entry (m.multiply right).data r c = ∑ i : Fin m.cols, entry m.data r i * entry right.data i c := by
  unfold multiply
  rw [entry_ofFn _ hr hc, foldl_add]

theorem ofFn_congr {f g : Nat → Nat → Gf} (same : ∀ r < rows, ∀ c < cols, f r c = g r c) :
    ofFn rows cols f = ofFn rows cols g := by
  have inside : ∀ r ∈ List.range rows, (List.range cols).map (f r) = (List.range cols).map (g r) := fun r row =>
    List.map_congr_left fun c col => same r (List.mem_range.mp row) c (List.mem_range.mp col)
  unfold ofFn
  rw [List.map_congr_left inside]

theorem multiply_eq_identity {a b : Mat} (rows : a.rows = n) (inner : a.cols = n) (cols : b.cols = n)
    (inverse : square n a * square n b = 1) : a.multiply b = identity n := by
  unfold multiply identity
  rw [rows, inner, cols]
  refine ofFn_congr fun r row c col => ?_
  have here := congrFun (congrFun inverse ⟨r, row⟩) ⟨c, col⟩
  rw [Matrix.mul_apply, Matrix.one_apply] at here
  simp only [Fin.mk.injEq] at here
  rw [foldl_add]
  exact here

theorem invert_correct (m : Mat) (even : m.rows = m.cols) :
    (IsUnit (square m.rows m) → ∃ k, m.invert = some k ∧ Shaped m.rows m.rows k.data ∧
      m.multiply k = identity m.rows ∧ k.multiply m = identity m.rows) ∧
    (m.invert = none ↔ (square m.rows m).det = 0) := by
  obtain ⟨stuck, next⟩ := invert_spec m rfl even.symm
  have regular : ∀ k, m.invert = some k → (square m.rows m).det ≠ 0 := by
    intro k found
    have inverse := (next k found).2.2.2
    exact ((Matrix.isUnit_iff_isUnit_det _).mp (IsUnit.of_mul_eq_one_right _ inverse)).ne_zero
  refine ⟨fun unit => ?_, stuck, fun singular => ?_⟩
  · cases found : m.invert with
    | none =>
      have nonzero := ((Matrix.isUnit_iff_isUnit_det _).mp unit).ne_zero
      exact absurd (stuck found) nonzero
    | some k =>
      obtain ⟨rows, cols, shaped, inverse⟩ := next k found
      exact ⟨k, rfl, shaped, multiply_eq_identity rfl even.symm cols (mul_eq_one_comm.mp inverse),
        multiply_eq_identity rows cols even.symm inverse⟩
  · cases found : m.invert with
    | none => rfl
    | some k => exact absurd singular (regular k found)

theorem invert_correct_swap :
    let swap := ofFn 2 2 fun i j => if i + j = 1 then 1 else 0
    swap.rows = swap.cols ∧ swap.invert ≠ none := by
  refine ⟨rfl, fun stuck => ?_⟩
  have singular : (square 2 (ofFn 2 2 fun i j => if i + j = 1 then 1 else 0)).det = 0 :=
    (invert_correct (ofFn 2 2 fun i j => if i + j = 1 then 1 else 0) rfl).2.mp stuck
  rw [Matrix.det_fin_two] at singular
  simp [square, left, entry_ofFn] at singular

theorem entry_vandermonde (hr : r < rows) (hc : c < cols) :
    entry (vandermonde rows cols).data r c = (⟨UInt8.ofNat r⟩ : Gf) ^ c := by
  unfold vandermonde
  rw [entry_ofFn _ hr hc]
  exact Gf.ext (Gf.galExp_eq_pow _ _)

theorem node_injective {i j : Nat} (hi : i < 256) (hj : j < 256)
    (same : (⟨UInt8.ofNat i⟩ : Gf) = ⟨UInt8.ofNat j⟩) : i = j := by
  have bytes := congrArg UInt8.toNat (congrArg Gf.byte same)
  simp only [UInt8.toNat_ofNat'] at bytes
  omega

theorem det_vandermonde_rows (fits : rows ≤ 256) (v : Fin n → Nat) (distinct : Function.Injective v)
    (range : ∀ i, v i < rows) :
    (Matrix.of fun i j : Fin n => entry (vandermonde rows n).data (v i) j).det ≠ 0 := by
  have same : (Matrix.of fun i j : Fin n => entry (vandermonde rows n).data (v i) j) =
      Matrix.vandermonde fun i => (⟨UInt8.ofNat (v i)⟩ : Gf) := by
    ext i j
    exact entry_vandermonde (range i) j.isLt
  rw [same, Matrix.det_vandermonde_ne_zero_iff]
  intro i j nodes
  exact distinct (node_injective ((range i).trans_le fits) ((range j).trans_le fits) nodes)

/-- A matrix that passes the data through, and of which any `k` rows are independent. -/
structure Systematic (total k : Nat) (m : Mat) : Prop where
  shaped : Shaped total k m.data
  top : ∀ i j, i < k → j < k → entry m.data i j = if i = j then 1 else 0
  regular : ∀ v : Fin k → Nat, Function.Injective v → (∀ i, v i < total) →
    (Matrix.of fun i j : Fin k => entry m.data (v i) j).det ≠ 0

/-- The built matrix is the Vandermonde matrix times the inverse of its top square. -/
theorem build_eq (le : k ≤ total) (fits : total ≤ 256) :
    ∃ inv, build k total = some ((vandermonde total k).multiply inv) ∧ inv.cols = k ∧
      (Matrix.of fun i j : Fin k => entry (vandermonde total k).data i j) * square k inv = 1 := by
  let top := (vandermonde total k).subMatrix 0 0 k k
  have rows : top.rows = k := by simp [top, subMatrix, ofFn]
  have width : top.cols = k := by simp [top, subMatrix, ofFn]
  obtain ⟨stuck, next⟩ := invert_spec top rows width
  have same : square k top = Matrix.of fun i j : Fin k => entry (vandermonde total k).data i j := by
    ext i j
    unfold square left
    simp only [top, subMatrix]
    rw [entry_ofFn _ (by omega) (by omega), Nat.zero_add, Nat.zero_add]
    rfl
  have regular : (square k top).det ≠ 0 :=
    same ▸ det_vandermonde_rows fits (fun i : Fin k => i.val) Fin.val_injective fun i => i.isLt.trans_le le
  cases inverted : top.invert with
  | none => exact absurd (stuck inverted) regular
  | some inv =>
    obtain ⟨_, cols, _, inverse⟩ := next inv inverted
    refine ⟨inv, by simp only [build]; rw [inverted]; rfl, cols, ?_⟩
    rw [← same]
    exact mul_eq_one_comm.mp inverse

theorem entry_multiply_vandermonde {inv : Mat} (cols : inv.cols = k) (hr : r < total)
    (j : Fin k) : entry ((vandermonde total k).multiply inv).data r j =
      ∑ i : Fin k, entry (vandermonde total k).data r i * square k inv i j :=
  entry_multiply (vandermonde total k) inv hr (cols ▸ j.isLt)

theorem build_spec (le : k ≤ total) (fits : total ≤ 256) :
    ∃ m, build k total = some m ∧ Systematic total k m := by
  obtain ⟨inv, built, cols, inverse⟩ := build_eq le fits
  have product := fun r (hr : r < total) => entry_multiply_vandermonde cols hr
  refine ⟨_, built, cols ▸ shaped_ofFn .., ?_, ?_⟩
  · intro i j hi hj
    have unit := congrFun (congrFun inverse ⟨i, hi⟩) ⟨j, hj⟩
    rw [product i (hi.trans_le le) ⟨j, hj⟩]
    simp only [Matrix.mul_apply, Matrix.of_apply, Matrix.one_apply, Fin.mk.injEq] at unit
    exact unit
  · intro v distinct range
    have factored : (Matrix.of fun i j : Fin k => entry ((vandermonde total k).multiply inv).data (v i) j) =
        (Matrix.of fun i j : Fin k => entry (vandermonde total k).data (v i) j) * square k inv := by
      ext i j
      exact product (v i) (range i) j
    rw [factored, Matrix.det_mul]
    refine mul_ne_zero (det_vandermonde_rows fits v distinct range) fun zero => ?_
    have one := congrArg Matrix.det inverse
    rw [Matrix.det_mul, zero, mul_zero, Matrix.det_one] at one
    exact zero_ne_one one

theorem build_sum (pos : 0 < k) (le : k ≤ total) (fits : total ≤ 256) {m : Mat}
    (built : build k total = some m) (hr : r < total) : ∑ j : Fin k, entry m.data r j = 1 := by
  obtain ⟨inv, same, cols, inverse⟩ := build_eq le fits
  rw [built] at same
  cases same
  have column : ∀ i < total, entry (vandermonde total k).data i 0 = 1 := by
    intro i hi
    rw [entry_vandermonde hi pos, pow_zero]
  have rows : ∀ i : Fin k, ∑ j, square k inv i j = if i = ⟨0, pos⟩ then 1 else 0 := by
    intro i
    have other : square k inv * (Matrix.of fun i j : Fin k => entry (vandermonde total k).data i j) = 1 :=
      mul_eq_one_comm.mp inverse
    have first := congrFun (congrFun other i) ⟨0, pos⟩
    rw [Matrix.mul_apply, Matrix.one_apply] at first
    rw [← first]
    refine Finset.sum_congr rfl fun j _ => ?_
    rw [Matrix.of_apply, column j (j.isLt.trans_le le), mul_one]
  calc ∑ j : Fin k, entry ((vandermonde total k).multiply inv).data r j
      = ∑ j, ∑ i : Fin k, entry (vandermonde total k).data r i * square k inv i j :=
        Finset.sum_congr rfl fun j _ => entry_multiply_vandermonde cols hr j
    _ = ∑ i : Fin k, entry (vandermonde total k).data r i * ∑ j, square k inv i j := by
        rw [Finset.sum_comm]
        exact Finset.sum_congr rfl fun i _ => (Finset.mul_sum ..).symm
    _ = entry (vandermonde total k).data r 0 := by simp [rows]
    _ = 1 := column r hr

theorem identity_systematic (k : Nat) : Systematic k k (identity k) := by
  refine ⟨shaped_ofFn .., fun i j hi hj => entry_ofFn _ hi hj, fun v distinct range => ?_⟩
  let σ : Equiv.Perm (Fin k) := Equiv.ofBijective (fun i => ⟨v i, range i⟩)
    (Finite.injective_iff_bijective.mp fun i j same => distinct (congrArg Fin.val same))
  have chosen : (Matrix.of fun i j : Fin k => entry (identity k).data (v i) j) =
      (1 : Matrix (Fin k) (Fin k) Gf).submatrix σ id := by
    ext i j
    rw [Matrix.of_apply, identity, entry_ofFn _ (range i) j.isLt, Matrix.submatrix_apply, Matrix.one_apply]
    simp only [Fin.ext_iff]
    rfl
  rw [chosen, Matrix.det_permute, Matrix.det_one, mul_one]
  rcases Int.units_eq_one_or (Equiv.Perm.sign σ) with sign | sign
  · simp [sign]
  · simp [sign]

end Mat

inductive RsError where
  | invalidShardNumber
  | tooFewShards (need available : Nat)
  | shardSizeMismatch
  | singular
deriving DecidableEq, Repr

def RsError.message : RsError → String
  | .invalidShardNumber => "reed-solomon: invalid shard/parity count"
  | .tooFewShards need available =>
    s!"reed-solomon: too few shards to reconstruct (need {need}, have {available})"
  | .shardSizeMismatch => "reed-solomon: shards have inconsistent sizes"
  | .singular => "reed-solomon: decode matrix is singular"

structure ReedSolomon where
  dataShards : Nat
  parityShards : Nat
  totalShards : Nat
  matrix : Mat

def addScaled (out : List UInt8) (e : Gf × List UInt8) : List UInt8 :=
  if e.1 = 0 then out else List.zipWith (fun o b => o ^^^ galMul e.1.byte b) out e.2

def combine (coeffs : List Gf) (shards : List (List UInt8)) (size : Nat) : List UInt8 :=
  (coeffs.zip shards).foldl addScaled (List.replicate size 0)

def present : List (Option (List UInt8)) → Nat → List (List UInt8 × Nat)
  | [], _ => []
  | none :: rest, i => present rest (i + 1)
  | some s :: rest, i => (s, i) :: present rest (i + 1)

namespace ReedSolomon

def new (dataShards parityShards : Nat) : Except RsError ReedSolomon :=
  let totalShards := dataShards + parityShards
  if dataShards = 0 ∨ totalShards > 256 then .error .invalidShardNumber
  else
    match if parityShards = 0 then some (Mat.identity dataShards) else Mat.build dataShards totalShards with
    | none => .error .singular
    | some matrix => .ok { dataShards, parityShards, totalShards, matrix }

def row (rs : ReedSolomon) (i : Nat) : List Gf := rs.matrix.data.getD i []

def reconstructData (rs : ReedSolomon) (shards : List (Option (List UInt8))) :
    Except RsError (List (Option (List UInt8))) :=
  if shards.length ≠ rs.totalShards then .error .invalidShardNumber
  else
    match shards.reduceOption with
    | [] => .error (.tooFewShards rs.dataShards 0)
    | first :: rest =>
      if rest.any (·.length ≠ first.length) then .error .shardSizeMismatch
      else if (shards.take rs.dataShards).all Option.isSome then .ok shards
      else if shards.countP Option.isSome < rs.dataShards then
        .error (.tooFewShards rs.dataShards (shards.countP Option.isSome))
      else
        let valid := (present shards 0).take rs.dataShards
        let sub := Mat.ofFn rs.dataShards rs.dataShards fun r c =>
          entry rs.matrix.data (valid.getD r ([], 0)).2 c
        match sub.invert with
        | none => .error .singular
        | some decode =>
          .ok (shards.mapIdx fun i shard =>
            if i < rs.dataShards ∧ shard.isNone then
              some (combine (decode.data.getD i []) (valid.map (·.1)) first.length)
            else shard)

def encode (rs : ReedSolomon) (shards : List (List UInt8)) : Except RsError (List (List UInt8)) :=
  if shards.length ≠ rs.totalShards then .error .invalidShardNumber
  else
    let size := (shards.getD 0 []).length
    if shards.any (·.length ≠ size) then .error .shardSizeMismatch
    else
      let data := shards.take rs.dataShards
      .ok (data ++ (List.range rs.parityShards).map fun p => combine (rs.row (rs.dataShards + p)) data size)

end ReedSolomon

variable {size : Nat}

theorem length_addScaled {out : List UInt8} {e : Gf × List UInt8} (length : out.length = size)
    (sized : e.2.length = size) : (addScaled out e).length = size := by
  unfold addScaled
  split
  · exact length
  · rw [List.length_zipWith, length, sized, Nat.min_self]

theorem addScaled_byte {out : List UInt8} {e : Gf × List UInt8} (length : out.length = size)
    (sized : e.2.length = size) (j : Nat) :
    (⟨(addScaled out e).getD j 0⟩ : Gf) = ⟨out.getD j 0⟩ + e.1 * ⟨e.2.getD j 0⟩ := by
  unfold addScaled
  split
  · rename_i zero
    rw [zero, zero_mul, add_zero]
  · simp only [List.getD_eq_getElem?_getD, List.getElem?_zipWith]
    by_cases inside : j < size
    · rw [List.getElem?_eq_getElem (length ▸ inside), List.getElem?_eq_getElem (sized ▸ inside)]
      rfl
    · rw [List.getElem?_eq_none (by omega), List.getElem?_eq_none (by omega)]
      exact ((congrArg _ (mul_zero e.1)).trans (add_zero (0 : Gf))).symm

theorem length_combine (coeffs : List Gf) {shards : List (List UInt8)}
    (sized : ∀ s ∈ shards, s.length = size) : (combine coeffs shards size).length = size := by
  unfold combine
  apply foldl_invariant fun _ (out : List UInt8) => out.length = size
  · exact List.length_replicate
  · intro seen e out before length
    have member : e ∈ coeffs.zip shards := before.subset (by simp)
    exact length_addScaled length (sized e.2 (List.of_mem_zip member).2)

theorem combine_byte {n : Nat} {coeffs : List Gf} {shards : List (List UInt8)}
    (hc : coeffs.length = n) (hs : shards.length = n) (sized : ∀ s ∈ shards, s.length = size) (j : Nat) :
    (⟨(combine coeffs shards size).getD j 0⟩ : Gf) =
      ∑ c : Fin n, coeffs.getD c 0 * ⟨(shards.getD c []).getD j 0⟩ := by
  have loop : ∀ (n : Nat) (coeffs : List Gf) (shards : List (List UInt8)) (out : List UInt8),
      coeffs.length = n → shards.length = n → (∀ s ∈ shards, s.length = size) → out.length = size →
      (⟨((coeffs.zip shards).foldl addScaled out).getD j 0⟩ : Gf) =
        ⟨out.getD j 0⟩ + ∑ c : Fin n, coeffs.getD c 0 * ⟨(shards.getD c []).getD j 0⟩ := by
    intro n
    induction n with
    | zero =>
      intro coeffs shards out hc _ _ _
      rw [List.length_eq_zero_iff.mp hc]
      simp
    | succ n ih =>
      intro coeffs shards out hc hs sized length
      obtain ⟨c, coeffs, rfl⟩ := List.exists_cons_of_length_eq_add_one hc
      obtain ⟨s, shards, rfl⟩ := List.exists_cons_of_length_eq_add_one hs
      have here := sized s (List.mem_cons_self ..)
      simp only [List.length_cons, Nat.add_right_cancel_iff] at hc hs
      rw [List.zip_cons_cons, List.foldl_cons,
        ih coeffs shards _ hc hs (fun t ht => sized t (List.mem_cons_of_mem _ ht))
          (length_addScaled (e := (c, s)) length here),
        addScaled_byte (e := (c, s)) length here, Fin.sum_univ_succ, add_assoc]
      rfl
  have all := loop n coeffs shards (List.replicate size 0) hc hs sized List.length_replicate
  have start : (List.replicate size (0 : UInt8)).getD j 0 = 0 := by
    rw [List.getD_eq_getElem?_getD, List.getElem?_replicate]
    split <;> rfl
  rw [start] at all
  exact all.trans (zero_add _)

theorem ext_byte {xs ys : List UInt8} (length : xs.length = ys.length)
    (bytes : ∀ j, (⟨xs.getD j 0⟩ : Gf) = ⟨ys.getD j 0⟩) : xs = ys := by
  apply List.ext_getElem length
  intro j hx hy
  have byte := congrArg Gf.byte (bytes j)
  simpa [List.getD_eq_getElem?_getD, hx, hy] using byte

theorem mem_present {shards : List (Option (List UInt8))} {start i : Nat} {s : List UInt8}
    (member : (s, i) ∈ present shards start) : start ≤ i ∧ shards[i - start]? = some (some s) := by
  induction shards generalizing start with
  | nil => cases member
  | cons shard rest ih =>
    cases shard with
    | none =>
      obtain ⟨le, found⟩ := ih member
      refine ⟨by omega, ?_⟩
      rw [show i - start = (i - (start + 1)) + 1 by omega, List.getElem?_cons_succ]
      exact found
    | some t =>
      rcases List.mem_cons.mp member with here | later
      · cases here
        simp
      · obtain ⟨le, found⟩ := ih later
        refine ⟨by omega, ?_⟩
        rw [show i - start = (i - (start + 1)) + 1 by omega, List.getElem?_cons_succ]
        exact found

theorem nodup_present (shards : List (Option (List UInt8))) (start : Nat) :
    ((present shards start).map (·.2)).Nodup := by
  induction shards generalizing start with
  | nil => exact List.nodup_nil
  | cons shard rest ih =>
    cases shard with
    | none => exact ih (start + 1)
    | some t =>
      refine List.nodup_cons.mpr ⟨fun member => ?_, ih (start + 1)⟩
      obtain ⟨e, member, same⟩ := List.mem_map.mp member
      have later := (mem_present (s := e.1) (i := e.2) member).1
      dsimp only at same
      omega

theorem length_present (shards : List (Option (List UInt8))) (start : Nat) :
    (present shards start).length = shards.countP Option.isSome := by
  induction shards generalizing start with
  | nil => rfl
  | cons shard rest ih =>
    cases shard with
    | none => simpa [present] using ih (start + 1)
    | some t => simpa [present] using ih (start + 1)

namespace ReedSolomon

structure Fit (k p : Nat) (rs : ReedSolomon) : Prop where
  data : rs.dataShards = k
  parity : rs.parityShards = p
  total : rs.totalShards = k + p
  matrix : Mat.Systematic (k + p) k rs.matrix

theorem new_fit {k p : Nat} (positive : 0 < k) (fits : k + p ≤ 256) :
    ∃ rs, new k p = .ok rs ∧ Fit k p rs := by
  unfold new
  dsimp only
  rw [if_neg (by omega)]
  by_cases none_ : p = 0
  · subst none_
    exact ⟨_, rfl, rfl, rfl, rfl, Mat.identity_systematic k⟩
  · have ⟨m, built, systematic⟩ : ∃ m, Mat.build k (k + p) = some m ∧ Mat.Systematic (k + p) k m :=
      Mat.build_spec (by omega) fits
    rw [if_neg none_, built]
    exact ⟨_, rfl, rfl, rfl, rfl, systematic⟩

def shard (rs : ReedSolomon) (data : List (List UInt8)) (size i : Nat) : List UInt8 :=
  combine (rs.row i) data size

variable {rs : ReedSolomon} {k p size : Nat} {data : List (List UInt8)} {i : Nat}

theorem shard_byte (fit : Fit k p rs) (count : data.length = k) (sized : ∀ s ∈ data, s.length = size)
    (hi : i < k + p) (j : Nat) :
    (⟨(rs.shard data size i).getD j 0⟩ : Gf) =
      ∑ t : Fin k, entry rs.matrix.data i t * ⟨(data.getD t []).getD j 0⟩ :=
  combine_byte (fit.matrix.shaped.cols i hi) count sized j

theorem length_getD (count : data.length = k) (sized : ∀ s ∈ data, s.length = size) (hi : i < k) :
    (data.getD i []).length = size := by
  rw [List.getD_eq_getElem?_getD, List.getElem?_eq_getElem (count ▸ hi)]
  exact sized _ (List.getElem_mem _)

theorem shard_data (fit : Fit k p rs) (count : data.length = k) (sized : ∀ s ∈ data, s.length = size)
    (hi : i < k) : rs.shard data size i = data.getD i [] := by
  refine ext_byte ((length_combine _ sized).trans (length_getD count sized hi).symm) fun j => ?_
  refine (shard_byte fit count sized (by omega) j).trans ?_
  rw [Finset.sum_eq_single (⟨i, hi⟩ : Fin k)]
  · rw [fit.matrix.top i i hi hi, if_pos rfl, one_mul]
  · intro t _ other
    rw [fit.matrix.top i t hi t.isLt, if_neg (fun same => other (Fin.ext same.symm)), zero_mul]
  · exact fun absent => absurd (Finset.mem_univ _) absent

theorem shard_replicate (made : new k p = .ok rs) (fit : Fit k p rs) (positive : 0 < k) (coded : p ≠ 0)
    (fits : k + p ≤ 256) (hi : i < k + p) (s : List UInt8) :
    rs.shard (List.replicate k s) s.length i = s := by
  have built : Mat.build k (k + p) = some rs.matrix := by
    unfold new at made
    dsimp only at made
    rw [if_neg (by omega), if_neg coded] at made
    split at made
    · cases made
    · cases made
      assumption
  have sized : ∀ t ∈ List.replicate k s, t.length = s.length := fun t member => by rw [List.eq_of_mem_replicate member]
  refine ext_byte (length_combine _ sized) fun j => ?_
  refine (shard_byte fit List.length_replicate sized hi j).trans ?_
  have each : ∀ t : Fin k, (List.replicate k s).getD t [] = s := fun t => by simp [List.getD_eq_getElem?_getD]
  simp only [each]
  rw [← Finset.sum_mul, Mat.build_sum positive (by omega) fits built hi, one_mul]

/-- Encoding computes the parity shards of the codeword, whatever stands in their place. -/
theorem encode_spec (fit : Fit k p rs) (positive : 0 < k) (count : data.length = k)
    (sized : ∀ s ∈ data, s.length = size) {blank : List (List UInt8)} (length : blank.length = p)
    (blanks : ∀ s ∈ blank, s.length = size) :
    rs.encode (data ++ blank) = .ok (data ++ (List.range p).map fun i => rs.shard data size (k + i)) := by
  have first : ((data ++ blank).getD 0 []).length = size := by
    rw [List.getD_eq_getElem?_getD, List.getElem?_append_left (by omega), ← List.getD_eq_getElem?_getD]
    exact length_getD count sized positive
  have mismatch : (data ++ blank).any (·.length ≠ size) = false := by
    simp only [List.any_eq_false, decide_eq_true_eq, not_not]
    exact fun s member => (List.mem_append.mp member).elim (sized s) (blanks s)
  unfold encode
  rw [if_neg (by rw [List.length_append, count, length, fit.total]; exact not_not.mpr rfl)]
  dsimp only
  rw [first, mismatch, fit.data, fit.parity, List.take_left' count]
  rfl

theorem decode_shards (fit : Fit k p rs) (count : data.length = k) (sized : ∀ s ∈ data, s.length = size)
    {valid : List (List UInt8 × Nat)} (enough : valid.length = k) {decode : Mat}
    (shaped : Shaped k k decode.data)
    (true_ : ∀ e ∈ valid, e.2 < k + p ∧ e.1 = rs.shard data size e.2)
    (inverse : Mat.square k decode *
      (Matrix.of fun r c : Fin k => entry rs.matrix.data (valid.getD r ([], 0)).2 c) = 1)
    (hi : i < k) :
    combine (decode.data.getD i []) (valid.map (·.1)) size = data.getD i [] := by
  have at_ : ∀ c : Fin k, valid.getD c ([], 0) ∈ valid := by
    intro c
    rw [List.getD_eq_getElem?_getD, List.getElem?_eq_getElem (enough ▸ c.isLt)]
    exact List.getElem_mem _
  have shards : ∀ c : Fin k, (valid.map (·.1)).getD c [] = rs.shard data size (valid.getD c ([], 0)).2 := by
    intro c
    rw [← (true_ _ (at_ c)).2]
    simp [List.getD_eq_getElem?_getD, enough, c.isLt]
  have sizes : ∀ s ∈ valid.map (·.1), s.length = size := by
    intro s member
    obtain ⟨e, inside, rfl⟩ := List.mem_map.mp member
    rw [(true_ e inside).2]
    exact length_combine _ sized
  refine ext_byte ((length_combine _ sizes).trans (length_getD count sized hi).symm) fun j => ?_
  rw [combine_byte (shaped.cols i hi) (by rw [List.length_map, enough]) sizes]
  calc ∑ c : Fin k, (decode.data.getD i []).getD c 0 * ⟨((valid.map (·.1)).getD c []).getD j 0⟩
      = ∑ c : Fin k, Mat.square k decode ⟨i, hi⟩ c *
          ∑ t : Fin k, entry rs.matrix.data (valid.getD c ([], 0)).2 t * ⟨(data.getD t []).getD j 0⟩ := by
        refine Finset.sum_congr rfl fun c _ => ?_
        rw [shards, shard_byte fit count sized (true_ _ (at_ c)).1]
        rfl
    _ = ∑ t : Fin k, (∑ c : Fin k, Mat.square k decode ⟨i, hi⟩ c *
          entry rs.matrix.data (valid.getD c ([], 0)).2 t) * ⟨(data.getD t []).getD j 0⟩ := by
        simp only [Finset.mul_sum, Finset.sum_mul, mul_assoc]
        exact Finset.sum_comm
    _ = ∑ t : Fin k, (1 : Matrix (Fin k) (Fin k) Gf) ⟨i, hi⟩ t * ⟨(data.getD t []).getD j 0⟩ := by
        refine Finset.sum_congr rfl fun t _ => ?_
        rw [← inverse]
        rfl
    _ = ⟨(data.getD i []).getD j 0⟩ := by
        simp [Matrix.one_apply]

theorem invert_rows (fit : Fit k p rs) {valid : List (List UInt8 × Nat)} (enough : valid.length = k)
    (range : ∀ e ∈ valid, e.2 < k + p) (distinct : (valid.map (·.2)).Nodup) :
    ∃ decode, (Mat.ofFn k k fun r c => entry rs.matrix.data (valid.getD r ([], 0)).2 c).invert = some decode ∧
      Shaped k k decode.data ∧ Mat.square k decode *
        (Matrix.of fun r c : Fin k => entry rs.matrix.data (valid.getD r ([], 0)).2 c) = 1 := by
  have same : Mat.square k (Mat.ofFn k k fun r c => entry rs.matrix.data (valid.getD r ([], 0)).2 c) =
      Matrix.of fun r c : Fin k => entry rs.matrix.data (valid.getD r ([], 0)).2 c := by
    ext r c
    exact Mat.entry_ofFn _ r.isLt c.isLt
  have at_ : ∀ r : Fin k, valid.getD r ([], 0) = valid.get ⟨r, enough ▸ r.isLt⟩ := by
    intro r
    rw [List.getD_eq_getElem?_getD, List.getElem?_eq_getElem (enough ▸ r.isLt)]
    rfl
  have regular := fit.matrix.regular (fun r : Fin k => (valid.getD r ([], 0)).2) ?_ ?_
  · obtain ⟨stuck, next⟩ := Mat.invert_spec
      (Mat.ofFn k k fun r c => entry rs.matrix.data (valid.getD r ([], 0)).2 c) rfl rfl
    change _ → (Mat.square k _).det = 0 at stuck
    rw [same] at stuck
    cases inverted : (Mat.ofFn k k fun r c => entry rs.matrix.data (valid.getD r ([], 0)).2 c).invert with
    | none => exact absurd (stuck inverted) regular
    | some decode =>
      obtain ⟨_, _, shaped, inverse⟩ := next decode inverted
      exact ⟨decode, rfl, shaped, same ▸ inverse⟩
  · intro a b equal
    simp only [at_] at equal
    have inside : ∀ r : Fin k, (r : Nat) < (valid.map (·.2)).length := by simp [enough]
    have indices : (⟨a, inside a⟩ : Fin (valid.map (·.2)).length) = ⟨b, inside b⟩ :=
      List.nodup_iff_injective_get.mp distinct (by simpa using equal)
    exact Fin.ext (Fin.mk.inj indices)
  · intro r
    rw [at_]
    exact range _ (List.get_mem ..)

theorem chosen_rows {shards : List (Option (List UInt8))} (enough : k ≤ shards.countP Option.isSome) :
    ((present shards 0).take k).length = k ∧
      (∀ e ∈ (present shards 0).take k, shards[e.2]? = some (some e.1)) ∧
      (((present shards 0).take k).map (·.2)).Nodup := by
  refine ⟨?_, fun e member => ?_, ?_⟩
  · rw [List.length_take, length_present]
    omega
  · obtain ⟨_, found⟩ := mem_present (s := e.1) (i := e.2) (List.mem_of_mem_take member)
    exact found
  · rw [List.map_take]
    exact (nodup_present shards 0).sublist (List.take_sublist _ _)

/-- Any `k` of the shards of a codeword give all the data. -/
theorem reconstruct_spec (fit : Fit k p rs) (positive : 0 < k) (count : data.length = k)
    (sized : ∀ s ∈ data, s.length = size) {shards : List (Option (List UInt8))}
    (length : shards.length = k + p)
    (true_ : ∀ i s, shards[i]? = some (some s) → s = rs.shard data size i)
    (enough : k ≤ shards.countP Option.isSome) :
    ∃ out, rs.reconstructData shards = .ok out ∧ ∀ i < k, out[i]? = some (some (data.getD i [])) := by
  have sizes : ∀ s ∈ shards.reduceOption, s.length = size := by
    intro s member
    obtain ⟨i, found⟩ := List.mem_iff_getElem?.mp (List.reduceOption_mem_iff.mp member)
    rw [true_ i s found]
    exact length_combine _ sized
  have some_ : shards.reduceOption ≠ [] := by
    intro none_
    have zero := congrArg List.length none_
    rw [List.reduceOption_length_eq, ← List.countP_eq_length_filter] at zero
    simp only [List.length_nil] at zero
    omega
  unfold reconstructData
  rw [if_neg (not_not.mpr (length.trans fit.total.symm))]
  split
  · rename_i none_
    exact absurd none_ some_
  rename_i first rest here
  rw [here] at sizes
  have firstSize := sizes first (List.mem_cons_self ..)
  have mismatch : rest.any (·.length ≠ first.length) = false := by
    simp only [List.any_eq_false, decide_eq_true_eq, not_not]
    exact fun s member => (sizes s (List.mem_cons_of_mem _ member)).trans firstSize.symm
  rw [mismatch, fit.data, firstSize]
  simp only [Bool.false_eq_true, if_false]
  split
  · rename_i all
    refine ⟨shards, rfl, fun i hi => ?_⟩
    have inside : i < (shards.take k).length := by rw [List.length_take]; omega
    have there := List.all_eq_true.mp all _ (List.getElem_mem inside)
    obtain ⟨s, found⟩ := Option.isSome_iff_exists.mp there
    rw [List.getElem_take] at found
    have at_i : shards[i]? = some (some s) := by rw [List.getElem?_eq_getElem (by omega), found]
    rw [at_i, true_ i s at_i, shard_data fit count sized hi]
  · rw [if_neg (by omega)]
    obtain ⟨valid, found, distinct⟩ := chosen_rows enough
    have rows : ∀ e ∈ (present shards 0).take k, e.2 < k + p ∧ e.1 = rs.shard data size e.2 := by
      intro e member
      exact ⟨length ▸ (List.getElem?_eq_some_iff.mp (found e member)).1, true_ e.2 e.1 (found e member)⟩
    clear found
    generalize (present shards 0).take k = valid_ at valid rows distinct ⊢
    obtain ⟨decode, inverted, shaped, inverse⟩ := invert_rows fit valid (fun e member => (rows e member).1) distinct
    rw [inverted]
    refine ⟨_, rfl, fun i hi => ?_⟩
    rw [List.getElem?_mapIdx, List.getElem?_eq_getElem (by omega), Option.map_some]
    cases there : shards.get ⟨i, by omega⟩ with
    | none =>
      rw [List.get_eq_getElem] at there
      rw [there, if_pos ⟨hi, rfl⟩, decode_shards fit count sized valid shaped rows inverse hi]
    | some s =>
      rw [List.get_eq_getElem] at there
      have at_i : shards[i]? = some (some s) := by rw [List.getElem?_eq_getElem (by omega), there]
      rw [there, if_neg (by simp), true_ i s at_i, shard_data fit count sized hi]

theorem reconstruct_ne_singular (fit : Fit k p rs) (shards : List (Option (List UInt8))) :
    rs.reconstructData shards ≠ .error .singular := by
  unfold reconstructData
  split
  · simp
  rename_i length
  have length : shards.length = k + p := (not_not.mp length).trans fit.total
  rw [fit.data]
  split
  · simp
  split
  · simp
  split
  · simp
  split
  · simp
  rename_i enough
  obtain ⟨valid, found, distinct⟩ := chosen_rows (Nat.not_lt.mp enough)
  obtain ⟨decode, inverted, -⟩ := invert_rows fit valid
    (fun e member => length ▸ (List.getElem?_eq_some_iff.mp (found e member)).1) distinct
  dsimp only
  rw [inverted]
  simp

theorem new_ne_singular (k p : Nat) : new k p ≠ .error .singular := by
  by_cases valid : 0 < k ∧ k + p ≤ 256
  · obtain ⟨rs, made, -⟩ := new_fit valid.1 valid.2
    rw [made]
    simp
  · unfold new
    dsimp only
    rw [if_pos (by omega)]
    simp

def survivors (keep : Nat → Bool) (shards : List (List UInt8)) : List (Option (List UInt8)) :=
  shards.mapIdx fun i s => if keep i then some s else none

theorem countP_survivors (keep : Nat → Bool) (shards : List (List UInt8)) :
    (survivors keep shards).countP Option.isSome = (List.range shards.length).countP keep := by
  rw [survivors, List.mapIdx_eq_zipIdx_map, List.countP_map]
  have indices : List.range shards.length = shards.zipIdx.map (·.2) := by
    rw [List.zipIdx_map_snd, List.range_eq_range']
  rw [indices, List.countP_map]
  congr 1
  funext e
  cases kept : keep e.2 <;> simp [kept]

/-- The code is maximum distance separable: the data passes through, any `k` of the shards restore all of it, and
no singular matrix is met. -/
theorem reedSolomon_mds (positive : 1 ≤ k) (fits : k + p ≤ 256) (count : data.length = k)
    (sized : ∀ s ∈ data, s.length = size) {blank : List (List UInt8)} (length : blank.length = p)
    (blanks : ∀ s ∈ blank, s.length = size) :
    ∃ rs parity, new k p = .ok rs ∧ rs.encode (data ++ blank) = .ok (data ++ parity) ∧ parity.length = p ∧
      (∀ keep, k ≤ (List.range (k + p)).countP keep →
        ∃ out, rs.reconstructData (survivors keep (data ++ parity)) = .ok out ∧ out.take k = data.map some) ∧
      (∀ shards, rs.reconstructData shards ≠ .error .singular) ∧ ∀ k p, new k p ≠ .error .singular := by
  obtain ⟨rs, made, fit⟩ := new_fit positive fits
  have encoded := encode_spec fit positive count sized length blanks
  refine ⟨rs, _, made, encoded, by simp, fun keep enough => ?_, reconstruct_ne_singular fit, new_ne_singular⟩
  have total : (data ++ (List.range p).map fun i => rs.shard data size (k + i)).length = k + p := by simp [count]
  have shards : ∀ i s, (data ++ (List.range p).map fun i => rs.shard data size (k + i))[i]? = some s →
      s = rs.shard data size i := by
    intro i s found
    by_cases own : i < data.length
    · rw [shard_data fit count sized (count ▸ own), List.getD_eq_getElem?_getD]
      rw [List.getElem?_append_left own] at found
      rw [found]
      rfl
    · rw [List.getElem?_append_right (Nat.not_lt.mp own), List.getElem?_map, Option.map_eq_some_iff] at found
      obtain ⟨j, at_j, rfl⟩ := found
      obtain ⟨-, rfl⟩ := List.getElem?_eq_some_iff.mp at_j
      rw [List.getElem_range, ← count, Nat.add_sub_cancel' (Nat.not_lt.mp own)]
  have true_ : ∀ i s, (survivors keep (data ++ (List.range p).map fun i => rs.shard data size (k + i)))[i]? =
      some (some s) → s = rs.shard data size i := by
    intro i s found
    rw [survivors, List.getElem?_mapIdx, Option.map_eq_some_iff] at found
    obtain ⟨t, at_i, same⟩ := found
    split at same
    · cases same
      exact shards i s at_i
    · cases same
  obtain ⟨out, decoded, restored⟩ := reconstruct_spec fit positive count sized
    (by rw [survivors, List.length_mapIdx, total]) true_ (by rw [countP_survivors, total]; exact enough)
  refine ⟨out, decoded, List.ext_getElem? fun i => ?_⟩
  by_cases inside : i < k
  · rw [List.getElem?_take_of_lt inside, restored i inside, List.getElem?_map, List.getD_eq_getElem?_getD,
      List.getElem?_eq_getElem (count ▸ inside)]
    rfl
  · rw [List.getElem?_take_eq_none (Nat.not_lt.mp inside), List.getElem?_eq_none (by simp [count]; omega)]

theorem reedSolomon_mds_twoOne : ∃ rs parity, new 2 1 = .ok rs ∧
    rs.encode ([[1, 2], [3, 4]] ++ [[0, 0]]) = .ok ([[1, 2], [3, 4]] ++ parity) ∧
    ∃ out, rs.reconstructData (survivors (· ≠ 0) ([[1, 2], [3, 4]] ++ parity)) = .ok out ∧
      out.take 2 = [some [1, 2], some [3, 4]] := by
  have sized : ∀ s ∈ [[(1 : UInt8), 2], [3, 4]], s.length = 2 := by decide
  have blanks : ∀ s ∈ [[(0 : UInt8), 0]], s.length = 2 := by decide
  obtain ⟨rs, parity, made, encoded, -, restored, -⟩ :=
    reedSolomon_mds (k := 2) (p := 1) (by decide) (by decide) rfl sized rfl blanks
  exact ⟨rs, parity, made, encoded, restored (· ≠ 0) (by decide)⟩

end ReedSolomon

end Hoverfly.Erasure
