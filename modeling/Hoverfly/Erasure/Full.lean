import Hoverfly.Erasure.Reading

/-! The full tree over equal bytes. All its subtrees of one height are the same and so are their
parities, so it has as many different chunks as levels; at height 7 its span no longer counts it. -/
namespace Hoverfly.Erasure
open Lib Cascade

def spanHash (span : Nat) (_ : List UInt8) : Addr := ⟨toLe 32 span, length_toLe _ _⟩

def fullTree : Nat → Tree
  | 0 => .leaf (List.replicate chunkSize 0)
  | h + 1 => .node (List.replicate 119 (fullTree h))

def fullData (h : Nat) : List UInt8 := List.replicate (chunkSize * 119 ^ h) 0

theorem treeOf_fullData (h : Nat) : treeOf .medium h (fullData h) = fullTree h := by
  induction h with
  | zero =>
    rw [treeOf, fullTree, fullData, Nat.pow_zero, Nat.mul_one]
  | succ h ih =>
    have pos : 0 < chunkSize * 119 ^ h := Nat.mul_pos (by decide) (Nat.pow_pos (by decide))
    have pieces : chunks (chunkSize * Level.medium.maxShards ^ h) (fullData (h + 1)) =
        List.replicate 119 (fullData h) := by
      rw [fullData, Nat.pow_succ, ← Nat.mul_assoc]
      exact chunks_replicate pos 119 0
    rw [treeOf, pieces, List.map_replicate, ih, pack_of_two (by simp), fullTree]

theorem objectTree_fullData : objectTree .medium (fullData 7) = fullTree 7 := by
  have some_ : fullData 7 ≠ [] := by
    rw [fullData, ne_eq, List.replicate_eq_nil_iff]
    decide
  rw [objectTree, if_neg some_, treeOf_fullData]

theorem size_fullTree (h : Nat) : (fullTree h).size = chunkSize * 119 ^ h := by
  rw [← treeOf_fullData, size_treeOf, fullData, List.length_replicate]

theorem filled_fullTree (h : Nat) : (fullTree h).Filled .medium h := by
  rw [← treeOf_fullData]
  apply filled_treeOf
  · rw [fullData, ne_eq, List.replicate_eq_nil_iff]
    exact Nat.mul_ne_zero (by decide) (Nat.pow_pos (by decide)).ne'
  · rw [fullData, List.length_replicate]
    exact Nat.le_refl _

section
variable (bmt : Nat → List UInt8 → Addr)

theorem length_fullTree (h : Nat) : ((fullTree h).specWire bmt .medium).length = chunkWithSpan := by
  rw [specWire_eq, List.length_append, length_span, chunkWithSpan]
  cases h with
  | zero => rw [fullTree, Tree.payload, List.length_replicate]
  | succ h =>
    rw [fullTree, Tree.payload, length_refBytes, length_refsOf (by simp) (by simp; decide), List.length_replicate]
    rfl

theorem parityWires_fullTree (h : Nat) :
    ∀ p ∈ parityWires .medium (List.replicate 119 ((fullTree h).specWire bmt .medium)),
      p = (fullTree h).specWire bmt .medium := by
  intro p member
  have length := length_fullTree bmt h
  have padded : padTo chunkWithSpan ((fullTree h).specWire bmt .medium) = (fullTree h).specWire bmt .medium := by
    rw [padTo_eq (Nat.le_of_eq length), length, Nat.sub_self, List.replicate_zero, List.append_nil]
  obtain ⟨rs, made, fit⟩ := ReedSolomon.new_fit (k := 119) (p := 9) (by decide) (by decide)
  have parities : Level.medium.parities 119 = 9 := by decide
  obtain ⟨i, found⟩ := List.mem_iff_getElem?.mp member
  have inside := (List.getElem?_eq_some_iff.mp found).1
  rw [length_parityWires _ (by simp) (by simp; decide), List.length_replicate, parities] at inside
  have shard := parityWires_getElem? (by rw [List.length_replicate, parities]; exact made) found
  rw [List.length_replicate, List.map_replicate, padded, ← length,
    ReedSolomon.shard_replicate made fit (by decide) (by decide) (by decide) (by omega)] at shard
  exact shard

theorem specWires_fullTree (h : Nat) :
    ∀ w ∈ (fullTree h).specWires bmt .medium, ∃ i ≤ h, w = (fullTree i).specWire bmt .medium := by
  induction h with
  | zero =>
    intro w member
    rw [fullTree, Tree.specWires, List.mem_singleton] at member
    exact ⟨0, Nat.le_refl 0, by rw [member, fullTree, Tree.specWire]⟩
  | succ h ih =>
    intro w member
    rw [fullTree, Tree.specWires, List.map_replicate, ← fullTree] at member
    rcases List.mem_append.mp member with upper | lower
    · rcases List.mem_cons.mp upper with root | parity
      · exact ⟨h + 1, Nat.le_refl _, root⟩
      · exact ⟨h, Nat.le_succ h, parityWires_fullTree bmt h w parity⟩
    · obtain ⟨c, child, inside⟩ := List.mem_flatMap.mp lower
      rw [List.eq_of_mem_replicate child] at inside
      obtain ⟨i, le, same⟩ := ih w inside
      exact ⟨i, Nat.le_succ_of_le le, same⟩

end

theorem span_fullTree (h : Nat) :
    (fullTree h).span .medium = spanOf .medium (if h = 0 then 0 else 9) (chunkSize * 119 ^ h) := by
  cases h with
  | zero =>
    rw [fullTree, Tree.span, List.length_replicate]
    rfl
  | succ h =>
    have size := size_fullTree (h + 1)
    rw [fullTree] at size ⊢
    rw [Tree.span, size, List.length_replicate]
    rfl

theorem wireAddress_spanHash {w : Wire} {a : Addr} (found : wireAddress spanHash w = some a) :
    a = spanHash (fromLe (w.take spanSize)) [] := by
  unfold wireAddress at found
  split at found
  · cases found
  · exact (Option.some.inj found).symm

theorem wireAddress_fullTree (h : Nat) :
    wireAddress spanHash ((fullTree h).specWire spanHash .medium) =
      some (spanHash (fromLe ((fullTree h).span .medium)) []) := by
  rw [wireAddress, length_fullTree, if_neg (by decide), specWire_eq, List.take_left' (length_span _)]
  rfl

theorem spans_fullTree : ∀ i < 8, ∀ j < 8, toLe 32 (fromLe (spanOf .medium (if i = 0 then 0 else 9) (chunkSize * 119 ^ i))) =
    toLe 32 (fromLe (spanOf .medium (if j = 0 then 0 else 9) (chunkSize * 119 ^ j))) → i = j := by
  decide +kernel

theorem address_injective {i j : Nat} (hi : i ≤ 7) (hj : j ≤ 7)
    (same : wireAddress spanHash ((fullTree i).specWire spanHash .medium) =
      wireAddress spanHash ((fullTree j).specWire spanHash .medium)) : i = j := by
  rw [wireAddress_fullTree, wireAddress_fullTree, span_fullTree, span_fullTree] at same
  exact spans_fullTree i (by omega) j (by omega) (congrArg Subtype.val (Option.some.inj same))

theorem address_ne_zero {i : Nat} (hi : i ≤ 7) :
    wireAddress spanHash ((fullTree i).specWire spanHash .medium) ≠ some zeroAddr := by
  have each : ∀ i < 8, toLe 32 (fromLe (spanOf .medium (if i = 0 then 0 else 9) (chunkSize * 119 ^ i))) ≠
      List.replicate 32 0 := by decide +kernel
  rw [wireAddress_fullTree, span_fullTree]
  exact fun zero => each i (by omega) (congrArg Subtype.val (Option.some.inj zero))

end Hoverfly.Erasure
