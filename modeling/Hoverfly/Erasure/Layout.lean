import Hoverfly.Erasure.RoundTrip

/-! A reader of an intermediate chunk has only its span: from it the reader computes how many of the
chunk's references are data and how many are parities. -/
namespace Hoverfly.Erasure
open Lib

inductive Tree.Within (s : Tree) : Tree → Prop
  | here : Within s s
  | child (children : List Tree) (c : Tree) (member : c ∈ children) (inside : Within s c) : Within s (.node children)

section
variable {bmt : Nat → List UInt8 → Addr} {level : Level}

structure LaidOut (bmt : Nat → List UInt8 → Addr) (level : Level) (below : List Tree) : Prop where
  span : decodeSpan ((Tree.node below).wire bmt level) = (level, (Tree.node below).bytes.length)
  count : referenceCount (Tree.node below).bytes.length level =
    some (below.length, (parityWires level (below.map (Tree.wire bmt level))).length)
  split : chunkAddresses (((Tree.node below).wire bmt level).drop spanSize)
      (parityWires level (below.map (Tree.wire bmt level))).length =
    ((below.map (Tree.wire bmt level) ++ parityWires level (below.map (Tree.wire bmt level))).map (reference bmt),
      below.length)

variable {s t : Tree} {h : Nat}

theorem Tree.Within.filled (within : s.Within t) (filled : t.Filled level h) :
    ∃ g, s.Filled level g := by
  induction within generalizing h with
  | here => exact ⟨h, filled⟩
  | child children c member inside ih =>
    cases filled with
    | node g _ _ lower two most low high all => exact ih (all c member)

theorem Tree.Within.size_le (within : s.Within t) : s.size ≤ t.size := by
  induction within with
  | here => exact Nat.le_refl _
  | child children c member inside ih => exact Nat.le_trans ih (size_child_le member)

theorem Tree.Within.mem_specWires (within : s.Within t) : s.specWire bmt level ∈ t.specWires bmt level := by
  induction within with
  | here => exact specWire_mem_specWires bmt level s
  | child children c member inside ih => exact wires_of_child member ih

theorem Tree.Filled.bounded (filled : t.Filled level h) : t.Bounded level.maxShards := by
  induction filled with
  | leaf h payload short => exact .leaf payload
  | node g h below lower two most low high all ih =>
    exact .node below (List.length_pos_iff.mp (by omega)) most ih

theorem Tree.Filled.length_bytes (filled : t.Filled level h) : t.bytes.length = t.size := by
  induction filled with
  | leaf h payload short => rw [Tree.bytes, Tree.size]
  | node g h below lower two most low high all ih =>
    rw [Tree.bytes, Tree.size, List.length_flatMap, List.map_congr_left ih]

theorem decodeSpan_append {span : List UInt8} (sized : span.length = spanSize) (rest : List UInt8) :
    decodeSpan (span ++ rest) = decodeSpan span := by
  unfold decodeSpan
  rw [List.take_left' sized, List.take_of_length_le (Nat.le_of_eq sized)]

theorem laidOut_of_filled {below : List Tree}
    (filled : (Tree.node below).Filled level h) (short : (Tree.node below).size < 2 ^ 56) : LaidOut bmt level below := by
  have length := filled.length_bytes
  have wire : (Tree.node below).wire bmt level = _ := (wire_eq_specWire filled.bounded).trans (specWire_eq _)
  have label := decodeSpan_span filled (.inl short)
  cases filled with
  | node g _ _ lower two most low high all =>
    have wires : below.map (Tree.wire bmt level) = below.map (Tree.specWire bmt level) :=
      List.map_congr_left fun c member => wire_eq_specWire (all c member).bounded
    have refs : (refsOf bmt level below).length = below.length + level.parities below.length :=
      length_refsOf (by omega) most
    have parities : (parityWires level (below.map (Tree.specWire bmt level))).length = level.parities below.length := by
      rw [refsOf, List.length_map, siblings, List.length_append, List.length_map] at refs
      omega
    refine ⟨?_, ?_, ?_⟩
    · rw [wire, decodeSpan_append (length_span _), label, length, Tree.label]
    · rw [length, wires, parities]
      exact referenceCount_spec short two most low high
    · rw [wire, wires, parities, List.drop_left' (length_span _), Tree.payload, chunkAddresses_spec _ refs]
      rfl

theorem short_of_laidOut {below : List Tree} (coded : level ≠ .none)
    (filled : (Tree.node below).Filled level h) (laid : LaidOut bmt level below) : (Tree.node below).size < 2 ^ 56 := by
  have root := laid.span
  have wire : (Tree.node below).wire bmt level = _ := (wire_eq_specWire filled.bounded).trans (specWire_eq _)
  rw [wire, decodeSpan_append (length_span _), filled.length_bytes] at root
  cases filled with
  | node g _ _ lower two =>
    have low := decodeSpan_node coded (Nat.lt_of_lt_of_le (by decide) two)
    rw [root] at low
    exact low

variable {dispersed : Wire → Level → Except String (List (Addr × Wire))} {data : List UInt8} {out : SplitOutput}

/-- With parities, the intermediate chunks of an upload are those of the nodes of the object's tree, and each one's
layout can be read off its span, just when the length fits the span. -/
theorem span_determines_layout_iff (coded : level ≠ .none)
    (accepted : splitWithRedundancy bmt dispersed data level = .ok out) :
    (∀ below, (Tree.node below).Within (objectTree level data) →
      (Tree.node below).wire bmt level ∈ out.hashed ∧ LaidOut bmt level below) ↔ data.length < 2 ^ 56 := by
  obtain ⟨fits, replicas, stored⟩ := stored_of_split accepted
  have filled := filled_object fits
  have size := size_object level data
  constructor
  · intro all
    by_contra long
    cases tree : objectTree level data with
    | leaf payload =>
      rw [tree] at filled size
      cases filled with
      | leaf _ _ short =>
        rw [Tree.size] at size
        rw [chunkSize] at short
        omega
    | node below =>
      have laid := (all below (tree ▸ .here)).2
      rw [tree] at filled size
      have := short_of_laidOut coded filled laid
      omega
  · intro short below within
    obtain ⟨g, here⟩ := within.filled filled
    have less := within.size_le
    refine ⟨?_, laidOut_of_filled here (by omega)⟩
    rw [wire_eq_specWire here.bounded]
    exact (stored.hashed _).mpr within.mem_specWires

end

theorem span_determines_layout_twoLeaves :
    ∃ out, splitWithRedundancy spanHash (fun _ _ => .ok []) twoData .medium = .ok out ∧
      twoLeaves.wire spanHash .medium ∈ out.hashed ∧
      LaidOut spanHash .medium [.leaf (List.replicate chunkSize 7), .leaf [7]] := by
  obtain ⟨out, accepted⟩ := twoUpload
  refine ⟨out, accepted, (span_determines_layout_iff (by decide) accepted).mpr ?_ _ ?_⟩
  · rw [length_twoData]
    decide
  · rw [objectTree_twoData]
    exact .here

/-- The root of an upload of 4096·119^7 bytes does not count them. -/
theorem full_upload_not_laidOut :
    ∃ out, splitWithRedundancy spanHash (fun _ _ => .ok []) (fullData 7) .medium = .ok out ∧
      (Tree.node (List.replicate 119 (fullTree 6))).Within (objectTree .medium (fullData 7)) ∧
      ¬LaidOut spanHash .medium (List.replicate 119 (fullTree 6)) := by
  obtain ⟨out, accepted, -⟩ := fullUpload
  have filled := filled_fullTree 7
  have size := size_fullTree 7
  refine ⟨out, accepted, by rw [objectTree_fullData]; exact .here, fun laid => ?_⟩
  have short := short_of_laidOut (by decide) filled laid
  rw [fullTree] at size
  rw [size] at short
  exact absurd short (by decide)

end Hoverfly.Erasure
