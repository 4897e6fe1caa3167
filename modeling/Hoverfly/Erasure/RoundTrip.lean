import Hoverfly.Erasure.Full
import Hoverfly.Erasure.Refinement

/-! An upload is read back as it was, as long as no node loses more references than it has parities
and the length fits the span. -/
namespace Hoverfly.Erasure
open Lib

section
variable {bmt : Nat → List UInt8 → Addr} {level : Level} {kept : Addr → Bool}

theorem Tree.Retrievable.congr {t : Tree} {other : Addr → Bool} (enough : t.Retrievable bmt level kept)
    (same : ∀ w ∈ t.specWires bmt level, kept (reference bmt w) = other (reference bmt w)) :
    t.Retrievable bmt level other := by
  induction enough with
  | leaf payload => exact .leaf payload
  | node below here rest ih =>
    refine .node below ?_ fun c member => ih c member fun w inside => same w (wires_of_child member inside)
    rwa [← List.countP_congr (p := kept)]
    intro a member
    obtain ⟨s, sibling, rfl⟩ := List.mem_map.mp member
    rw [same s (siblings_mem_specWires sibling)]

theorem label_size (t : Tree) : (t.label level).2 = t.size := by
  cases t with
  | leaf payload => rw [Tree.label, Tree.size]
  | node below => rfl

variable {dispersed : Wire → Level → Except String (List (Addr × Wire))} {data : List UInt8} {out : SplitOutput}

theorem replicas_of_split (accepted : splitWithRedundancy bmt dispersed data level = .ok out) :
    data.length ≤ chunkSize * level.maxShards ^ 7 ∧
      ∃ rootWire replicas, wireAddress bmt rootWire = wireAddress bmt ((objectTree level data).specWire bmt level) ∧
        dispersed rootWire level = .ok replicas ∧
        Stored bmt ((objectTree level data).specWires bmt level) ((objectTree level data).specWire bmt level)
          replicas out := by
  rcases @split_spec bmt level dispersed data with ⟨-, refused⟩ | ⟨fits, rootWire, -, named, outcome⟩
  · rw [refused] at accepted
    cases accepted
  · have bounded := @bounded_object level data fits
    rw [wire_eq_specWire bounded] at named
    rw [wire_eq_specWire bounded, wires_eq_specWires bounded] at outcome
    split at outcome
    · rw [outcome] at accepted
      cases accepted
    · rename_i built
      obtain ⟨made, same, stored⟩ := outcome
      rw [same] at accepted
      cases accepted
      exact ⟨fits, rootWire, _, named, built, stored⟩

theorem stored_of_split (accepted : splitWithRedundancy bmt dispersed data level = .ok out) :
    data.length ≤ chunkSize * level.maxShards ^ 7 ∧
      ∃ replicas, Stored bmt ((objectTree level data).specWires bmt level) ((objectTree level data).specWire bmt level)
        replicas out := by
  obtain ⟨fits, -, replicas, -, -, stored⟩ := replicas_of_split accepted
  exact ⟨fits, replicas, stored⟩

def SplitOutput.lookup (out : SplitOutput) (a : Addr) : Option Wire := (out.chunks.find? (·.1 = a)).map (·.2)

theorem lookup_iff (distinct : (out.chunks.map (·.1)).Nodup) {a : Addr} {w : Wire} :
    out.lookup a = some w ↔ (a, w) ∈ out.chunks := by
  unfold SplitOutput.lookup
  constructor
  · intro found
    obtain ⟨⟨b, v⟩, here, rfl⟩ := Option.map_eq_some_iff.mp found
    have key := List.find?_some here
    simp only [decide_eq_true_eq] at key
    exact key ▸ List.mem_of_find?_eq_some here
  · intro member
    cases found : out.chunks.find? (·.1 = a) with
    | none => exact absurd (List.find?_eq_none.mp found _ member) (by simp)
    | some p =>
      have key := List.find?_some found
      simp only [decide_eq_true_eq] at key
      have same : p = (a, w) := List.inj_on_of_nodup_map distinct (List.mem_of_find?_eq_some found) member key
      rw [same, Option.map_some]

/-- A store that has every chunk of an upload but those that are lost. -/
def SplitOutput.Answers (out : SplitOutput) (lost : Addr → Bool) (answer : Answer) : Prop :=
  ∀ a w, answer a = .ok w ↔ (a, w) ∈ out.chunks ∧ lost a = false

theorem held_of_stored {wires : List Wire} {root : Wire} {replicas : List (Addr × Wire)}
    (stored : Stored bmt wires root replicas out)
    (distinct : ∀ v ∈ out.hashed, ∀ w ∈ out.hashed, wireAddress bmt v = wireAddress bmt w → v = w)
    (nonzero : ∀ w ∈ out.hashed, wireAddress bmt w ≠ some zeroAddr) : Held out.lookup bmt wires := by
  obtain ⟨own, added, chunks, -, -, kept, found⟩ := stored.chunks
  have named : ∀ w ∈ wires, wireAddress bmt w = some (reference bmt w) ∧ (reference bmt w, w) ∈ out.chunks := by
    intro w member
    obtain ⟨⟨a, v⟩, here, address⟩ := found w member
    obtain ⟨other, inside⟩ := kept _ here
    have same : v = w := distinct v ((stored.hashed v).mpr inside) w ((stored.hashed w).mpr member)
      (other.trans address.symm)
    have name : reference bmt w = a := by
      rw [reference, address]
      rfl
    subst same
    rw [name]
    exact ⟨address, chunks ▸ List.mem_append_left _ here⟩
  refine ⟨fun w member => (lookup_iff stored.distinct).mpr (named w member).2, fun w member zero => ?_⟩
  apply nonzero w ((stored.hashed w).mpr member)
  rw [(named w member).1, zero]

theorem serves_of_answers (distinct : (out.chunks.map (·.1)).Nodup) {lost : Addr → Bool} {answer : Answer}
    (answers : out.Answers lost answer) :
    Serves out.lookup (fun a => !lost a && (out.lookup a).isSome) answer where
  true_ := fun a w got => (lookup_iff distinct).mpr ((answers a w).mp got).1
  sure := by
    intro a kept
    simp only [Bool.and_eq_true, Bool.not_eq_eq_eq_not, Bool.not_true] at kept
    obtain ⟨w, here⟩ := Option.isSome_iff_exists.mp kept.2
    exact ⟨w, (answers a w).mpr ⟨(lookup_iff distinct).mp here, kept.1⟩⟩

theorem decodeSpan_node {below : List Tree} (coded : level ≠ .none) (some_ : 0 < below.length) :
    (decodeSpan (Tree.span level (.node below))).2 < 2 ^ 56 := by
  rw [Tree.span, spanOf, if_pos (Level.parities_pos coded some_), spanSize, decodeSpan_level coded]
  exact Nat.mod_lt _ (by decide)

theorem length_fetched {fuel inFlight : Nat} {root : Addr} {env : Env} {wire bytes : List UInt8} {dc : DecodedChunk}
    (got : env.head.answer root = .ok wire) (parsed : DecodedChunk.fromWire wire = .ok dc)
    (fetched : fetchErasureBytes fuel root inFlight env = .ok bytes) : bytes.length ≤ dc.levelAndLen.2 := by
  unfold fetchErasureBytes at fetched
  simp only [got, parsed] at fetched
  split at fetched
  · cases fetched
  · split at fetched
    · cases fetched
    · cases fetched
      exact List.length_take_le _ _

theorem long_specWire (t : Tree) : spanSize ≤ (t.specWire bmt level).length := by
  rw [specWire_eq, List.length_append, length_span]
  exact Nat.le_add_right _ _

theorem root_answer {replicas : List (Addr × Wire)} {t : Tree}
    (stored : Stored bmt (t.specWires bmt level) (t.specWire bmt level) replicas out)
    (held : Held out.lookup bmt (t.specWires bmt level)) {lost : Addr → Bool} (root : lost out.root = false)
    {answer : Answer} (answers : out.Answers lost answer) : answer out.root = .ok (t.specWire bmt level) := by
  refine (answers _ _).mpr ⟨?_, root⟩
  rw [stored.root]
  exact (lookup_iff stored.distinct).mp (held.content _ (specWire_mem_specWires bmt level t))

section
variable (accepted : splitWithRedundancy bmt dispersed data level = .ok out)
  (distinct : ∀ v ∈ out.hashed, ∀ w ∈ out.hashed, wireAddress bmt v = wireAddress bmt w → v = w)
  (nonzero : ∀ w ∈ out.hashed, wireAddress bmt w ≠ some zeroAddr) {lost : Addr → Bool}
  (root : lost out.root = false) {env : Env} (answers : env.All (out.Answers lost ·.answer))
include accepted distinct nonzero root answers

theorem short_of_fetched {fuel inFlight : Nat} (fetched : fetchErasureBytes fuel out.root inFlight env = .ok data) :
    data.length < 2 ^ 56 ∨ level = .none := by
  obtain ⟨fits, replicas, stored⟩ := stored_of_split accepted
  have got := root_answer stored (held_of_stored stored distinct nonzero) root (answers 0)
  have filled := filled_object fits
  have most := length_fetched got (fromWire_ok (long_specWire _)) fetched
  rw [DecodedChunk.levelAndLen, specWire_eq, toLe_span] at most
  have size := size_object level data
  by_contra not_
  obtain ⟨large, coded⟩ := not_or.mp not_
  rw [← size] at most large
  cases tree : objectTree level data with
  | leaf payload =>
    rw [tree] at filled large
    cases filled with
    | leaf _ _ short =>
      rw [Tree.size] at large
      rw [chunkSize] at short
      omega
  | node below =>
    rw [tree] at filled most large
    cases filled with
    | node g _ _ lower two =>
      have := decodeSpan_node coded (Nat.lt_of_lt_of_le (by decide) two)
      omega

theorem fetched_of_short (enough : (objectTree level data).Retrievable bmt level fun a => !lost a) (inFlight : Nat)
    {fuel : Nat} (deep : 7 < fuel) (short : data.length < 2 ^ 56 ∨ level = .none) :
    fetchErasureBytes fuel out.root inFlight env = .ok data := by
  obtain ⟨fits, replicas, stored⟩ := stored_of_split accepted
  have held := held_of_stored stored distinct nonzero
  have got := root_answer stored held root (answers 0)
  have filled := filled_object fits
  have size := size_object level data
  have countable : Countable level (objectTree level data).size := by
    rw [size]
    rcases short with short | plain
    · exact .inl short
    · subst plain
      exact .inr ⟨rfl, Nat.lt_of_le_of_lt fits (by decide)⟩
  have kept : (objectTree level data).Retrievable bmt level fun a => !lost a && (out.lookup a).isSome := by
    refine enough.congr fun w inside => ?_
    rw [held.content w inside, Option.isSome_some, Bool.and_true]
  have serves : env.tail.All (Serves out.lookup (fun a => !lost a && (out.lookup a).isSome) ·.answer) :=
    fun n => serves_of_answers stored.distinct (answers (n + 1))
  have parsed := fromWire_ok (@long_specWire bmt level (objectTree level data))
  have shows := shows_fetched filled countable parsed
  obtain ⟨parity, env', counted, read, -⟩ :=
    reads_tree filled countable held kept deep (max inFlight 1) _ { out := [], env := env.tail } shows serves
  unfold fetchErasureBytes
  simp only [Stream'.head, got, parsed, counted, read]
  rw [shows.label, label_size, size, List.nil_append, bytes_object, List.take_length]

end

/-- An upload of which no node lost more than it can spare is read back as it was, whatever the window and the
order in which fetches end, just when its length fits the span. -/
theorem fetch_returns_upload_iff (accepted : splitWithRedundancy bmt dispersed data level = .ok out)
    (distinct : ∀ v ∈ out.hashed, ∀ w ∈ out.hashed, wireAddress bmt v = wireAddress bmt w → v = w)
    (nonzero : ∀ w ∈ out.hashed, wireAddress bmt w ≠ some zeroAddr) (lost : Addr → Bool)
    (root : lost out.root = false) (enough : (objectTree level data).Retrievable bmt level fun a => !lost a)
    (inFlight : Nat) {fuel : Nat} (deep : 7 < fuel) (env : Env) (answers : env.All (out.Answers lost ·.answer)) :
    fetchErasureBytes fuel out.root inFlight env = .ok data ↔ data.length < 2 ^ 56 ∨ level = .none :=
  ⟨short_of_fetched accepted distinct nonzero root answers,
    fetched_of_short accepted distinct nonzero root answers enough inFlight deep⟩

end

def SplitOutput.store (out : SplitOutput) (lost : Addr → Bool) : Answer := fun a =>
  match out.lookup a with
  | none => .error "not found"
  | some w => if lost a then .error "not found" else .ok w

theorem store_answers {out : SplitOutput} (distinct : (out.chunks.map (·.1)).Nodup) (lost : Addr → Bool) :
    out.Answers lost (out.store lost) := by
  intro a w
  rw [← lookup_iff distinct, SplitOutput.store]
  cases out.lookup a with
  | none => simp
  | some v =>
    cases lost a with
    | true => simp
    | false => simp

def twoData : List UInt8 := List.replicate chunkSize 7 ++ [7]

def twoLeaves : Tree := .node [.leaf (List.replicate chunkSize 7), .leaf [7]]

def twoWires : List Wire := [leafWire (List.replicate chunkSize 7), leafWire [7]]

def twoRoot : Wire := spanOf .medium 3 4097 ++ refBytes ((siblings .medium twoWires).map (reference spanHash))

theorem length_twoData : twoData.length = 4097 := by
  rw [twoData, List.length_append, List.length_replicate]
  rfl

theorem objectTree_twoData : objectTree .medium twoData = twoLeaves := by
  have some_ : twoData ≠ [] := List.length_pos_iff.mp (by rw [length_twoData]; decide)
  have low : ∀ h, treeOf .medium (h + 1) twoData = twoLeaves := by
    intro h
    induction h with
    | zero =>
      rw [treeOf, Nat.pow_zero, Nat.mul_one, twoData, chunks_append (by decide) List.length_replicate,
        chunks_short (List.cons_ne_nil _ _) (by decide)]
      simp only [List.map_cons, List.map_nil, treeOf]
      rfl
    | succ h ih =>
      have wide : 4097 ≤ chunkSize * Level.medium.maxShards ^ (h + 1) :=
        calc 4097 ≤ chunkSize * Level.medium.maxShards ^ 1 := by decide
          _ ≤ chunkSize * Level.medium.maxShards ^ (h + 1) :=
            Nat.mul_le_mul_left _ (Nat.pow_le_pow_right (by decide) (by omega))
      rw [treeOf, chunks_short some_ (length_twoData ▸ wide), List.map_singleton, ih, Cascade.pack]
  rw [objectTree, if_neg some_, low 6]

theorem specWire_twoLeaves : twoLeaves.specWire spanHash .medium = twoRoot := by
  have size : twoLeaves.size = 4097 := by rw [← objectTree_twoData, size_object, length_twoData]
  rw [twoLeaves] at size ⊢
  rw [Tree.specWire, size]
  simp only [List.map_cons, List.map_nil, Tree.specWire]
  rfl

theorem specWires_twoLeaves :
    twoLeaves.specWires spanHash .medium = twoRoot :: parityWires .medium twoWires ++ twoWires := by
  have root := specWire_twoLeaves
  rw [twoLeaves] at root ⊢
  rw [Tree.specWires, root]
  simp only [List.map_cons, List.map_nil, List.flatMap_cons, List.flatMap_nil, Tree.specWire, Tree.specWires,
    List.append_nil, List.cons_append, List.nil_append, twoWires]

theorem spans_twoLeaves : (twoRoot :: parityWires .medium twoWires ++ twoWires).map (fun w => fromLe (w.take spanSize)) =
    [9295429630892707841, 12290, 8195, 20484, 4096, 1] := by decide +kernel

theorem twoUpload : ∃ out, splitWithRedundancy spanHash (fun _ _ => .ok []) twoData .medium = .ok out := by
  rcases @split_spec spanHash .medium (fun _ _ => .ok []) twoData with ⟨long, -⟩ | ⟨-, _, -, -, out, accepted, -⟩
  · rw [length_twoData] at long
    exact absurd long (by decide)
  · exact ⟨out, accepted⟩

/-- The first of two leaves is lost and is rebuilt. -/
theorem fetch_returns_twoLeaves : ∃ out, splitWithRedundancy spanHash (fun _ _ => .ok []) twoData .medium = .ok out ∧
    ∃ env : Env, env.All (out.Answers (fun a => a = spanHash 4096 []) ·.answer) ∧
      fetchErasureBytes 8 out.root 1 env = .ok twoData := by
  obtain ⟨out, accepted⟩ := twoUpload
  obtain ⟨-, replicas, stored⟩ := stored_of_split accepted
  rw [objectTree_twoData, specWires_twoLeaves, specWire_twoLeaves] at stored
  have address : ∀ w ∈ twoRoot :: parityWires .medium twoWires ++ twoWires,
      wireAddress spanHash w = some (spanHash (fromLe (w.take spanSize)) []) := by
    intro w member
    obtain ⟨own, added, -, -, -, -, found⟩ := stored.chunks
    obtain ⟨p, -, here⟩ := found w member
    rw [here, wireAddress_spanHash here]
  have refs : ∀ w ∈ twoRoot :: parityWires .medium twoWires ++ twoWires,
      reference spanHash w = spanHash (fromLe (w.take spanSize)) [] := by
    intro w member
    rw [reference, address w member]
    rfl
  have nodup : ((twoRoot :: parityWires .medium twoWires ++ twoWires).map (wireAddress spanHash)).Nodup := by
    have listed : (twoRoot :: parityWires .medium twoWires ++ twoWires).map (wireAddress spanHash) =
        [9295429630892707841, 12290, 8195, 20484, 4096, 1].map fun span => some (spanHash span []) := by
      rw [← spans_twoLeaves, List.map_map]
      exact List.map_congr_left address
    rw [listed]
    decide
  have nonzero : ∀ w ∈ out.hashed, wireAddress spanHash w ≠ some zeroAddr := by
    intro w member
    have span := List.mem_map_of_mem (f := fun w => fromLe (w.take spanSize)) ((stored.hashed w).mp member)
    rw [address w ((stored.hashed w).mp member)]
    rw [spans_twoLeaves] at span
    have each : ∀ n ∈ [9295429630892707841, 12290, 8195, 20484, 4096, 1], some (spanHash n []) ≠ some zeroAddr := by
      decide
    exact each _ span
  have root : decide (out.root = spanHash 4096 []) = false := by
    rw [stored.root, refs twoRoot (List.mem_cons_self ..)]
    decide +kernel
  have enough : twoLeaves.Retrievable spanHash .medium fun a => !decide (a = spanHash 4096 []) := by
    refine .node _ ?_ fun c member => ?_
    · have listed : refsOf spanHash .medium [.leaf (List.replicate chunkSize 7), .leaf [7]] =
          (siblings .medium twoWires).map fun w => spanHash (fromLe (w.take spanSize)) [] := by
        rw [refsOf]
        simp only [List.map_cons, List.map_nil, Tree.specWire]
        refine List.map_congr_left fun w member => refs w ?_
        rw [List.cons_append, List.mem_cons, List.mem_append]
        exact .inr (List.mem_append.mp member).symm
      rw [listed]
      decide +kernel
    · rcases List.mem_cons.mp member with rfl | last
      · exact .leaf _
      · rw [List.mem_singleton.mp last]
        exact .leaf _
  refine ⟨out, accepted, Stream'.const ⟨0, out.store fun a => a = spanHash 4096 []⟩,
    fun _ => store_answers stored.distinct _, ?_⟩
  refine (fetch_returns_upload_iff accepted (fun v first w second same => ?_) nonzero _ root
    (objectTree_twoData ▸ enough) 1 (by decide) _ fun _ => store_answers stored.distinct _).mpr (.inl ?_)
  · exact List.inj_on_of_nodup_map nodup ((stored.hashed v).mp first) ((stored.hashed w).mp second) same
  · rw [length_twoData]
    decide

theorem Tree.Filled.retrievable {bmt : Nat → List UInt8 → Addr} {level : Level} {h : Nat} {t : Tree}
    (filled : t.Filled level h) : t.Retrievable bmt level fun _ => true := by
  induction filled with
  | leaf h payload short => exact .leaf payload
  | node g h below lower two most low high all ih =>
    refine .node below ?_ ih
    rw [List.countP_true, length_refsOf (by omega) most]
    exact Nat.le_add_right _ _

theorem fullUpload : ∃ out, splitWithRedundancy spanHash (fun _ _ => .ok []) (fullData 7) .medium = .ok out ∧
    (∀ v ∈ out.hashed, ∀ w ∈ out.hashed, wireAddress spanHash v = wireAddress spanHash w → v = w) ∧
    (∀ w ∈ out.hashed, wireAddress spanHash w ≠ some zeroAddr) ∧ (out.chunks.map (·.1)).Nodup := by
  obtain ⟨out, accepted⟩ : ∃ out, splitWithRedundancy spanHash (fun _ _ => .ok []) (fullData 7) .medium = .ok out := by
    rcases @split_spec spanHash .medium (fun _ _ => .ok []) (fullData 7) with ⟨long, -⟩ | ⟨-, _, -, -, out, accepted, -⟩
    · rw [fullData, List.length_replicate] at long
      exact absurd long (Nat.lt_irrefl _)
    · exact ⟨out, accepted⟩
  obtain ⟨-, replicas, stored⟩ := stored_of_split accepted
  rw [objectTree_fullData] at stored
  have each : ∀ w ∈ out.hashed, ∃ i ≤ 7, w = (fullTree i).specWire spanHash .medium :=
    fun w member => specWires_fullTree spanHash 7 w ((stored.hashed w).mp member)
  refine ⟨out, accepted, fun v first w second same => ?_, fun w member => ?_, stored.distinct⟩
  · obtain ⟨i, hi, rfl⟩ := each v first
    obtain ⟨j, hj, rfl⟩ := each w second
    rw [address_injective hi hj same]
  · obtain ⟨i, hi, rfl⟩ := each w member
    exact address_ne_zero hi

/-- An upload of 4096·119^7 bytes is accepted, and no run returns it from a store that lost nothing. -/
theorem full_upload_not_returned : ∃ out, splitWithRedundancy spanHash (fun _ _ => .ok []) (fullData 7) .medium = .ok out ∧
    (∀ v ∈ out.hashed, ∀ w ∈ out.hashed, wireAddress spanHash v = wireAddress spanHash w → v = w) ∧
    (∀ w ∈ out.hashed, wireAddress spanHash w ≠ some zeroAddr) ∧
    (objectTree .medium (fullData 7)).Retrievable spanHash .medium (fun _ => true) ∧
    ∃ env : Env, env.All (out.Answers (fun _ => false) ·.answer) ∧
      ∀ fuel inFlight, fetchErasureBytes fuel out.root inFlight env ≠ .ok (fullData 7) := by
  obtain ⟨out, accepted, distinct, nonzero, nodup⟩ := fullUpload
  have answers : (Stream'.const (Completion.mk 0 (out.store fun _ => false))).All
      (out.Answers (fun _ => false) ·.answer) := fun _ => store_answers nodup _
  refine ⟨out, accepted, distinct, nonzero, ?_, _, answers, fun fuel inFlight fetched => ?_⟩
  · rw [objectTree_fullData]
    exact (filled_fullTree 7).retrievable
  · rcases short_of_fetched accepted distinct nonzero rfl answers fetched with short | plain
    · rw [fullData, List.length_replicate] at short
      exact absurd short (by decide)
    · cases plain

end Hoverfly.Erasure
