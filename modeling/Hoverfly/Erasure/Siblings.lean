import Hoverfly.Erasure.Joiner
import Hoverfly.Erasure.Tree
import Hoverfly.Lib.Fold

/-! What the joiner makes of a node's siblings, whichever of them it gets and in whatever order:
every data child is the chunk under its reference or the shard its codeword has in that place. -/
namespace Hoverfly.Erasure
open Lib

/-- A store answers with nothing but the chunk under an address, and always has those that are `kept`. -/
structure Serves (content : Addr → Option Wire) (kept : Addr → Bool) (answer : Answer) : Prop where
  true_ : ∀ a w, answer a = .ok w → content a = some w
  sure : ∀ a, kept a = true → ∃ w, answer a = .ok w

section
variable (content : Addr → Option Wire) (addrs : List Addr)

def Fetched (i : Nat) (dc : DecodedChunk) : Prop :=
  ∃ a w, addrs[i]? = some a ∧ content a = some w ∧ DecodedChunk.fromWire w = .ok dc

/-- A data child is its own chunk, or is read off shard `i` of the codeword. -/
def Child (shards : List Wire) (i : Nat) (dc : DecodedChunk) : Prop :=
  Fetched content addrs i dc ∨ decodeWire (shards.getD i []) = .ok dc

def Whole : Prop := ∀ a ∈ addrs, ∀ w, content a = some w → spanSize ≤ w.length

end

variable {wire : Wire}

theorem fromWire_ok (whole : spanSize ≤ wire.length) :
    DecodedChunk.fromWire wire = .ok { rawSpan := fromLe (wire.take spanSize), data := wire.drop spanSize } :=
  if_neg (Nat.not_lt.mpr whole)

theorem decodeWire_ok (whole : spanSize ≤ wire.length) : ∃ dc, decodeWire wire = .ok dc :=
  ⟨_, if_neg (Nat.not_lt.mpr whole)⟩

theorem toWirePadded_fromWire (whole : spanSize ≤ wire.length) (size : Nat) :
    toWirePadded { rawSpan := fromLe (wire.take spanSize), data := wire.drop spanSize } size = padTo size wire := by
  have span := toLe_fromLe (wire.take spanSize)
  rw [List.length_take, Nat.min_eq_left whole] at span
  rw [toWirePadded, span, List.take_append_drop]

theorem unwrapAll_map (dcs : List DecodedChunk) : unwrapAll (dcs.map some) = .ok dcs := by
  induction dcs with
  | nil => rfl
  | cons dc rest ih => rw [List.map_cons, unwrapAll, ih]

section
variable {content : Addr → Option Wire} {kept : Addr → Bool} {addrs : List Addr}

def Lacking (kept : Addr → Bool) (addrs : List Addr) (need : Nat) : Prop := addrs.countP kept < need

structure Direct (content : Addr → Option Wire) (addrs : List Addr) (seen : List Nat)
    (slots : List (Option DecodedChunk)) : Prop where
  length : slots.length = addrs.length
  own : ∀ i dc, slots[i]? = some (some dc) → Fetched content addrs i dc
  filled : ∀ i ∈ seen, ∃ dc, slots[i]? = some (some dc)

variable {i : Nat} {seen : List Nat} {race : Race} {env : Env}

theorem lacking_of_lost {a : Addr} (found : addrs[i]? = some a) (lost : kept a = false) :
    Lacking kept addrs addrs.length := by
  refine Nat.lt_of_le_of_ne List.countP_le_length fun all => ?_
  have here := List.countP_eq_length.mp all a (List.mem_of_getElem? found)
  rw [lost] at here
  cases here

theorem takeDirect_spec (whole : Whole content addrs) {answer : Answer}
    {slots : List (Option DecodedChunk)} (inside : i < addrs.length) (serves : Serves content kept answer)
    (direct : Direct content addrs seen slots) :
    match takeDirect addrs i answer slots with
    | .ok slots => Direct content addrs (i :: seen) slots
    | .error _ => Lacking kept addrs addrs.length := by
  have found : addrs[i]? = some addrs[i] := List.getElem?_eq_getElem inside
  unfold takeDirect
  rw [found, Option.map_some]
  cases got : answer addrs[i] with
  | error text =>
    refine lacking_of_lost found ?_
    by_contra sure
    obtain ⟨w, has⟩ := serves.sure _ (by simpa using sure)
    rw [got] at has
    cases has
  | ok wire =>
    have held := serves.true_ _ _ got
    have long := whole _ (List.getElem_mem inside) wire held
    simp only [fromWire_ok long]
    have fetched : Fetched content addrs i _ := ⟨_, wire, found, held, fromWire_ok long⟩
    refine ⟨by rw [List.length_set]; exact direct.length, fun j dc at_j => ?_, fun j member => ?_⟩
    · rw [List.getElem?_set] at at_j
      split at at_j
      · rename_i same
        subst same
        split at at_j
        · cases at_j
          exact fetched
        · cases at_j
      · exact direct.own j dc at_j
    · rw [List.getElem?_set]
      split
      · rename_i same
        rw [if_pos (by rw [direct.length]; exact same ▸ inside)]
        exact ⟨_, rfl⟩
      · rename_i other
        exact direct.filled j ((List.mem_cons.mp member).resolve_left fun same => other same.symm)

/-- The chunks under the references are the shards of the codeword of `shards`. -/
def Coded (content : Addr → Option Wire) (addrs : List Addr) (rs : ReedSolomon) (shards : List Wire) : Prop :=
  ∀ i a w, addrs[i]? = some a → content a = some w →
    padTo chunkWithSpan w = rs.shard shards chunkWithSpan i

structure Landed (content : Addr → Option Wire) (kept : Addr → Bool) (addrs : List Addr) (rs : ReedSolomon)
    (shards : List Wire) (seen : List Nat) (race : Race) : Prop where
  nodup : seen.Nodup
  range : ∀ i ∈ seen, i < addrs.length
  total : race.rsShards.length = addrs.length
  data : race.decodedData.length = shards.length
  coded : ∀ i s, race.rsShards[i]? = some (some s) → s = rs.shard shards chunkWithSpan i
  own : ∀ i dc, race.decodedData[i]? = some (some dc) → Fetched content addrs i dc
  empty : ∀ i < addrs.length, i ∉ seen → race.rsShards[i]? = some none
  present : race.present = race.rsShards.countP Option.isSome
  all : race.present + race.failed = seen.length
  failed : race.failed ≤ seen.countP fun i => !(addrs[i]?).any kept

variable {rs : ReedSolomon} {shards : List Wire}

def Over (kept : Addr → Bool) (addrs : List Addr) (need : Nat) (race : Race) : Prop :=
  need ≤ race.present ∨ Lacking kept addrs need

def Next (content : Addr → Option Wire) (kept : Addr → Bool) (addrs : List Addr) (rs : ReedSolomon)
    (shards : List Wire) (seen : List Nat) : Except (Except ErasureError Race) Race → Prop
  | .ok race => Landed content kept addrs rs shards seen race
  | .error (.ok race) => Landed content kept addrs rs shards seen race ∧ Over kept addrs shards.length race
  | .error (.error _) => False

theorem Landed.took (landed : Landed content kept addrs rs shards seen race)
    {wire : Wire} {dc : DecodedChunk} (inside : i < addrs.length) (fresh : i ∉ seen)
    (fetched : Fetched content addrs i dc) (coded : wire = rs.shard shards chunkWithSpan i) :
    Landed content kept addrs rs shards (i :: seen)
      { race with
        rsShards := race.rsShards.set i (some wire)
        decodedData := if i < shards.length then race.decodedData.set i (some dc) else race.decodedData
        present := race.present + 1 } where
  nodup := List.nodup_cons.mpr ⟨fresh, landed.nodup⟩
  range := by
    intro j member
    rcases List.mem_cons.mp member with rfl | before
    · exact inside
    · exact landed.range j before
  total := by rw [List.length_set, landed.total]
  data := by
    dsimp only
    split
    · rw [List.length_set, landed.data]
    · exact landed.data
  coded := by
    intro j s at_j
    rw [List.getElem?_set] at at_j
    split at at_j
    · rename_i same
      split at at_j
      · cases at_j
        exact same ▸ coded
      · cases at_j
    · exact landed.coded j s at_j
  own := by
    intro j other at_j
    dsimp only at at_j
    split at at_j
    · rw [List.getElem?_set] at at_j
      split at at_j
      · rename_i same
        split at at_j
        · cases at_j
          exact same ▸ fetched
        · cases at_j
      · exact landed.own j other at_j
    · exact landed.own j other at_j
  empty := by
    intro j below unseen
    have other : i ≠ j := fun same => unseen (same ▸ List.mem_cons_self ..)
    rw [List.getElem?_set_ne other]
    exact landed.empty j below fun before => unseen (List.mem_cons_of_mem _ before)
  present := by
    have blank := landed.empty i inside fresh
    obtain ⟨within, none_⟩ := List.getElem?_eq_some_iff.mp blank
    rw [List.countP_set within, none_, landed.present]
    simp
  all := by
    have := landed.all
    rw [List.length_cons]
    dsimp only
    omega
  failed := by
    have := landed.failed
    rw [List.countP_cons]
    dsimp only
    omega

theorem Landed.missed (landed : Landed content kept addrs rs shards seen race)
    {a : Addr} (fresh : i ∉ seen) (found : addrs[i]? = some a) (lost : kept a = false) :
    Landed content kept addrs rs shards (i :: seen) { race with failed := race.failed + 1 } where
  nodup := List.nodup_cons.mpr ⟨fresh, landed.nodup⟩
  range := by
    intro j member
    rcases List.mem_cons.mp member with rfl | before
    · exact (List.getElem?_eq_some_iff.mp found).1
    · exact landed.range j before
  total := landed.total
  data := landed.data
  coded := landed.coded
  own := landed.own
  empty := fun j below unseen => landed.empty j below fun before => unseen (List.mem_cons_of_mem _ before)
  present := landed.present
  all := by
    have := landed.all
    rw [List.length_cons]
    dsimp only
    omega
  failed := by
    have := landed.failed
    rw [List.countP_cons, found, Option.any_some, lost]
    simpa using this

theorem takeSibling_spec (whole : Whole content addrs) (coded : Coded content addrs rs shards)
    {answer : Answer} (inside : i < addrs.length) (fresh : i ∉ seen)
    (serves : Serves content kept answer) (landed : Landed content kept addrs rs shards seen race) :
    Next content kept addrs rs shards (i :: seen) (takeSibling addrs shards.length i answer race) := by
  have found : addrs[i]? = some addrs[i] := List.getElem?_eq_getElem inside
  unfold takeSibling
  rw [found, Option.map_some]
  cases got : answer addrs[i] with
  | ok wire =>
    have held := serves.true_ _ _ got
    have long := whole _ (List.getElem_mem inside) wire held
    simp only [fromWire_ok long, toWirePadded_fromWire long]
    have next := landed.took inside fresh ⟨_, wire, found, held, fromWire_ok long⟩ (coded i _ wire found held)
    split
    · rename_i enough
      exact ⟨next, .inl enough⟩
    · exact next
  | error text =>
    have lost : kept addrs[i] = false := by
      by_contra sure
      obtain ⟨w, has⟩ := serves.sure _ (by simpa using sure)
      rw [got] at has
      cases has
    have next := landed.missed fresh found lost
    dsimp only
    split
    · rename_i few
      refine ⟨next, .inr ?_⟩
      have failed := next.failed
      have missed := countP_missed kept addrs next.nodup next.range
      unfold Lacking
      dsimp only at failed
      omega
    · exact next

/-- What the data children of a node come out as, or what stands in the way. -/
def Gathers (content : Addr → Option Wire) (kept : Addr → Bool) (addrs : List Addr) (shards : List Wire) :
    Except Halt (List DecodedChunk) → Prop
  | .ok dcs => dcs.length = shards.length ∧ ∀ i dc, dcs[i]? = some dc → Child content addrs shards i dc
  | .error _ => Lacking kept addrs shards.length

theorem unwrapAll_spec {slots : List (Option DecodedChunk)} (full : ∀ x ∈ slots, x.isSome = true)
    (own : ∀ i dc, slots[i]? = some (some dc) → Fetched content addrs i dc) (count : slots.length = shards.length) :
    Gathers content kept addrs shards (unwrapAll slots) := by
  obtain ⟨dcs, rfl⟩ := exists_map_some full
  rw [unwrapAll_map]
  refine ⟨by simpa using count, fun i dc at_i => .inl (own i dc ?_)⟩
  rw [List.getElem?_map, at_i, Option.map_some]

theorem Landed.over (landed : Landed content kept addrs rs shards seen race)
    (every : seen.length = addrs.length) : Over kept addrs shards.length race := by
  by_cases enough : shards.length ≤ race.present
  · exact .inl enough
  · have missed := countP_missed kept addrs landed.nodup landed.range
    have := landed.all
    have := landed.failed
    refine .inr ?_
    unfold Lacking
    omega

theorem childAt_spec (landed : Landed content kept addrs rs shards seen race)
    (sized : ∀ s ∈ shards, s.length = chunkWithSpan) {rebuilt : List (Option Wire)}
    (whole : ∀ i < shards.length, rebuilt[i]? = some (some (shards.getD i []))) {slot : Option DecodedChunk × Nat}
    (member : slot ∈ race.decodedData.zipIdx) :
    ∃ dc, childAt rebuilt slot = .ok dc ∧ Child content addrs shards slot.2 dc := by
  have found := List.mem_zipIdx_iff_getElem?.mp member
  obtain ⟨got, i⟩ := slot
  unfold childAt
  cases got with
  | some dc => exact ⟨dc, rfl, .inl (landed.own i dc found)⟩
  | none =>
    have inside : i < shards.length := landed.data ▸ (List.getElem?_eq_some_iff.mp found).1
    have here := whole i inside
    have long := sized _ (List.getElem_mem inside)
    rw [List.getD_eq_getElem?_getD, List.getElem?_eq_getElem inside, Option.getD_some] at here
    simp only [List.getD_eq_getElem?_getD, here, Option.getD_some]
    obtain ⟨dc, parsed⟩ : ∃ dc, decodeWire shards[i] = .ok dc := decodeWire_ok (by rw [long]; decide)
    refine ⟨dc, parsed, .inr ?_⟩
    rw [List.getD_eq_getElem?_getD, List.getElem?_eq_getElem inside]
    exact parsed

theorem materialise_spec {k p : Nat} (made : ReedSolomon.new k p = .ok rs) (fit : rs.Fit k p) (pos : 0 < k)
    (count : shards.length = k) (sized : ∀ s ∈ shards, s.length = chunkWithSpan) (split : addrs.length = k + p)
    (landed : Landed content kept addrs rs shards seen race)
    (beyond : Over kept addrs k race) : Gathers content kept addrs shards (materialise k p race) := by
  unfold materialise
  split
  · rename_i few
    rw [Gathers, count]
    exact beyond.resolve_left (Nat.not_le.mpr few)
  rename_i enough
  split
  · rename_i all
    refine unwrapAll_spec (List.countP_eq_length.mp ?_) landed.own landed.data
    rw [all, landed.data, count]
  obtain ⟨rebuilt, decoded, whole⟩ := ReedSolomon.reconstruct_spec fit pos count sized
    (landed.total.trans split) landed.coded (landed.present ▸ Nat.not_lt.mp enough)
  rw [← count] at whole
  obtain ⟨dcs, mapped, length, each⟩ := mapM_ok (childAt rebuilt) fun slot member =>
    (childAt_spec landed sized whole member).imp fun dc both => both.1
  rw [made]
  simp only [decoded, mapped]
  refine ⟨by rw [length, List.length_zipIdx, landed.data], fun i dc at_i => ?_⟩
  have inside : i < race.decodedData.length := by
    have := (List.getElem?_eq_some_iff.mp at_i).1
    rw [length, List.length_zipIdx] at this
    exact this
  have slot : race.decodedData.zipIdx[i]? = some (race.decodedData[i], i) := by
    rw [List.getElem?_zipIdx, List.getElem?_eq_getElem inside]
    simp
  obtain ⟨dc', parsed, child⟩ := childAt_spec landed sized whole (List.mem_of_getElem? slot)
  have same := each i _ dc slot at_i
  rw [parsed] at same
  cases same
  exact child

/-- The chunks under a node's references, `shards.length` of them data, are shards of one codeword. -/
structure Codeword (content : Addr → Option Wire) (addrs : List Addr) (shards : List Wire) : Prop where
  some_ : 0 < shards.length
  most : shards.length ≤ addrs.length
  fits : addrs.length ≤ 256
  sized : ∀ s ∈ shards, s.length = chunkWithSpan
  whole : Whole content addrs
  coded : ∀ rs, ReedSolomon.new shards.length (addrs.length - shards.length) = .ok rs → Coded content addrs rs shards

theorem clamp_window {total : Nat} (some_ : 0 < total) (inFlight : Nat) :
    0 < clamp inFlight 1 total ∧ clamp inFlight 1 total ≤ total := by
  unfold clamp
  split
  · omega
  · split <;> omega

theorem landed_start (content : Addr → Option Wire) (kept : Addr → Bool) (addrs : List Addr) (rs : ReedSolomon)
    (shards : List Wire) :
    Landed content kept addrs rs shards []
      { rsShards := List.replicate addrs.length none, decodedData := List.replicate shards.length none } where
  nodup := List.nodup_nil
  range := by simp
  total := List.length_replicate
  data := List.length_replicate
  coded := by simp [List.getElem?_replicate]
  own := by simp [List.getElem?_replicate]
  empty := by simp +contextual
  present := by simp [List.countP_replicate]
  all := rfl
  failed := Nat.zero_le _

theorem drain_direct (whole : Whole content addrs) (some_ : 0 < addrs.length) (inFlight : Nat)
    (serves : env.All (Serves content kept ·.answer)) :
    let drained := Window.drain addrs.length (takeDirect addrs) addrs.length
      (.start (clamp inFlight 1 addrs.length)) (List.replicate addrs.length none) env
    Window.Ends addrs.length (Direct content addrs) (fun _ => Lacking kept addrs addrs.length) drained.1 ∧
      drained.2.All (Serves content kept ·.answer) := by
  obtain ⟨busy, bound⟩ := clamp_window some_ inFlight
  have start : Direct content addrs [] (List.replicate addrs.length none) :=
    ⟨List.length_replicate, by simp [List.getElem?_replicate], by simp⟩
  refine Window.drain_spec (fun seen i answer slots inside _ good direct => ?_) addrs.length
    (Window.covers_start bound (.inl busy)) (Nat.le_refl _) start serves
  have next := takeDirect_spec whole inside good direct
  cases stepped : takeDirect addrs i answer slots with
  | ok slots => simpa only [stepped] using next
  | error e => simpa only [stepped] using next

def Early (content : Addr → Option Wire) (kept : Addr → Bool) (addrs : List Addr) (rs : ReedSolomon)
    (shards : List Wire) : Except ErasureError Race → Prop
  | .ok race => ∃ seen, Landed content kept addrs rs shards seen race ∧ Over kept addrs shards.length race
  | .error _ => False

theorem drain_race (whole : Whole content addrs) (coded : Coded content addrs rs shards) (some_ : 0 < addrs.length)
    (inFlight : Nat) (serves : env.All (Serves content kept ·.answer)) :
    let drained := Window.drain addrs.length (takeSibling addrs shards.length) addrs.length
      (.start (clamp inFlight 1 addrs.length))
      { rsShards := List.replicate addrs.length none, decodedData := List.replicate shards.length none } env
    Window.Ends addrs.length (Landed content kept addrs rs shards) (Early content kept addrs rs shards) drained.1 ∧
      drained.2.All (Serves content kept ·.answer) := by
  obtain ⟨busy, bound⟩ := clamp_window some_ inFlight
  refine Window.drain_spec (fun seen i answer race inside fresh good landed => ?_) addrs.length
    (Window.covers_start bound (.inl busy)) (Nat.le_refl _) (landed_start content kept addrs rs shards) serves
  have next := takeSibling_spec whole coded inside fresh good landed
  cases stepped : takeSibling addrs shards.length i answer race with
  | ok race =>
    rw [stepped] at next
    exact next
  | error ended =>
    rw [stepped] at next
    cases ended with
    | ok race => exact ⟨_, next⟩
    | error e => exact next

theorem fetchNodeChildren_spec (codeword : Codeword content addrs shards) (inFlight : Nat)
    (serves : env.All (Serves content kept ·.answer)) :
    Gathers content kept addrs shards (fetchNodeChildren addrs shards.length inFlight env).1 ∧
      (fetchNodeChildren addrs shards.length inFlight env).2.All (Serves content kept ·.answer) := by
  have some_ := codeword.some_
  have most := codeword.most
  unfold fetchNodeChildren
  dsimp only
  split
  · rename_i plain
    have total : shards.length = addrs.length := by omega
    have window : max shards.length 1 = addrs.length := by omega
    rw [window, total]
    obtain ⟨ended, later⟩ := drain_direct codeword.whole (total ▸ some_) inFlight serves
    split
    · rename_i drained
      rw [drained] at ended later
      exact ⟨by rw [Gathers, total]; exact ended, later⟩
    · rename_i slots env drained
      rw [drained] at ended later
      obtain ⟨seen, all, direct⟩ := ended
      refine ⟨unwrapAll_spec (fun x member => ?_) direct.own (direct.length.trans total.symm), later⟩
      obtain ⟨i, at_i⟩ := List.mem_iff_getElem?.mp member
      have inside : i < addrs.length := direct.length ▸ (List.getElem?_eq_some_iff.mp at_i).1
      obtain ⟨dc, filled⟩ := direct.filled i (all.mem_iff.mpr (List.mem_range.mpr inside))
      rw [filled] at at_i
      cases at_i
      rfl
  · rename_i parities
    have split : addrs.length = shards.length + (addrs.length - shards.length) := by omega
    obtain ⟨rs, made, fit⟩ := ReedSolomon.new_fit some_ (split ▸ codeword.fits)
    have coded := codeword.coded rs made
    obtain ⟨ended, later⟩ := drain_race codeword.whole coded (by omega) inFlight serves
    have out : ∀ seen race, Landed content kept addrs rs shards seen race → Over kept addrs shards.length race →
        Gathers content kept addrs shards (materialise shards.length (addrs.length - shards.length) race) :=
      fun seen race => materialise_spec made fit some_ rfl codeword.sized split
    split
    · rename_i drained
      rw [drained] at ended
      exact ended.elim
    · rename_i drained
      rw [drained] at ended later
      obtain ⟨seen, landed, beyond⟩ := ended
      exact ⟨out seen _ landed beyond, later⟩
    · rename_i drained
      rw [drained] at ended later
      obtain ⟨seen, all, landed⟩ := ended
      exact ⟨out seen _ landed (landed.over (by rw [all.length_eq, List.length_range])), later⟩

end

end Hoverfly.Erasure
