import Hoverfly.Erasure.Dispersal
import Hoverfly.Erasure.RoundTrip
import Hoverfly.Lib.Map

/-! A root comes back from any one replica: the reader asks for the replicas of every narrower level too, and only
the root itself gets past the hash check. -/
namespace Hoverfly.Erasure
open Lib

def SplitOutput.replicas (out : SplitOutput) : List (Addr × Wire) :=
  out.chunks.drop (out.chunks.length - out.replicaChunks)

section
variable {bmt : Nat → List UInt8 → Addr} {keccak256 : List UInt8 → Addr} {parseError : Wire → String}
  {sign : UInt8 → Wire → Except String Soc} {root : Addr} {level : Level}

theorem unwrapReplica_some {wire inner : Wire} (opened : unwrapReplica bmt wire root = some inner) :
    wireAddress bmt inner = some root := by
  unfold unwrapReplica at opened
  split at opened
  · cases opened
  split at opened
  · cases opened
  · rename_i named
    cases opened
    exact not_not.mp named

theorem unwrapReplica_wrapped {header inner : Wire} (header_length : header.length = socPrefix)
    (named : wireAddress bmt inner = some root) : unwrapReplica bmt (header ++ inner) root = some inner := by
  have some_ : 0 < inner.length := by
    cases inner with
    | nil => simp [wireAddress, spanSize] at named
    | cons b rest => exact Nat.succ_pos _
  have body : (header ++ inner).drop socPrefix = inner := by rw [← header_length, List.drop_left]
  rw [unwrapReplica, body, if_neg (by rw [List.length_append]; omega), if_neg (not_not.mpr named)]

def Unserved (bmt : Nat → List UInt8 → Addr) (root : Addr) (good : (Addr → Except String Wire) → Prop) (a : Addr) : Prop :=
  ∃ answer, good answer ∧ ∀ wire, answer a = .ok wire → unwrapReplica bmt wire root = none

theorem takeReplica_spec {good : (Addr → Except String Wire) → Prop} (bmt : Nat → List UInt8 → Addr) (root : Addr)
    (addrs : List Addr) (i : Nat) {answer : Addr → Except String Wire} (kind : good answer) :
    match takeReplica bmt root addrs i answer () with
    | .error inner => wireAddress bmt inner = some root
    | .ok () => ∀ a, addrs[i]? = some a → Unserved bmt root good a := by
  unfold takeReplica
  cases here : addrs[i]? with
  | none =>
    intro a found
    cases found
  | some a =>
    cases got : answer a with
    | error text =>
      simp only [Option.map_some, got]
      rintro _ ⟨⟩
      exact ⟨answer, kind, fun wire served => by rw [got] at served; cases served⟩
    | ok wire =>
      simp only [Option.map_some, got]
      cases opened : unwrapReplica bmt wire root with
      | none =>
        rintro _ ⟨⟩
        exact ⟨answer, kind, fun other served => by rw [got] at served; cases served; exact opened⟩
      | some inner => exact unwrapReplica_some opened

theorem recoverRoot_spec (bmt : Nat → List UInt8 → Addr) (keccak256 : List UInt8 → Addr) (root : Addr) (level : Level)
    (good : (Addr → Except String Wire) → Prop) {env : Stream' (Completion (Addr → Except String Wire))}
    (answers : env.All (good ·.answer)) :
    match recoverRoot bmt keccak256 root level env with
    | some wire => wireAddress bmt wire = some root
    | none => ∀ a ∈ replicaAddresses keccak256 root level, Unserved bmt root good a := by
  unfold recoverRoot
  generalize replicaAddresses keccak256 root level = addrs
  by_cases none_ : addrs = []
  · simp [none_]
  have some_ := List.length_pos_iff.mpr none_
  have ends : Window.Ends addrs.length
      (fun seen (_ : Unit) => ∀ i ∈ seen, ∀ a, addrs[i]? = some a → Unserved bmt root good a)
      (fun inner => wireAddress bmt inner = some root)
      (Window.drain addrs.length (takeReplica bmt root addrs) addrs.length
        (.start (min recoverWindow addrs.length)) () env).1 := by
    refine (Window.drain_spec (fun seen i answer _ _ _ kind before => ?_) addrs.length
      (Window.covers_start (Nat.min_le_right _ _) (.inl (Nat.lt_min.mpr ⟨by decide, some_⟩))) (Nat.le_refl _)
      (by simp) answers).1
    have next := takeReplica_spec bmt root addrs i kind
    cases stepped : takeReplica bmt root addrs i answer () with
    | error inner => simpa only [stepped] using next
    | ok done =>
      simp only [stepped] at next
      rintro j (_ | ⟨_, member⟩)
      · exact next
      · exact before j member
  rw [if_neg none_]
  generalize Window.drain addrs.length (takeReplica bmt root addrs) addrs.length
    (.start (min recoverWindow addrs.length)) () env = drained at ends
  obtain ⟨inner | ⟨⟩, rest⟩ := drained
  · exact ends
  · obtain ⟨seen, all, tried⟩ := ends
    intro a member
    obtain ⟨i, inside, rfl⟩ := List.getElem_of_mem member
    exact tried i (all.mem_iff.mpr (List.mem_range.mpr inside)) _ (List.getElem?_eq_getElem inside)

theorem mem_replicaAddresses {c : Candidate} (coded : level ≠ .none) (mined : c ∈ Replicator.run keccak256 root level) :
    c.addr ∈ replicaAddresses keccak256 root defaultDownloadLevel := by
  have deepest : level.depth ≤ defaultDownloadLevel.depth := by cases level <;> decide
  rw [Replicator.run_take keccak256 root coded deepest] at mined
  exact List.mem_map_of_mem (List.mem_of_mem_take mined)

theorem mem_dispersedReplicas {rootWire : Wire} {replicas : List (Addr × Wire)} {p : Addr × Wire} (coded : level ≠ .none)
    (built : dispersedReplicas bmt keccak256 parseError sign rootWire level = .ok replicas)
    (named : wireAddress bmt rootWire = some root) (member : p ∈ replicas) :
    ∃ c ∈ Replicator.run keccak256 root level, ∃ soc, sign c.mined rootWire = .ok soc ∧ p = (c.addr, soc.wire) := by
  unfold dispersedReplicas at built
  rw [if_neg coded, named] at built
  obtain ⟨c, mined, signed⟩ := mem_of_mapM _ _ _ built p member
  unfold signReplica at signed
  cases made : sign c.mined rootWire with
  | error text =>
    rw [made] at signed
    cases signed
  | ok soc =>
    simp only [made] at signed
    split at signed
    · cases signed
    · rename_i same
      cases signed
      exact ⟨c, mined, soc, made, by rw [not_not.mp same]⟩

end

/-- An upload's root is recovered from any one replica the store serves, whatever it serves at the other
addresses and in whatever order the fetches end; and no store has other bytes returned for the root. -/
theorem root_recovered_from_any_replica (bmt : Nat → List UInt8 → Addr) (keccak256 : List UInt8 → Addr)
    (parseError : Wire → String) (sign : UInt8 → Wire → Except String Soc)
    (wrapped : ∀ mined wire soc, sign mined wire = .ok soc →
      ∃ header : List UInt8, header.length = 32 + 65 ∧ soc.wire = header ++ wire) :
    (∀ (data : List UInt8) (level : Level) (out : SplitOutput), level ≠ .none →
      splitWithRedundancy bmt (dispersedReplicas bmt keccak256 parseError sign) data level = .ok out →
      (∀ v w, wireAddress bmt v = some out.root → wireAddress bmt w = some out.root → v = w) →
      ∀ replica ∈ out.replicas, ∀ env : Stream' (Completion (Addr → Except String Wire)),
        env.All (fun done => done.answer replica.1 = .ok replica.2) →
        ∃ wire, out.lookup out.root = some wire ∧
          recoverRoot bmt keccak256 out.root defaultDownloadLevel env = some wire) ∧
    ∀ (root : Addr) (level : Level) (env : Stream' (Completion (Addr → Except String Wire))) (wire : Wire),
      recoverRoot bmt keccak256 root level env = some wire → wireAddress bmt wire = some root := by
  constructor
  · intro data level out coded accepted distinct replica emitted env serves
    obtain ⟨-, rootWire, replicas, named, built, stored⟩ := replicas_of_split accepted
    obtain ⟨own, added, chunks, count, members, kept, found⟩ := stored.chunks
    obtain ⟨⟨a, wire⟩, here, address⟩ := found _ (specWire_mem_specWires bmt level (objectTree level data))
    have root : out.root = a := by rw [stored.root, reference, address]; rfl
    have hashes : wireAddress bmt wire = some out.root := root ▸ (kept _ here).1
    have rootHashes : wireAddress bmt rootWire = some out.root := by rw [named, address, root]
    have same : rootWire = wire := distinct _ _ rootHashes hashes
    refine ⟨wire, (lookup_iff stored.distinct).mpr (chunks ▸ List.mem_append_left _ (root ▸ here)), ?_⟩
    -- the replica served is among the addresses searched, and unwraps to the root
    have late : replica ∈ added := by
      have drop : out.replicas = added := by
        rw [SplitOutput.replicas, chunks, List.length_append, count, Nat.add_sub_cancel, List.drop_left]
      exact drop ▸ emitted
    obtain ⟨c, mined, soc, signed, rfl⟩ := mem_dispersedReplicas coded built rootHashes (members _ late)
    obtain ⟨header, length, wrapping⟩ := wrapped _ _ _ signed
    have ends := recoverRoot_spec bmt keccak256 out.root defaultDownloadLevel (· c.addr = .ok soc.wire) serves
    cases recovered : recoverRoot bmt keccak256 out.root defaultDownloadLevel env with
    | some got =>
      rw [recovered] at ends
      rw [distinct _ _ ends hashes]
    | none =>
      rw [recovered] at ends
      obtain ⟨answer, served, unopened⟩ := ends c.addr (mem_replicaAddresses coded mined)
      have opened := unwrapReplica_wrapped length rootHashes
      rw [← wrapping, unopened soc.wire served] at opened
      cases opened
  · intro root level env wire recovered
    have ends := @recoverRoot_spec bmt keccak256 root level (fun _ => True) env fun _ => trivial
    rw [recovered] at ends
    exact ends

def emptyHash (span : Nat) (payload : List UInt8) : Addr :=
  Replicator.spreadHash (if span = 0 ∧ payload = [] then [1] else [2])

def zeroSign (mined : UInt8) (wire : Wire) : Except String Soc :=
  .ok { address := Replicator.spreadHash [mined], wire := List.replicate 97 0 ++ wire }

def emptySplit : Except Stop SplitOutput :=
  splitWithRedundancy emptyHash (dispersedReplicas emptyHash Replicator.spreadHash (fun _ => "") zeroSign) [] .medium

theorem emptySplit_view : (emptySplit.toOption.map fun out => (out.root, out.replicas.map (·.1))) =
    some (Replicator.spreadHash [1], [Replicator.spreadHash [0], Replicator.spreadHash [8]]) := by
  decide +kernel

theorem emptyHash_root {wire : Wire} (named : wireAddress emptyHash wire = some (Replicator.spreadHash [1])) :
    wire = toLe 8 0 := by
  unfold wireAddress emptyHash at named
  split at named
  · cases named
  rename_i sized
  split at named
  · rename_i zero
    have length : (wire.take spanSize).length = 8 := by
      rw [List.length_take, spanSize]
      rw [spanSize] at sized
      omega
    have span := toLe_fromLe (wire.take spanSize)
    rw [length, zero.1] at span
    rw [span, ← List.append_nil (wire.take spanSize), ← zero.2, List.take_append_drop]
  · exact absurd (Option.some.inj named) (by decide)

theorem root_recovered_empty : ∃ out, emptySplit = .ok out ∧
    ∃ replica ∈ out.replicas, ∃ wire, out.lookup out.root = some wire ∧
      recoverRoot emptyHash Replicator.spreadHash out.root defaultDownloadLevel
        (Stream'.const ⟨0, fun a => .ok (if a = replica.1 then replica.2 else [])⟩) = some wire := by
  obtain ⟨out, found, view⟩ := Option.map_eq_some_iff.mp emptySplit_view
  have accepted : emptySplit = .ok out := by
    cases made : emptySplit with
    | error stop =>
      rw [made] at found
      cases found
    | ok other =>
      rw [made] at found
      cases found
      rfl
  obtain ⟨root, addresses⟩ := Prod.mk.inj view
  have some_ : out.replicas ≠ [] := by
    intro none_
    rw [none_] at addresses
    cases addresses
  obtain ⟨replica, rest, replicas⟩ := List.exists_cons_of_ne_nil some_
  refine ⟨out, accepted, replica, by simp [replicas], ?_⟩
  refine (root_recovered_from_any_replica emptyHash Replicator.spreadHash (fun _ => "") zeroSign ?_).1 [] .medium out
    (by decide) accepted ?_ replica (by simp [replicas]) _ fun n => ?_
  · intro mined wire soc signed
    cases signed
    exact ⟨_, List.length_replicate, rfl⟩
  · intro v w first second
    rw [root] at first second
    rw [emptyHash_root first, emptyHash_root second]
  · exact congrArg Except.ok (if_pos rfl)

end Hoverfly.Erasure
