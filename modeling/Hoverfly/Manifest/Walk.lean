import Hoverfly.Lib.Fold
import Hoverfly.Lib.Text
import Hoverfly.Lib.Trie
import Hoverfly.Manifest.Node

/-! Listing a manifest and looking a path up in it. Both fetch the nodes one by one, and `fuel` bounds
the descent. What a manifest means is a radix tree; `Stored` says that the chunks hold it. -/
namespace Hoverfly.Manifest
open Lib

def entryMetadataContentTypeKey : String := "Content-Type"
def websiteIndexDocumentSuffixKey : String := "website-index-document"

inductive ClientError where
  | manifest (reason : String)
deriving DecidableEq

def ClientError.message : ClientError → String
  | .manifest reason => s!"manifest: {reason}"

structure ManifestEntry where
  path : String
  reference : String
  contentType : Option String
deriving DecidableEq

structure Reader where
  /-- The width of `usize`. -/
  w : Nat
  /-- The JSON reader of a map of strings. -/
  parse : List UInt8 → Except String Metadata
  get : Bytes 32 → Except String (List UInt8)
  display : Bytes 32 → String
  /-- `from_utf8_lossy` of bytes that are not UTF-8. -/
  repair : List UInt8 → String

def extractIndexDocument (node : Node) : Option String :=
  let named (fork : Fork) : Option String :=
    (fork.metadata.lookup websiteIndexDocumentSuffixKey).filter (· ≠ "")
  match (node.forks.lookup 0x2f).bind named with
  | some idx => some idx
  | none => node.forks.findSome? fun e => named e.2

namespace Reader
variable (rd : Reader)

def fetchNode (addr : Bytes 32) : Checked ClientError Node :=
  match rd.get addr with
  | .error e => .fail (.manifest s!"fetch node {rd.display addr}: {e}")
  | .ok data =>
    match decodeNode rd.w rd.parse data with
    | .ok node => .ok node
    | .error (.error e) => .fail (.manifest e.message)
    | .error (.panic p) => .error (.panic p)

def fromUtf8Lossy (bs : List UInt8) : String := (fromUtf8 bs).getD (rd.repair bs)

/-- The loop of `lookup_manifest_path`; `none` when the fuel runs out. -/
def lookupFrom (path : String) : Nat → Bytes 32 → List UInt8 → Option String → Bool →
    Option (Checked ClientError (Bytes 32 × Option String))
  | 0, _, _, _, _ => none
  | fuel + 1, current, remaining, lastContentType, indexRedirected =>
    match rd.fetchNode current with
    | .error stop => some (.error stop)
    | .ok node =>
      match remaining with
      | [] =>
        match node.entry with
        | some addr => some (.ok (addr, lastContentType))
        | none =>
          match if indexRedirected then none else extractIndexDocument node with
          | some idx => lookupFrom path fuel current (utf8 idx) lastContentType true
          | none => some (.fail (.manifest s!"path {path} has no entry"))
      | first :: _ =>
        match node.forks.lookup first with
        | none => some (.fail (.manifest s!"no fork for {path}"))
        | some fork =>
          if fork.prefixBytes.isPrefixOf remaining then
            lookupFrom path fuel fork.reference (remaining.drop fork.prefixBytes.length)
              ((fork.metadata.lookup entryMetadataContentTypeKey).or lastContentType) indexRedirected
          else some (.fail (.manifest s!"path {path} doesn't match fork prefix"))

def lookupManifestPath (fuel : Nat) (root : Bytes 32) (path : String) :
    Option (Checked ClientError (Bytes 32 × Option String)) :=
  rd.lookupFrom path fuel root (utf8 path) none false

def walkForks (visit : Bytes 32 → List UInt8 → Option (Checked ClientError (List ManifestEntry)))
    (pathSoFar : List UInt8) :
    List (UInt8 × Fork) → List ManifestEntry → Option (Checked ClientError (List ManifestEntry))
  | [], out => some (.ok out)
  | (_, fork) :: rest, out =>
    match visit fork.reference (pathSoFar ++ fork.prefixBytes) with
    | some (.ok below) => walkForks visit pathSoFar rest (out ++ below)
    | stopped => stopped

def entryAt (path : List UInt8) (addr : Bytes 32) : ManifestEntry :=
  { path := rd.fromUtf8Lossy path, reference := hexEncode addr.val, contentType := none }

def walkManifest : Nat → Bytes 32 → List UInt8 → Option (Checked ClientError (List ManifestEntry))
  | 0, _, _ => none
  | fuel + 1, addr, pathSoFar =>
    match rd.fetchNode addr with
    | .error stop => some (.error stop)
    | .ok node =>
      walkForks (walkManifest fuel) pathSoFar node.forks ((node.entry.map (rd.entryAt pathSoFar)).toList)

end Reader

/-- Every fork is keyed by the first byte of its prefix, and none names an index document. -/
structure Regular (node : Node) : Prop where
  keyed : ∀ e ∈ node.forks, e.2.prefixBytes.head? = some e.1
  noIndex : ∀ e ∈ node.forks, e.2.metadata.lookup websiteIndexDocumentSuffixKey = none

/-- A finite manifest of regular nodes, the node at `addr` on top. -/
inductive Stored (rd : Reader) : Bytes 32 → Trie UInt8 (Bytes 32) → Prop where
  | node {addr : Bytes 32} {node : Node} (subtree : UInt8 × Fork → Trie UInt8 (Bytes 32))
      (fetched : rd.fetchNode addr = .ok node) (regular : Regular node)
      (children : ∀ e ∈ node.forks, Stored rd e.2.reference (subtree e)) :
      Stored rd addr (.node node.entry (node.forks.map fun e => (e.2.prefixBytes, subtree e)))

section
variable {rd : Reader} {addr : Bytes 32} {t : Trie UInt8 (Bytes 32)} {node : Node}

theorem Reader.fetchNode_ok (fetched : rd.fetchNode addr = .ok node) :
    ∃ data, rd.get addr = .ok data ∧ decodeNode rd.w rd.parse data = .ok node := by
  unfold Reader.fetchNode at fetched
  split at fetched
  · cases fetched
  · split at fetched
    · cases fetched
      exact ⟨_, ‹_›, ‹_›⟩
    · cases fetched
    · cases fetched

theorem Reader.keys_fetchNode (fetched : rd.fetchNode addr = .ok node) :
    (node.forks.map Prod.fst).Nodup := by
  obtain ⟨data, -, decoded⟩ := fetchNode_ok fetched
  exact decodeNode_keys decoded

theorem Regular.proper (regular : Regular node) {e : UInt8 × Fork} (member : e ∈ node.forks) :
    e.2.prefixBytes ≠ [] := by
  intro empty
  have keyed := regular.keyed e member
  rw [empty] at keyed
  exact nomatch keyed

theorem Regular.extractIndexDocument (regular : Regular node) :
    extractIndexDocument node = none := by
  have unnamed : ∀ e ∈ node.forks,
      (e.2.metadata.lookup websiteIndexDocumentSuffixKey).filter (fun idx => decide (idx ≠ "")) = none := by
    intro e member
    rw [regular.noIndex e member]
    rfl
  have anywhere := List.findSome?_eq_none_iff.mpr unnamed
  unfold Manifest.extractIndexDocument
  cases root : node.forks.lookup 0x2f with
  | none => exact anywhere
  | some fork =>
    obtain ⟨before, after, split_, -⟩ := List.lookup_eq_some_iff.mp root
    have here := unnamed (0x2f, fork) (by rw [split_]; exact List.mem_append_right _ (List.mem_cons_self ..))
    simp only [Option.bind_some]
    rw [here]
    exact anywhere

theorem Stored.radix (stored : Stored rd addr t) : t.Radix := by
  induction stored with
  | @node addr node subtree fetched regular children ih =>
    refine .node ?_ ?_ ?_
    · intro f member
      obtain ⟨e, here, rfl⟩ := List.mem_map.mp member
      exact regular.proper here
    · have keys := List.pairwise_map.mp (Reader.keys_fetchNode fetched)
      refine List.pairwise_map.mpr (keys.imp_of_mem fun {e d} here there differ same => differ ?_)
      simp only [regular.keyed e here, regular.keyed d there] at same
      exact Option.some.inj same
    · intro f member
      obtain ⟨e, here, rfl⟩ := List.mem_map.mp member
      exact ih e here

theorem Regular.lookup_eq (regular : Regular node) (keys : (node.forks.map Prod.fst).Nodup)
    {e : UInt8 × Fork} (member : e ∈ node.forks) {first : UInt8} {rest q : List UInt8}
    (path : e.2.prefixBytes ++ q = first :: rest) : node.forks.lookup first = some e.2 := by
  have head : e.2.prefixBytes.head? = some first := by
    rw [← List.head?_append_of_ne_nil _ (regular.proper member), path]
    rfl
  have key : e.1 = first := Option.some.inj ((regular.keyed e member).symm.trans head)
  subst key
  exact (lookup_eq_some_of_nodup keys).mpr member

theorem Regular.mem_entries (regular : Regular node) (keys : (node.forks.map Prod.fst).Nodup)
    (subtree : UInt8 × Fork → Trie UInt8 (Bytes 32)) (first : UInt8) (rest : List UInt8) (r : Bytes 32) :
    (first :: rest, r) ∈ (Trie.node node.entry (node.forks.map fun e => (e.2.prefixBytes, subtree e))).entries ↔
      ∃ fork, node.forks.lookup first = some fork ∧ ∃ q, fork.prefixBytes ++ q = first :: rest ∧
        (q, r) ∈ (subtree (first, fork)).entries := by
  rw [Trie.mem_entries, or_iff_right (fun here => nomatch here.1)]
  constructor
  · rintro ⟨f, member, q, path, below⟩
    obtain ⟨e, here, rfl⟩ := List.mem_map.mp member
    have found := regular.lookup_eq keys here path
    have same := List.inj_on_of_nodup_map keys here ((lookup_eq_some_of_nodup keys).mp found) (by
      have key := regular.keyed e here
      rw [← List.head?_append_of_ne_nil _ (regular.proper here), path] at key
      exact (Option.some.inj key).symm)
    rw [same] at below
    exact ⟨e.2, found, q, path, below⟩
  · rintro ⟨fork, found, q, path, below⟩
    have here := (lookup_eq_some_of_nodup keys).mp found
    exact ⟨_, List.mem_map_of_mem here, q, path, below⟩

/-- The lookup returns what the tree holds under the path. -/
theorem Reader.lookupFrom_iff (stored : Stored rd addr t) {path : String} {fuel : Nat} {remaining : List UInt8}
    (enough : remaining.length < fuel) (last : Option String) (redirected : Bool) (r : Bytes 32) :
    (∃ ct, rd.lookupFrom path fuel addr remaining last redirected = some (.ok (r, ct))) ↔
      (remaining, r) ∈ t.entries := by
  induction fuel generalizing addr t remaining last with
  | zero => exact absurd enough (Nat.not_lt_zero _)
  | succ fuel ih =>
    obtain @⟨addr, node, subtree, fetched, regular, children⟩ := stored
    have keys := keys_fetchNode fetched
    unfold Reader.lookupFrom
    rw [fetched]
    match remaining with
    | [] =>
      rw [Trie.mem_entries, or_iff_left]
      · cases held : node.entry with
        | some entry => simp [held, eq_comm]
        | none => simp [held, regular.extractIndexDocument, Checked.fail]
      · rintro ⟨f, member, q, path, -⟩
        obtain ⟨e, here, rfl⟩ := List.mem_map.mp member
        exact regular.proper here (List.append_eq_nil_iff.mp path).1
    | first :: rest =>
      rw [regular.mem_entries keys]
      cases found : node.forks.lookup first with
      | none => simp [found, Checked.fail]
      | some fork =>
        have here := (lookup_eq_some_of_nodup keys).mp found
        by_cases starts : fork.prefixBytes.isPrefixOf (first :: rest)
        · obtain ⟨q, path⟩ := List.isPrefixOf_iff_prefix.mp starts
          have shorter : q.length < fuel := by
            have length := congrArg List.length path
            have proper : 0 < fork.prefixBytes.length := List.length_pos_iff.mpr (regular.proper here)
            rw [List.length_append] at length
            omega
          have left : (first :: rest).drop fork.prefixBytes.length = q := by
            rw [← path, List.drop_left]
          have deeper := ih (children _ here) shorter ((fork.metadata.lookup entryMetadataContentTypeKey).or last)
          simp only [found, if_pos starts, left]
          rw [deeper]
          constructor
          · exact fun below => ⟨fork, rfl, q, path, below⟩
          · rintro ⟨_, ⟨⟩, p, same, below⟩
            rwa [List.append_cancel_left (path.trans same.symm)]
        · simp only [found, if_neg starts]
          constructor
          · rintro ⟨ct, out⟩
            exact nomatch out
          · rintro ⟨_, ⟨⟩, q, path, -⟩
            exact absurd (List.isPrefixOf_iff_prefix.mpr ⟨q, path⟩) starts

theorem Reader.walkForks_ok {visit : Bytes 32 → List UInt8 → Option (Checked ClientError (List ManifestEntry))}
    {path : List UInt8} {forks : List (UInt8 × Fork)} (lists : UInt8 × Fork → List ManifestEntry)
    (each : ∀ e ∈ forks, visit e.2.reference (path ++ e.2.prefixBytes) = some (.ok (lists e)))
    (out : List ManifestEntry) :
    walkForks visit path forks out = some (.ok (out ++ forks.flatMap lists)) := by
  induction forks generalizing out with
  | nil => rw [List.flatMap_nil, List.append_nil, walkForks]
  | cons e rest ih =>
    obtain ⟨here, later⟩ := List.forall_mem_cons.mp each
    rw [walkForks, here]
    simp only
    rw [ih later, List.flatMap_cons, List.append_assoc]

/-- The walk lists the entries of the tree. -/
theorem Reader.walkManifest_eq (stored : Stored rd addr t) :
    ∃ n, ∀ fuel, n ≤ fuel → ∀ path, rd.walkManifest fuel addr path =
      some (.ok (t.entries.map fun e => rd.entryAt (path ++ e.1) e.2)) := by
  induction stored with
  | @node addr node subtree fetched regular children ih =>
    obtain ⟨n, each⟩ := exists_common_bound node.forks ih
    refine ⟨n + 1, fun fuel enough path => ?_⟩
    obtain ⟨m, rfl⟩ : ∃ m, fuel = m + 1 := ⟨fuel - 1, by omega⟩
    rw [walkManifest, fetched]
    simp only
    rw [walkForks_ok _ fun e member => each e member m (by omega) (path ++ e.2.prefixBytes)]
    rw [Trie.entries, Trie.entriesBelow_eq, List.map_append, List.map_flatMap, List.flatMap_map]
    congr 3
    · cases node.entry with
      | none => rfl
      | some entry => simp
    · simp only [List.map_map, Function.comp_def, List.append_assoc]

theorem Reader.fromUtf8Lossy_eq_iff {bs : List UInt8} (valid : (fromUtf8 bs).isSome) (p : String) :
    rd.fromUtf8Lossy bs = p ↔ bs = utf8 p := by
  obtain ⟨s, read⟩ := Option.isSome_iff_exists.mp valid
  unfold fromUtf8Lossy
  rw [read, Option.getD_some, ← utf8_of_fromUtf8 read]
  constructor
  · rintro rfl
    rfl
  · intro same
    have back := congrArg fromUtf8 same
    rw [fromUtf8_utf8, fromUtf8_utf8] at back
    exact Option.some.inj back

/-- The walk of a stored manifest returns, the entries it lists are the paths that the lookup finds, each with
the reference it finds, and no path is listed twice. -/
theorem walk_lookup_agree (stored : Stored rd addr t) (valid : ∀ e ∈ t.entries, (fromUtf8 e.1).isSome) :
    ∃ out, (∃ n, ∀ fuel, n ≤ fuel → rd.walkManifest fuel addr [] = some (.ok out)) ∧
      (∀ (p : String) (r : Bytes 32) (fuel : Nat), (utf8 p).length < fuel →
        ((∃ e ∈ out, e.path = p ∧ e.reference = hexEncode r.val) ↔
          ∃ ct, rd.lookupManifestPath fuel addr p = some (.ok (r, ct)))) ∧
      (out.map (·.path)).Nodup := by
  obtain ⟨n, walked⟩ := Reader.walkManifest_eq stored
  refine ⟨_, ⟨n, fun fuel enough => walked fuel enough []⟩, fun p r fuel enough => ?_, ?_⟩
  · rw [Reader.lookupManifestPath, Reader.lookupFrom_iff stored enough]
    constructor
    · rintro ⟨_, member, path, reference⟩
      obtain ⟨⟨q, b⟩, held, rfl⟩ := List.mem_map.mp member
      have same := (Reader.fromUtf8Lossy_eq_iff (valid _ held) p).mp path
      have bytes : b = r := Subtype.ext (hexEncode_injective reference)
      subst same bytes
      exact held
    · intro held
      refine ⟨_, List.mem_map_of_mem held, ?_, rfl⟩
      exact (Reader.fromUtf8Lossy_eq_iff (valid _ held) p).mpr rfl
  · have paths : (t.entries.map fun e => rd.entryAt ([] ++ e.1) e.2).map (·.path) =
        (t.entries.map Prod.fst).map rd.fromUtf8Lossy := by
      rw [List.map_map, List.map_map]
      rfl
    rw [paths]
    refine stored.radix.nodup.map_on fun p here q there same => ?_
    obtain ⟨e, held, rfl⟩ := List.mem_map.mp here
    obtain ⟨d, also, rfl⟩ := List.mem_map.mp there
    have printed := (Reader.fromUtf8Lossy_eq_iff (valid e held) _).mp same
    exact printed.trans ((Reader.fromUtf8Lossy_eq_iff (valid d also) _).mp rfl).symm

def oneFile : Reader where
  w := 64
  parse := fun _ => .ok ∅
  get := fun addr =>
    if addr = Bytes.replicate 32 1 then
      .ok (headerThen (List.replicate 44 0 ++ [2] ++ List.replicate 19 0 ++ [2, 1, 97] ++ List.replicate 29 0 ++
        List.replicate 32 9))
    else .ok (headerThen (List.replicate 32 7 ++ List.replicate 32 0))
  display := fun addr => hexEncode addr.val
  repair := fun _ => ""

def oneFileFork : Fork := { nodeType := 2, prefixBytes := [97], reference := Bytes.replicate 32 9, metadata := ∅ }

theorem fetchNode_oneFile :
    oneFile.fetchNode (Bytes.replicate 32 1) = .ok ⟨none, [(97, oneFileFork)]⟩ ∧
      oneFile.fetchNode (Bytes.replicate 32 9) = .ok ⟨some (Bytes.replicate 32 7), []⟩ := by
  decide +kernel

theorem stored_oneFile : Stored oneFile (Bytes.replicate 32 1)
    (.node none [([97], .node (some (Bytes.replicate 32 7)) [])]) := by
  have leaf : Regular ⟨some (Bytes.replicate 32 7), []⟩ :=
    ⟨fun _ member => absurd member List.not_mem_nil, fun _ member => absurd member List.not_mem_nil⟩
  have root : Regular ⟨none, [(97, oneFileFork)]⟩ := ⟨by decide, by decide⟩
  have file := Stored.node (fun _ => .node none []) fetchNode_oneFile.2 leaf fun e member => nomatch member
  refine Stored.node (fun _ => .node (some (Bytes.replicate 32 7)) []) fetchNode_oneFile.1 root ?_
  exact List.forall_mem_singleton.mpr file

theorem walk_lookup_agree_oneFile :
    ∃ out, (∃ n, ∀ fuel, n ≤ fuel → oneFile.walkManifest fuel (Bytes.replicate 32 1) [] = some (.ok out)) ∧
      (∀ (p : String) (r : Bytes 32) (fuel : Nat), (utf8 p).length < fuel →
        ((∃ e ∈ out, e.path = p ∧ e.reference = hexEncode r.val) ↔
          ∃ ct, oneFile.lookupManifestPath fuel (Bytes.replicate 32 1) p = some (.ok (r, ct)))) ∧
      (out.map (·.path)).Nodup :=
  walk_lookup_agree stored_oneFile (by decide +kernel)

end

end Hoverfly.Manifest
