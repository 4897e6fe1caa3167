import Mathlib.Data.List.AList
import Hoverfly.Lib.Checked

/-! The mantaray node decoder. The payload is walked with a running offset; every access is
checked, so that a slice outside it shows as a panic. `w` is the width of `usize`. -/
namespace Hoverfly.Manifest
open Lib

def obfuscationKeySize : Nat := 32
def versionHashSize : Nat := 31
def nodeHeaderSize : Nat := obfuscationKeySize + versionHashSize + 1
def forkPreRefSize : Nat := 32
def forkRefSize : Nat := 32
def indexSize : Nat := 32

def versionHashV01 : List UInt8 :=
  [0x02, 0x51, 0x84, 0x78, 0x9d, 0x63, 0x63, 0x57, 0x66, 0xd7, 0x8c, 0x41, 0x90, 0x01, 0x96, 0xb5,
   0x7d, 0x74, 0x00, 0x87, 0x5e, 0xbe, 0x4d, 0x9b, 0x5d, 0x1e, 0x76, 0xbd, 0x96, 0x52, 0xa9]

def versionHashV02 : List UInt8 :=
  [0x57, 0x68, 0xb3, 0xb6, 0xa7, 0xdb, 0x56, 0xd2, 0x1d, 0x1a, 0xbf, 0xf4, 0x0d, 0x41, 0xce, 0xbf,
   0xc8, 0x34, 0x48, 0xfe, 0xd8, 0xd7, 0xe9, 0xb0, 0x6e, 0xc0, 0xd3, 0xb0, 0x73, 0xf2, 0x8f]

def ntMetadata : UInt8 := 16

inductive ManifestError where
  | tooShort (expected actual : Nat)
  | invalidVersion
  | unsupportedRefSize (refSize : UInt8)
  | invalidPrefixLength (prefixLen : UInt8)
  | metadata (error : String)
deriving DecidableEq

def ManifestError.message : ManifestError → String
  | .tooShort expected actual => s!"data too short: need {expected} bytes, got {actual}"
  | .invalidVersion => "unrecognized mantaray version hash"
  | .unsupportedRefSize refSize => s!"unsupported ref_size: {refSize}"
  | .invalidPrefixLength prefixLen => s!"invalid prefix length: {prefixLen}"
  | .metadata error => s!"invalid metadata JSON: {error}"

abbrev Metadata := AList (fun _ : String => String)

structure Fork where
  nodeType : UInt8
  prefixBytes : List UInt8
  reference : Bytes 32
  metadata : Metadata

theorem Fork.ext_iff_entries (f g : Fork) :
    (f.nodeType = g.nodeType ∧ f.prefixBytes = g.prefixBytes ∧ f.reference = g.reference ∧
      f.metadata.entries = g.metadata.entries) ↔ f = g := by
  constructor
  · obtain ⟨_, _, _, m⟩ := f
    obtain ⟨_, _, _, n⟩ := g
    rintro ⟨rfl, rfl, rfl, same⟩
    rw [AList.ext (show m.entries = n.entries from same)]
  · rintro rfl
    exact ⟨rfl, rfl, rfl, rfl⟩

instance : DecidableEq Fork := fun f g => decidable_of_iff _ (f.ext_iff_entries g)

/-- The forks are in the order of their keys, as the tree map keeps them. -/
structure Node where
  entry : Option (Bytes 32)
  forks : List (UInt8 × Fork)
deriving DecidableEq

def deobfuscate (key : Bytes 32) (payload : List UInt8) : List UInt8 :=
  payload.mapIdx fun i b =>
    if i < obfuscationKeySize then b
    else b ^^^ key.val.getD ((i - obfuscationKeySize) % obfuscationKeySize) 0

def trimPadding (b : List UInt8) : List UInt8 := (b.reverse.dropWhile (· = 0x0a)).reverse

section
variable (w : Nat) (parse : List UInt8 → Except String Metadata)

def decodeEntry (data : List UInt8) (refSize : UInt8) : Checked ManifestError (Option (Bytes 32) × Nat) :=
  if refSize > 0 then do
    let stop ← Checked.add w nodeHeaderSize refSize.toNat
    let entryBytes ← Checked.slice data nodeHeaderSize stop
    if entryBytes.all (· = 0) then .ok (none, stop)
    else do
      let entry ← Checked.array 32 (entryBytes.take 32)
      .ok (some entry, stop)
  else .ok (none, nodeHeaderSize)

def decodeMetadata (data : List UInt8) (offset : Nat) : Checked ManifestError (Metadata × Nat) := do
  let start ← Checked.add w offset 2
  if data.length < start then .fail (.tooShort start data.length)
  else do
    let high ← Checked.index data offset
    let low ← Checked.index data (offset + 1)
    let stop ← Checked.add w start (256 * high.toNat + low.toNat)
    if data.length < stop then .fail (.tooShort stop data.length)
    else do
      let json ← Checked.slice data start stop
      match parse (trimPadding json) with
      | .error e => .fail (.metadata e)
      | .ok map => .ok (map, stop)

def decodeFork (data : List UInt8) (offset : Nat) : Checked ManifestError (Fork × Nat) := do
  let whole ← Checked.add w offset (forkPreRefSize + forkRefSize)
  if data.length < whole then .fail (.tooShort whole data.length)
  else do
    let nodeType ← Checked.index data offset
    let prefixLen ← Checked.index data (offset + 1)
    if prefixLen = 0 ∨ prefixLen > 30 then .fail (.invalidPrefixLength prefixLen)
    else do
      let prefixBytes ← Checked.slice data (offset + 2) (offset + 2 + prefixLen.toNat)
      let bytes ← Checked.slice data (offset + forkPreRefSize) whole
      let reference ← Checked.array 32 bytes
      if nodeType &&& ntMetadata ≠ 0 then do
        let (metadata, stop) ← decodeMetadata w parse data whole
        .ok ({ nodeType, prefixBytes, reference, metadata }, stop)
      else .ok ({ nodeType, prefixBytes, reference, metadata := ∅ }, whole)

def decodeForks (data : List UInt8) (bitfield : Bytes 32) : List Nat → Nat → Checked ManifestError (List (UInt8 × Fork))
  | [], _ => .ok []
  | b :: rest, offset => do
    let bits ← Checked.index bitfield.val (b / 8)
    if bits.toNat.testBit (b % 8) then do
      let (fork, stop) ← decodeFork w parse data offset
      let forks ← decodeForks data bitfield rest stop
      .ok ((UInt8.ofNat b, fork) :: forks)
    else decodeForks data bitfield rest offset

def decodeBody (data : List UInt8) (refSize : UInt8) : Checked ManifestError Node := do
  -- the entry is sliced before anything is known about the length past the header
  let (entry, offset) ← decodeEntry w data refSize
  let start ← Checked.add w offset indexSize
  if data.length < start then .fail (.tooShort start data.length)
  else do
    let bytes ← Checked.slice data offset start
    let bitfield ← Checked.array 32 bytes
    let forks ← decodeForks w parse data bitfield (List.range 256) start
    .ok { entry, forks }

def decodeNode (payload : List UInt8) : Checked ManifestError Node :=
  if payload.length < nodeHeaderSize then .fail (.tooShort nodeHeaderSize payload.length)
  else do
    let bytes ← Checked.slice payload 0 obfuscationKeySize
    let key ← Checked.array 32 bytes
    let data := deobfuscate key payload
    let versionHash ← Checked.slice data obfuscationKeySize (obfuscationKeySize + versionHashSize)
    if versionHash ≠ versionHashV01 ∧ versionHash ≠ versionHashV02 then .fail .invalidVersion
    else do
      let refSize ← Checked.index data (obfuscationKeySize + versionHashSize)
      if refSize ≠ 0 ∧ refSize.toNat ≠ forkRefSize then .fail (.unsupportedRefSize refSize)
      else decodeBody w parse data refSize

def Fork.Sized (f : Fork) : Prop := 1 ≤ f.prefixBytes.length ∧ f.prefixBytes.length ≤ 30

variable {w parse} {data : List UInt8} {offset : Nat} (room : data.length + 2 ^ 17 ≤ 2 ^ w)
include room

open Checked

theorem decodeMetadata_safe (inside : offset ≤ data.length) :
    Safe (decodeMetadata w parse data offset) fun r => r.2 ≤ data.length := by
  refine .bind (.add (by omega)) fun start start_eq => ?_
  refine .ite (fun _ => .fail _) fun whole => ?_
  refine .bind (.index (by omega)) fun high _ => ?_
  refine .bind (.index (by omega)) fun low _ => ?_
  have small : 256 * high.toNat + low.toNat < 2 ^ 16 := by
    have := high.toNat_lt
    have := low.toNat_lt
    omega
  refine .bind (.add (by omega)) fun stop stop_eq => ?_
  refine .ite (fun _ => .fail _) fun fits => ?_
  refine .bind (.slice (by omega) (by omega)) fun json _ => ?_
  cases parse (trimPadding json) with
  | error e => exact .fail _
  | ok map => exact .ok (Nat.not_lt.mp fits)

theorem decodeFork_safe (inside : offset ≤ data.length) :
    Safe (decodeFork w parse data offset) fun r => r.1.Sized ∧ r.2 ≤ data.length := by
  have sizes : forkPreRefSize = 32 ∧ forkRefSize = 32 := ⟨rfl, rfl⟩
  refine .bind (.add (by omega)) fun whole whole_eq => ?_
  refine .ite (fun _ => .fail _) fun fits => ?_
  refine .bind (.index (by omega)) fun nodeType _ => ?_
  refine .bind (.index (by omega)) fun prefixLen _ => ?_
  refine .ite (fun _ => .fail _) fun legal => ?_
  have length : 1 ≤ prefixLen.toNat ∧ prefixLen.toNat ≤ 30 := by
    obtain ⟨some_, short⟩ := not_or.mp legal
    have short' : prefixLen.toNat ≤ 30 := UInt8.le_iff_toNat_le.mp (UInt8.not_lt.mp short)
    exact ⟨Nat.pos_of_ne_zero fun none_ => some_ (UInt8.toNat_inj.mp none_), short'⟩
  refine .bind (.slice (by omega) (by omega)) fun prefixBytes sized => ?_
  refine .bind (.slice (by omega) (by omega)) fun bytes counted => ?_
  refine .bind (.array (by omega)) fun reference _ => ?_
  have legal : 1 ≤ prefixBytes.length ∧ prefixBytes.length ≤ 30 := by omega
  refine .ite (fun _ => ?_) fun _ => .ok ⟨legal, by omega⟩
  exact .bind (decodeMetadata_safe room (by omega)) fun r within => .ok ⟨legal, within⟩

theorem decodeForks_safe {bitfield : Bytes 32} (bs : List Nat) (bytes : ∀ b ∈ bs, b < 256) (inside : offset ≤ data.length) :
    Safe (decodeForks w parse data bitfield bs offset) fun forks => ∀ e ∈ forks, e.2.Sized := by
  induction bs generalizing offset with
  | nil => exact .ok fun e member => nomatch member
  | cons b rest ih =>
    obtain ⟨here, later⟩ := List.forall_mem_cons.mp bytes
    have mask : bitfield.val.length = 32 := bitfield.property
    refine .bind (.index (by omega)) fun bits _ => ?_
    refine .ite (fun _ => ?_) fun _ => ih later inside
    refine .bind (decodeFork_safe room inside) fun r decoded => ?_
    refine .bind (ih later decoded.2) fun forks sized => .ok fun e member => ?_
    rcases List.mem_cons.mp member with rfl | member
    · exact decoded.1
    · exact sized e member

theorem decodeBody_safe {refSize : UInt8} (header : nodeHeaderSize ≤ data.length)
    (whole : refSize = 0 ∨ refSize.toNat = 32 ∧ nodeHeaderSize + 32 ≤ data.length) :
    Safe (decodeBody w parse data refSize) fun node => ∀ e ∈ node.forks, e.2.Sized := by
  have entry : Safe (decodeEntry w data refSize) fun r => r.2 ≤ data.length := by
    unfold decodeEntry
    rcases whole with rfl | ⟨size, whole⟩
    · exact .ite (fun some_ => absurd some_ (by decide)) fun _ => .ok header
    · refine .ite (fun _ => ?_) fun _ => .ok header
      refine .bind (.add (by omega)) fun stop stop_eq => ?_
      refine .bind (.slice (by omega) (by omega)) fun bytes counted => ?_
      refine .ite (fun _ => .ok (by omega)) fun _ => ?_
      refine .bind (.array ?_) fun _ _ => .ok (by omega)
      rw [List.length_take]
      omega
  have index : indexSize = 32 := rfl
  refine .bind entry fun r within => ?_
  refine .bind (.add (by omega)) fun start start_eq => ?_
  refine .ite (fun _ => .fail _) fun fits => ?_
  refine .bind (.slice (by omega) (by omega)) fun bytes counted => ?_
  refine .bind (.array (by omega)) fun bitfield _ => ?_
  refine .bind (decodeForks_safe room (List.range 256) (fun b member => List.mem_range.mp member) (by omega)) ?_
  exact fun forks sized => .ok sized

end

section
open Checked

def keyOf (payload : List UInt8) : Bytes 32 :=
  if h : (payload.take 32).length = 32 then ⟨payload.take 32, h⟩ else Bytes.replicate 32 0

def plain (payload : List UInt8) : List UInt8 := deobfuscate (keyOf payload) payload

def versionOf (payload : List UInt8) : List UInt8 := ((plain payload).take 63).drop 32

/-- A sound header announces an entry, and the payload ends inside it. -/
def CutShort (payload : List UInt8) : Prop :=
  nodeHeaderSize ≤ payload.length ∧ payload.length < nodeHeaderSize + forkRefSize ∧
    (versionOf payload = versionHashV01 ∨ versionOf payload = versionHashV02) ∧ (plain payload)[63]? = some 32

instance (payload : List UInt8) : Decidable (CutShort payload) :=
  inferInstanceAs (Decidable (nodeHeaderSize ≤ payload.length ∧ payload.length < nodeHeaderSize + forkRefSize ∧
    (versionOf payload = versionHashV01 ∨ versionOf payload = versionHashV02) ∧ (plain payload)[63]? = some 32))

theorem length_plain (payload : List UInt8) : (plain payload).length = payload.length := by
  unfold plain deobfuscate
  exact List.length_mapIdx

variable {payload data : List UInt8} {w offset : Nat} {parse : List UInt8 → Except String Metadata} {node : Node}

theorem decodeNode_eq (w : Nat) (parse : List UInt8 → Except String Metadata)
    (header : nodeHeaderSize ≤ payload.length) :
    ∃ refSize, (plain payload)[63]? = some refSize ∧ decodeNode w parse payload =
      if versionOf payload ≠ versionHashV01 ∧ versionOf payload ≠ versionHashV02 then .fail .invalidVersion
      else if refSize ≠ 0 ∧ refSize.toNat ≠ forkRefSize then .fail (.unsupportedRefSize refSize)
      else decodeBody w parse (plain payload) refSize := by
  have sizes : nodeHeaderSize = 64 ∧ obfuscationKeySize = 32 ∧ versionHashSize = 31 := ⟨rfl, rfl, rfl⟩
  have length := length_plain payload
  have key : (payload.take 32).length = 32 := by
    rw [List.length_take]
    omega
  have inside : 63 < (plain payload).length := by omega
  have here := List.getElem?_eq_getElem inside
  have bytes : (Checked.slice payload 0 obfuscationKeySize : Checked ManifestError _) = .ok (payload.take 32) :=
    Checked.slice_ok (Nat.zero_le _) (by omega)
  have keyed : (Checked.array 32 (payload.take 32) : Checked ManifestError _) = .ok (keyOf payload) := by
    unfold Checked.array keyOf
    rw [dif_pos key, dif_pos key]
  have version : (Checked.slice (plain payload) obfuscationKeySize (obfuscationKeySize + versionHashSize) :
      Checked ManifestError _) = .ok (versionOf payload) := Checked.slice_ok (by decide) (by omega)
  have size : (Checked.index (plain payload) (obfuscationKeySize + versionHashSize) : Checked ManifestError _) =
      .ok (plain payload)[63] := by
    unfold Checked.index
    rw [show (plain payload)[obfuscationKeySize + versionHashSize]? = some (plain payload)[63] from here]
  refine ⟨_, here, ?_⟩
  unfold decodeNode
  rw [if_neg (Nat.not_lt.mpr header), bytes]
  change (Checked.array 32 (payload.take 32) >>= _) = _
  rw [keyed]
  change (Checked.slice (plain payload) obfuscationKeySize (obfuscationKeySize + versionHashSize) >>= _) = _
  rw [version]
  change (if _ then _ else Checked.index (plain payload) (obfuscationKeySize + versionHashSize) >>= _) = _
  rw [size]
  rfl

theorem decodeNode_safe (room : payload.length + 2 ^ 17 ≤ 2 ^ w) (whole : ¬CutShort payload) :
    Safe (decodeNode w parse payload) fun node => ∀ e ∈ node.forks, e.2.Sized := by
  have length := length_plain payload
  by_cases header : payload.length < nodeHeaderSize
  · unfold decodeNode
    rw [if_pos header]
    exact .fail _
  · obtain ⟨refSize, here, out⟩ := decodeNode_eq w parse (Nat.not_lt.mp header)
    rw [out]
    refine .ite (fun _ => .fail _) fun known => .ite (fun _ => .fail _) fun sized => ?_
    refine decodeBody_safe (by omega) (by omega) ?_
    by_cases none_ : refSize = 0
    · exact .inl none_
    · have size : refSize.toNat = 32 := by
        by_contra other
        exact sized ⟨none_, other⟩
      refine .inr ⟨size, ?_⟩
      by_contra short
      have size' : refSize = 32 := UInt8.toNat_inj.mp size
      refine whole ⟨Nat.not_lt.mp header, ?_, ?_, by rw [here, size']⟩
      · rw [length] at short
        exact Nat.not_le.mp short
      · by_contra neither
        exact known (not_or.mp neither)

theorem decodeNode_cutShort (w : Nat) (parse : List UInt8 → Except String Metadata)
    (room : payload.length + 2 ^ 17 ≤ 2 ^ w) (cut : CutShort payload) :
    decodeNode w parse payload = .error (.panic .outOfBounds) := by
  obtain ⟨header, short, known, announced⟩ := cut
  obtain ⟨refSize, here, out⟩ := decodeNode_eq w parse header
  have length := length_plain payload
  have sizes : nodeHeaderSize = 64 ∧ forkRefSize = 32 := ⟨rfl, rfl⟩
  have size : refSize = 32 := Option.some.inj (here.symm.trans announced)
  have stop : (Checked.add w nodeHeaderSize (32 : UInt8).toNat : Checked ManifestError Nat) = .ok 96 := if_pos (by
    have byte : (32 : UInt8).toNat = 32 := rfl
    omega)
  have outside : (Checked.slice (plain payload) nodeHeaderSize 96 : Checked ManifestError _) =
      .error (.panic .outOfBounds) := if_neg (by omega)
  have entry : decodeEntry w (plain payload) 32 = .error (.panic .outOfBounds) := by
    unfold decodeEntry
    rw [if_pos (by decide), stop]
    change (Checked.slice (plain payload) nodeHeaderSize 96 >>= _) = _
    rw [outside]
    rfl
  rw [out, if_neg (fun neither => known.elim neither.1 neither.2), size, if_neg (by decide)]
  unfold decodeBody
  rw [entry]
  rfl

theorem decodeForks_keys {bitfield : Bytes 32} (bs : List Nat) {forks : List (UInt8 × Fork)}
    (out : decodeForks w parse data bitfield bs offset = .ok forks) :
    (forks.map Prod.fst).Sublist (bs.map UInt8.ofNat) := by
  induction bs generalizing offset forks with
  | nil =>
    cases out
    exact .slnil
  | cons b rest ih =>
    obtain ⟨bits, -, out⟩ := bind_ok out
    split at out
    · obtain ⟨r, -, out⟩ := bind_ok out
      obtain ⟨later, rest_out, out⟩ := bind_ok out
      cases out
      exact (ih rest_out).cons_cons (UInt8.ofNat b)
    · exact (ih out).cons (UInt8.ofNat b)

theorem nodup_bytes : ((List.range 256).map UInt8.ofNat).Nodup := by
  refine List.Nodup.map_on (fun a here b there same => ?_) List.nodup_range
  have numbers := congrArg UInt8.toNat same
  rwa [UInt8.toNat_ofNat_of_lt' (List.mem_range.mp here), UInt8.toNat_ofNat_of_lt' (List.mem_range.mp there)] at numbers

theorem decodeNode_forks (out : decodeNode w parse payload = .ok node) :
    ∃ data bitfield start, decodeForks w parse data bitfield (List.range 256) start = .ok node.forks := by
  by_cases header : payload.length < nodeHeaderSize
  · unfold decodeNode at out
    rw [if_pos header] at out
    cases out
  · obtain ⟨refSize, -, eq⟩ := decodeNode_eq w parse (Nat.not_lt.mp header)
    rw [eq] at out
    split at out
    · cases out
    split at out
    · cases out
    obtain ⟨entry, -, out⟩ := bind_ok out
    obtain ⟨start, -, out⟩ := bind_ok out
    split at out
    · cases out
    obtain ⟨bytes, -, out⟩ := bind_ok out
    obtain ⟨bitfield, -, out⟩ := bind_ok out
    obtain ⟨forks, forks_out, out⟩ := bind_ok out
    cases out
    exact ⟨_, bitfield, start, forks_out⟩

theorem decodeNode_keys (out : decodeNode w parse payload = .ok node) : (node.forks.map Prod.fst).Nodup := by
  obtain ⟨data, bitfield, start, forks⟩ := decodeNode_forks out
  exact nodup_bytes.sublist (decodeForks_keys _ forks)

theorem decodeFork_proper
    {r : Fork × Nat} (out : decodeFork w parse data offset = .ok r) : r.1.prefixBytes ≠ [] := by
  obtain ⟨whole, -, out⟩ := bind_ok out
  split at out
  · cases out
  obtain ⟨nodeType, -, out⟩ := bind_ok out
  obtain ⟨prefixLen, -, out⟩ := bind_ok out
  split at out
  · cases out
  rename_i allowed
  obtain ⟨prefixBytes, sliced, out⟩ := bind_ok out
  have proper : prefixBytes ≠ [] := by
    have some_ : prefixLen.toNat ≠ 0 := fun none_ => allowed (.inl (UInt8.toNat_inj.mp none_))
    unfold Checked.slice at sliced
    split at sliced
    · cases sliced
      rw [← List.length_pos_iff, List.length_drop, List.length_take]
      omega
    · cases sliced
  obtain ⟨bytes, -, out⟩ := bind_ok out
  obtain ⟨reference, -, out⟩ := bind_ok out
  split at out
  · obtain ⟨metadata, -, out⟩ := bind_ok out
    cases out
    exact proper
  · cases out
    exact proper

theorem decodeForks_proper {bitfield : Bytes 32} (bs : List Nat) {forks : List (UInt8 × Fork)}
    (out : decodeForks w parse data bitfield bs offset = .ok forks) : ∀ e ∈ forks, e.2.prefixBytes ≠ [] := by
  induction bs generalizing offset forks with
  | nil =>
    cases out
    simp
  | cons b rest ih =>
    obtain ⟨bits, -, out⟩ := bind_ok out
    split at out
    · obtain ⟨r, fork_out, out⟩ := bind_ok out
      obtain ⟨later, rest_out, out⟩ := bind_ok out
      cases out
      exact List.forall_mem_cons.mpr ⟨decodeFork_proper fork_out, ih rest_out⟩
    · exact ih out

theorem decodeNode_proper
    (out : decodeNode w parse payload = .ok node) : ∀ e ∈ node.forks, e.2.prefixBytes ≠ [] := by
  obtain ⟨data, bitfield, start, forks⟩ := decodeNode_forks out
  exact decodeForks_proper _ forks

/-- The decoder returns on every payload but one that ends inside the entry its header announces, and every
fork it returns has a prefix of 1 to 30 bytes. -/
theorem decodeNode_total_iff {w : Nat} (word : w = 32 ∨ w = 64) (parse : List UInt8 → Except String Metadata)
    {payload : List UInt8} (isize : payload.length < 2 ^ (w - 1)) :
    ((∀ p, decodeNode w parse payload ≠ .error (.panic p)) ∧
      ∀ node, decodeNode w parse payload = .ok node → ∀ e ∈ node.forks, e.2.Sized) ↔ ¬CutShort payload := by
  have room : payload.length + 2 ^ 17 ≤ 2 ^ w := by
    rcases word with rfl | rfl <;> omega
  constructor
  · rintro ⟨returns, _⟩ cut
    exact returns _ (decodeNode_cutShort w parse room cut)
  · intro whole
    have safe : Safe (decodeNode w parse payload) fun node => ∀ e ∈ node.forks, e.2.Sized :=
      decodeNode_safe room whole
    exact ⟨safe.not_panic, fun node out => safe.of_ok out⟩

def headerThen (rest : List UInt8) : List UInt8 := List.replicate 32 0 ++ versionHashV01 ++ [32] ++ rest

theorem decodeNode_headerOnly :
    (headerThen []).length = 64 ∧
      decodeNode 64 (fun _ => .ok ∅) (headerThen []) = .error (.panic .outOfBounds) :=
  ⟨rfl, decodeNode_cutShort 64 _ (by decide +kernel) (by decide +kernel)⟩

theorem decodeNode_total_terminal :
    (headerThen (List.replicate 64 0)).length = 128 ∧
      ((∀ p, decodeNode 64 (fun _ => .ok ∅) (headerThen (List.replicate 64 0)) ≠ .error (.panic p)) ∧
        ∀ node, decodeNode 64 (fun _ => .ok ∅) (headerThen (List.replicate 64 0)) = .ok node →
          ∀ e ∈ node.forks, e.2.Sized) :=
  ⟨rfl, (decodeNode_total_iff (.inr rfl) _ (by decide +kernel)).mpr (by decide +kernel)⟩

end

end Hoverfly.Manifest
