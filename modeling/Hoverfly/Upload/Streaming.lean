import Hoverfly.Lib.Checked
import Hoverfly.Upload.Collection

/-! One pass, window after window, or no stamps at all: the three uploads of a collection
agree. Two facts about the stamp crate are assumed, that an allocation does not read
the clock and that a key signs every digest or none. -/
namespace Hoverfly.Upload
open Lib Erasure Push

variable {Signer Issuer Digest : Type}

namespace Tools

structure Steady (tools : Tools Signer Issuer Digest) : Prop where
  issuer : ∀ issuer addr t t', (tools.prepareStamp issuer addr t).1 = (tools.prepareStamp issuer addr t').1
  allocates : ∀ issuer addr t t', (tools.prepareStamp issuer addr t).2.isOk = (tools.prepareStamp issuer addr t').2.isOk
  signs : ∀ signer d d', (tools.signMessage signer d).isOk = (tools.signMessage signer d').isOk

variable (tools : Tools Signer Issuer Digest)

def advance (issuer : Issuer) (chunk : Chunk) : Issuer := (tools.prepareStamp issuer chunk.1 0).1

def Signs (signer : Signer) : Prop := ∀ d, ∃ signature, tools.signMessage signer d = .ok signature

def Stampable (signer : Signer) : Issuer → List Chunk → Prop
  | _, [] => True
  | issuer, chunk :: rest =>
    (∃ digest, (tools.prepareStamp issuer chunk.1 0).2 = .ok digest) ∧ tools.Signs signer ∧
      Stampable signer (tools.advance issuer chunk) rest

theorem stampable_append {signer : Signer} {issuer : Issuer} {xs ys : List Chunk} :
    tools.Stampable signer issuer (xs ++ ys) ↔
      tools.Stampable signer issuer xs ∧ tools.Stampable signer (xs.foldl tools.advance issuer) ys := by
  induction xs generalizing issuer with
  | nil => simp [Stampable]
  | cons x rest ih => simp [Stampable, ih, and_assoc]

variable {tools}

theorem Steady.prepare (steady : tools.Steady) (issuer : Issuer) (chunk : Chunk) (t : Nat) :
    (∃ digest, tools.prepareStamp issuer chunk.1 t = (tools.advance issuer chunk, .ok digest) ∧
      ∃ digest, (tools.prepareStamp issuer chunk.1 0).2 = .ok digest) ∨
    ∃ e, tools.prepareStamp issuer chunk.1 t = (tools.advance issuer chunk, .error e) ∧
      ¬∃ digest, (tools.prepareStamp issuer chunk.1 0).2 = .ok digest := by
  have same := steady.issuer issuer chunk.1 t 0
  have alike := steady.allocates issuer chunk.1 t 0
  unfold advance
  cases here : tools.prepareStamp issuer chunk.1 t with
  | mk next out =>
    cases there : tools.prepareStamp issuer chunk.1 0 with
    | mk next' out' =>
      rw [here, there] at same alike
      cases same
      cases out <;> cases out' <;> simp_all [Except.isOk, Except.toBool]

theorem Steady.sign (steady : tools.Steady) (signer : Signer) :
    tools.Signs signer ∨ ∀ d, ∃ e, tools.signMessage signer d = .error e := by
  by_cases some_ : ∃ d signature, tools.signMessage signer d = .ok signature
  · obtain ⟨d, signature, ok⟩ := some_
    left
    intro d'
    have same := steady.signs signer d d'
    rw [ok] at same
    cases other : tools.signMessage signer d' with
    | ok signature' => exact ⟨signature', rfl⟩
    | error e => rw [other] at same; cases same
  · right
    intro d
    cases here : tools.signMessage signer d with
    | ok signature => exact absurd ⟨d, signature, here⟩ some_
    | error e => exact ⟨e, rfl⟩

end Tools

def pair (c : StampedChunk) : Chunk := (c.addr, c.wire)

/-- Stamping gives every chunk its stamp, in order, or fails as a whole. -/
structure Stamped (tools : Tools Signer Issuer Digest) (signer : Signer) (issuer : Issuer) (work : List Chunk)
    (result : Issuer × Except ClientError (List StampedChunk)) : Prop where
  whole : tools.Stampable signer issuer work →
    ∃ out, result = (work.foldl tools.advance issuer, .ok out) ∧ out.map pair = work
  fails : ¬tools.Stampable signer issuer work → ∃ e, result.2 = .error (.stamp e)

namespace Stamped

variable {tools : Tools Signer Issuer Digest} {signer : Signer} {issuer : Issuer}

theorem nil : Stamped tools signer issuer [] (issuer, .ok []) :=
  ⟨fun _ => ⟨[], rfl, rfl⟩, fun no => absurd trivial no⟩

theorem unallocated {chunk : Chunk} {rest : List Chunk} {e : String} {last : Issuer}
    (full : ¬∃ digest, (tools.prepareStamp issuer chunk.1 0).2 = .ok digest) :
    Stamped tools signer issuer (chunk :: rest) (last, .error (.stamp e)) :=
  ⟨fun can => absurd can.1 full, fun _ => ⟨e, rfl⟩⟩

theorem unsigned {chunk : Chunk} {rest : List Chunk} {e : String} {result : Issuer × Except ClientError (List StampedChunk)}
    (unable : ¬tools.Signs signer) (failed : result.2 = .error (.stamp e)) :
    Stamped tools signer issuer (chunk :: rest) result :=
  ⟨fun can => absurd can.2.1 unable, fun _ => ⟨e, failed⟩⟩

theorem cons {chunk : Chunk} {rest : List Chunk} {stamped : StampedChunk}
    {result : Issuer × Except ClientError (List StampedChunk)}
    (allocated : ∃ digest, (tools.prepareStamp issuer chunk.1 0).2 = .ok digest) (signs : tools.Signs signer)
    (same : pair stamped = chunk) (later : Stamped tools signer (tools.advance issuer chunk) rest result) :
    Stamped tools signer issuer (chunk :: rest) (result.1, result.2.map (stamped :: ·)) := by
  constructor
  · intro can
    obtain ⟨out, rfl, pairs⟩ := later.whole can.2.2
    exact ⟨stamped :: out, rfl, by rw [List.map_cons, same, pairs]⟩
  · intro cannot
    obtain ⟨e, failed⟩ := later.fails fun can => cannot ⟨allocated, signs, can⟩
    exact ⟨e, by rw [failed]; rfl⟩

theorem error {work : List Chunk} {result : Issuer × Except ClientError (List StampedChunk)}
    (spec : Stamped tools signer issuer work result) {e : ClientError} (failed : result.2 = .error e) :
    ∃ text, e = .stamp text := by
  by_cases can : tools.Stampable signer issuer work
  · obtain ⟨out, rfl, -⟩ := spec.whole can
    cases failed
  · obtain ⟨text, why⟩ := spec.fails can
    rw [failed] at why
    exact ⟨text, Except.error.inj why⟩

end Stamped

section Stamping

variable {tools : Tools Signer Issuer Digest} (steady : tools.Steady) (signer : Signer) (t : Nat)

theorem signOne_ok (signs : tools.Signs signer) (chunk : Chunk) (digest : Digest) :
    ∃ stamped, signOne tools signer (chunk, digest) = .ok stamped ∧ pair stamped = chunk := by
  obtain ⟨signature, ok⟩ := signs digest
  exact ⟨_, by rw [signOne, ok]; rfl, rfl⟩

theorem signOne_error {digest : Digest} {e : String} (failed : tools.signMessage signer digest = .error e)
    (chunk : Chunk) : signOne tools signer (chunk, digest) = .error (.stamp e) := by
  rw [signOne, failed]
  rfl

theorem not_signs {digest : Digest} {e : String} (failed : tools.signMessage signer digest = .error e) :
    ¬tools.Signs signer := by
  intro signs
  obtain ⟨signature, ok⟩ := signs digest
  rw [failed] at ok
  cases ok

include steady

theorem stampSerial_spec (issuer : Issuer) (work : List Chunk) :
    Stamped tools signer issuer work (stampSerial tools signer t issuer work) := by
  induction work generalizing issuer with
  | nil => exact .nil
  | cons chunk rest ih =>
    rw [stampSerial]
    rcases steady.prepare issuer chunk t with ⟨digest, here, allocated⟩ | ⟨e, here, full⟩
    · rw [here]
      dsimp only
      rcases steady.sign signer with signs | unable
      · obtain ⟨stamped, ok, same⟩ := signOne_ok signer signs chunk digest
        rw [ok]
        exact .cons allocated signs same (ih _)
      · obtain ⟨e, failed⟩ := unable digest
        rw [signOne_error signer failed chunk]
        exact .unsigned (not_signs signer failed) rfl
    · rw [here]
      exact .unallocated full

theorem stampBoth_spec (issuer : Issuer) (work : List Chunk) :
    Stamped tools signer issuer work ((prepareAll tools t issuer work).1,
      (prepareAll tools t issuer work).2 >>= (·.mapM (signOne tools signer))) := by
  induction work generalizing issuer with
  | nil => exact .nil
  | cons chunk rest ih =>
    rw [prepareAll]
    rcases steady.prepare issuer chunk t with ⟨digest, here, allocated⟩ | ⟨e, here, full⟩
    · rw [here]
      dsimp only
      rcases steady.sign signer with signs | unable
      · obtain ⟨stamped, ok, same⟩ := signOne_ok signer signs chunk digest
        rw [mapM_after_cons ok]
        exact .cons allocated signs same (ih _)
      · obtain ⟨e, failed⟩ := unable digest
        have unsigned := not_signs signer failed
        cases prepared : (prepareAll tools t (tools.advance issuer chunk) rest).2 with
        | error why =>
          obtain ⟨text, rfl⟩ := (ih (tools.advance issuer chunk)).error (by rw [prepared]; rfl)
          exact .unsigned unsigned rfl
        | ok out =>
          refine .unsigned unsigned (e := e) ?_
          change ((chunk, digest) :: out).mapM (signOne tools signer) = _
          rw [List.mapM_cons, signOne_error signer failed chunk]
          rfl
    · rw [here]
      exact .unallocated full

theorem stamp_spec (target : Target) (stamper : Stamper Signer Issuer) (work : List Chunk) :
    Stamped tools stamper.signer stamper.issuer work
      ((stampChunksParallel target tools stamper t work).1.issuer,
        (stampChunksParallel target tools stamper t work).2) := by
  cases target with
  | native => exact stampBoth_spec steady stamper.signer t stamper.issuer work
  | wasm32 => exact stampSerial_spec steady stamper.signer t stamper.issuer work

end Stamping

theorem signer_stampChunksParallel (target : Target) (tools : Tools Signer Issuer Digest)
    (stamper : Stamper Signer Issuer) (t : Nat) (work : List Chunk) :
    (stampChunksParallel target tools stamper t work).1.signer = stamper.signer := by
  cases target <;> rfl

namespace UploadStreamer

section Windows

variable {tools : Tools Signer Issuer Digest} (steady : tools.Steady) (target : Target) {root : Addr}
  {signer : Signer} {total : Nat}

def toGo (root : Addr) (signer : Signer) (total : Nat) (issuer : Issuer) (chunks : List Chunk) :
    UploadStreamer Signer Issuer :=
  ⟨root, chunks.reverse, ⟨issuer, signer⟩, total⟩

/-- A run from `chunks` gives out the first `n` of them, or fails. -/
structure Handed (tools : Tools Signer Issuer Digest) (root : Addr) (signer : Signer) (total : Nat) (issuer : Issuer)
    (chunks : List Chunk) (n : Nat) (result : UploadStreamer Signer Issuer × Except ClientError (List StampedChunk)) :
    Prop where
  whole : tools.Stampable signer issuer (chunks.take n) →
    ∃ out, result = (toGo root signer total ((chunks.take n).foldl tools.advance issuer) (chunks.drop n), .ok out) ∧
      out.map pair = chunks.take n
  fails : ¬tools.Stampable signer issuer (chunks.take n) → ∃ e, result.2 = .error (.stamp e)

theorem Handed.none (issuer : Issuer) (chunks : List Chunk) {n : Nat} (idle : min n chunks.length = 0) :
    Handed tools root signer total issuer chunks n (toGo root signer total issuer chunks, .ok []) := by
  have nothing : chunks.take n = [] := by
    rw [← List.length_eq_zero_iff, List.length_take]
    exact idle
  have everything : chunks.drop n = chunks := by
    have all := List.take_append_drop n chunks
    rwa [nothing, List.nil_append] at all
  constructor
  · intro _
    exact ⟨[], by rw [nothing, everything]; rfl, by rw [nothing]; rfl⟩
  · intro cannot
    rw [nothing] at cannot
    exact absurd trivial cannot

section Results

variable {issuer : Issuer} {chunks : List Chunk} {n : Nat}
  {result : UploadStreamer Signer Issuer × Except ClientError (List StampedChunk)}
  (handed : Handed tools root signer total issuer chunks n result)

include handed

theorem Handed.counts (can : tools.Stampable signer issuer chunks) :
    ∃ out, result.2 = .ok out ∧ result.1.remaining.length + out.length = chunks.length := by
  rw [← List.take_append_drop n chunks, Tools.stampable_append] at can
  obtain ⟨out, rfl, first⟩ := handed.whole can.1
  refine ⟨out, rfl, ?_⟩
  have size := congrArg List.length first
  rw [List.length_map, List.length_take] at size
  change (chunks.drop n).reverse.length + out.length = chunks.length
  rw [List.length_reverse, List.length_drop]
  omega

theorem Handed.drains (can : tools.Stampable signer issuer chunks) (enough : chunks.length ≤ n) :
    ∃ out, result.2 = .ok out ∧ out.map pair = chunks ∧ result.1.remaining = [] ∧
      result.1.stamper.issuer = chunks.foldl tools.advance issuer := by
  have all : chunks.take n = chunks := List.take_of_length_le enough
  have none_left : chunks.drop n = [] := List.drop_of_length_le enough
  obtain ⟨out, rfl, first⟩ := handed.whole (by rwa [all])
  rw [all] at first
  rw [all, none_left]
  exact ⟨out, rfl, first, rfl, rfl⟩

end Results

include steady

theorem nextBatch_spec (issuer : Issuer) (chunks : List Chunk) (n t : Nat) :
    Handed tools root signer total issuer chunks n
      (nextBatch target tools (toGo root signer total issuer chunks) n t) := by
  unfold nextBatch
  dsimp only
  have size : (toGo root signer total issuer chunks).remaining.length = chunks.length := List.length_reverse
  rw [size]
  split
  next idle => exact .none issuer chunks idle
  next =>
    have popped : popMany (min n chunks.length) (toGo root signer total issuer chunks).remaining =
        (chunks.take n, (chunks.drop n).reverse) := by
      rw [toGo, popMany_reverse, ← List.take_eq_take_min, ← List.drop_eq_drop_min]
    rw [popped]
    have spec := stamp_spec steady t target ⟨issuer, signer⟩ (chunks.take n)
    have kept := signer_stampChunksParallel target tools ⟨issuer, signer⟩ t (chunks.take n)
    constructor
    · intro can
      obtain ⟨out, result, pairs⟩ := spec.whole can
      obtain ⟨last, ok⟩ := Prod.mk.inj result
      refine ⟨out, Prod.ext ?_ ok, pairs⟩
      have stamper := congrArg₂ Stamper.mk last kept
      exact congrArg (UploadStreamer.mk root (chunks.drop n).reverse · total) stamper
    · exact spec.fails

theorem batches_spec (windows : List (Nat × Nat)) (issuer : Issuer) (chunks : List Chunk) :
    Handed tools root signer total issuer chunks (windows.map Prod.fst).sum
      (batches target tools (toGo root signer total issuer chunks) windows) := by
  induction windows generalizing issuer chunks with
  | nil => exact .none issuer chunks (Nat.zero_min _)
  | cons window rest ih =>
    obtain ⟨n, t⟩ := window
    have first := @nextBatch_spec _ _ _ _ steady target root signer total issuer chunks n t
    have later := ih ((chunks.take n).foldl tools.advance issuer) (chunks.drop n)
    rw [List.map_cons, List.sum_cons, batches]
    generalize (rest.map Prod.fst).sum = k at later ⊢
    have split : chunks.take (n + k) = chunks.take n ++ (chunks.drop n).take k := List.take_add
    by_cases can : tools.Stampable signer issuer (chunks.take n)
    · obtain ⟨window, here, pairs⟩ := first.whole can
      rw [here]
      dsimp only
      constructor
      · intro both
        rw [split, Tools.stampable_append] at both
        obtain ⟨out, result, tail⟩ := later.whole both.2
        refine ⟨window ++ out, ?_, ?_⟩
        · rw [result, split, List.foldl_append, ← List.drop_drop]
          rfl
        · rw [List.map_append, pairs, tail, split]
      · intro cannot
        rw [split, Tools.stampable_append] at cannot
        obtain ⟨e, failed⟩ := later.fails fun able => cannot ⟨can, able⟩
        exact ⟨e, by rw [failed]; rfl⟩
    · obtain ⟨e, failed⟩ := first.fails can
      constructor
      · intro both
        rw [split, Tools.stampable_append] at both
        exact absurd both.1 can
      · intro _
        refine ⟨e, ?_⟩
        generalize nextBatch target tools (toGo root signer total issuer chunks) n t = result at failed
        obtain ⟨st, out⟩ := result
        cases failed
        rfl

end Windows

end UploadStreamer

theorem gatherAddresses_eq (tools : Tools Signer Issuer Digest) (level : Level) (files : List UploadFile)
    (g : Gathered) :
    gatherAddresses tools level files (g.chunks.seen, g.entries) =
      (gather tools level files g).map fun g => (g.chunks.seen, g.entries) := by
  induction files generalizing g with
  | nil => rfl
  | cons f rest ih =>
    rw [gather, gatherAddresses]
    cases tools.splitChunks f.data level with
    | error e => rfl
    | ok split =>
      have later := ih ⟨split.2.foldl Distinct.take g.chunks, g.entries ++ [entryOf f split.1]⟩
      rw [Distinct.seen_foldl_take] at later
      exact later

section Agreement

variable (target : Target) (tools : Tools Signer Issuer Digest) (signer : Signer) (batchIdHex : String)
  (depth : UInt8) (immutable : Bool) (files : List UploadFile) (indexDocument errorDocument : Option String)
  (redundancy : Level)

open UploadStreamer

theorem prepareUploadCollection_eq (t : Nat) :
    prepareUploadCollection target tools signer batchIdHex depth immutable files indexDocument errorDocument
      redundancy t =
    newCollection tools signer batchIdHex depth immutable files indexDocument errorDocument redundancy >>= fun st =>
      (stampChunksParallel target tools st.stamper t st.remaining.reverse).2.map (st.root, ·) := by
  unfold prepareUploadCollection newCollection
  split
  · rfl
  · rw [bind_assoc]
    refine congrArg (parseBatchId batchIdHex >>= ·) (funext fun batchId => ?_)
    rw [bind_assoc]
    refine congrArg (buildStamper tools signer batchId depth immutable >>= ·) (funext fun stamper => ?_)
    rw [bind_assoc]
    refine congrArg (gather tools redundancy files ⟨.empty, []⟩ >>= ·) (funext fun g => ?_)
    rw [bind_assoc]
    refine congrArg (Except.mapError _ _ >>= ·) (funext fun built => ?_)
    have whole : (fromParts built.1 (built.2.foldl Distinct.take g.chunks).items stamper).remaining.reverse =
        (built.2.foldl Distinct.take g.chunks).items := List.reverse_reverse _
    change _ = (stampChunksParallel target tools stamper t (fromParts built.1 _ stamper).remaining.reverse).2.map _
    rw [whole]
    dsimp only
    cases (stampChunksParallel target tools stamper t (built.2.foldl Distinct.take g.chunks).items).2 <;> rfl

variable {tools signer batchIdHex depth immutable files indexDocument errorDocument redundancy}

theorem buildStamper_signer {batchId : Addr} {stamper : Stamper Signer Issuer}
    (built : buildStamper tools signer batchId depth immutable = .ok stamper) : stamper.signer = signer := by
  unfold buildStamper at built
  dsimp only at built
  generalize (if immutable = true then _ else _ : Except String Issuer) = made at built
  cases made with
  | error e => cases built
  | ok issuer => cases built; rfl

theorem newCollection_ok {st : UploadStreamer Signer Issuer}
    (opened : newCollection tools signer batchIdHex depth immutable files indexDocument errorDocument redundancy =
      .ok st) :
    ∃ issuer, ∃ d : Distinct Addr (List UInt8), st = toGo st.root signer d.items.length issuer d.items ∧
      collectionRoot tools files indexDocument errorDocument redundancy = .ok (st.root, d.items.length) := by
  unfold newCollection at opened
  unfold collectionRoot
  split at opened
  next => cases opened
  next some_ =>
    obtain ⟨batchId, -, opened⟩ := bind_ok opened
    obtain ⟨stamper, built, opened⟩ := bind_ok opened
    obtain ⟨g, gathered, opened⟩ := bind_ok opened
    obtain ⟨⟨root, chunks⟩, manifest, opened⟩ := bind_ok opened
    cases opened
    have addresses := gatherAddresses_eq tools redundancy files ⟨.empty, []⟩
    rw [gathered] at addresses
    refine ⟨stamper.issuer, chunks.foldl Distinct.take g.chunks, ?_, ?_⟩
    · rw [toGo, ← buildStamper_signer built]
      rfl
    · rw [if_neg some_]
      change gatherAddresses tools redundancy files (∅, []) = .ok (g.chunks.seen, g.entries) at addresses
      rw [addresses, ← Distinct.card_seen, Distinct.seen_foldl_take]
      change (tools.buildCollectionManifest g.entries indexDocument errorDocument).mapError ClientError.manifest >>= _ = _
      rw [manifest]
      rfl

theorem uploads_agree (steady : tools.Steady) (target : Target) (signer : Signer) (batchIdHex : String)
    (depth : UInt8) (immutable : Bool) (files : List UploadFile) (indexDocument errorDocument : Option String)
    (redundancy : Level) (timestamp : Nat) (windows : List (Nat × Nat)) :
    let oneShot := prepareUploadCollection target tools signer batchIdHex depth immutable files indexDocument
      errorDocument redundancy timestamp
    let streamed := newCollection tools signer batchIdHex depth immutable files indexDocument errorDocument redundancy
    (∀ root work, oneShot = .ok (root, work) →
      (work.map (·.addr)).Nodup ∧
      collectionRoot tools files indexDocument errorDocument redundancy = .ok (root, work.length) ∧
      ∃ st, streamed = .ok st ∧ st.root = root ∧ st.total = work.length ∧
        (∀ k, ∃ out, (batches target tools st (windows.take k)).2 = .ok out ∧
          (batches target tools st (windows.take k)).1.remaining.length + out.length = st.total) ∧
        (st.total ≤ (windows.map Prod.fst).sum →
          ∃ out, (batches target tools st windows).2 = .ok out ∧ out.map pair = work.map pair ∧
            (batches target tools st windows).1.remaining = [] ∧
            (batches target tools st windows).1.stamper.issuer =
              (work.map pair).foldl tools.advance st.stamper.issuer)) ∧
    ∀ e, oneShot = .error e → streamed = .error e ∨ ∃ st, streamed = .ok st ∧
      (st.total ≤ (windows.map Prod.fst).sum → ∃ text, (batches target tools st windows).2 = .error (.stamp text)) := by
  intro oneShot streamed
  have whole : oneShot = streamed >>= _ := prepareUploadCollection_eq ..
  cases opened : streamed with
  | error e =>
    have refused : oneShot = .error e := by
      rw [whole, opened]
      rfl
    rw [refused]
    exact ⟨fun root work ok => (by cases ok), fun e' failed => .inl (congrArg _ (Except.error.inj failed))⟩
  | ok st =>
    obtain ⟨issuer, d, shape, root⟩ := newCollection_ok opened
    generalize st.root = top at shape root
    subst shape
    have stamped : oneShot = (stampChunksParallel target tools ⟨issuer, signer⟩ timestamp d.items).2.map (top, ·) := by
      rw [whole, opened]
      change (stampChunksParallel target tools ⟨issuer, signer⟩ timestamp d.items.reverse.reverse).2.map _ = _
      rw [List.reverse_reverse]
      rfl
    have spec := stamp_spec steady timestamp target ⟨issuer, signer⟩ d.items
    have handed := @batches_spec _ _ _ _ steady target top signer d.items.length
    by_cases can : tools.Stampable signer issuer d.items
    · obtain ⟨out, result, pairs⟩ := spec.whole can
      rw [stamped, (Prod.mk.inj result).2]
      refine ⟨fun top' work ok => ?_, fun e failed => by cases failed⟩
      cases ok
      have count : d.items.length = out.length := by rw [← pairs, List.length_map]
      refine ⟨?_, count ▸ root, _, rfl, rfl, count, fun k => ?_, fun enough => ?_⟩
      · have nodup := d.nodup
        rw [← pairs, List.map_map] at nodup
        exact nodup
      · exact (handed (windows.take k) issuer d.items).counts can
      · obtain ⟨given, ok, all, drained, last⟩ := (handed windows issuer d.items).drains can enough
        exact ⟨given, ok, all.trans pairs.symm, drained, pairs ▸ last⟩
    · obtain ⟨text, failed⟩ := spec.fails can
      rw [stamped, failed]
      refine ⟨fun top' work ok => (by cases ok), fun e _ => .inr ⟨_, rfl, fun enough => ?_⟩⟩
      refine (handed windows issuer d.items).fails ?_
      rwa [List.take_of_length_le enough]

def byteTools : Tools Unit Nat Nat where
  splitChunks data _ := .ok (⟨List.replicate 32 (data.headD 0), rfl⟩,
    data.map fun b => (⟨List.replicate 32 b, List.length_replicate⟩, [b]))
  buildCollectionManifest entries _ _ := .ok (⟨List.replicate 32 255, rfl⟩,
    [(⟨List.replicate 32 255, rfl⟩, [UInt8.ofNat entries.length]), (⟨List.replicate 32 1, rfl⟩, [1])])
  ethAddress _ := ⟨List.replicate 20 7, rfl⟩
  memoryIssuer batch := if batch.bucketDepth < batch.depth then .ok 0 else .error "depth"
  ringIssuer batch := if batch.bucketDepth < batch.depth then .ok 0 else .error "depth"
  prepareStamp issuer _ t := (issuer + 1, if issuer < 10 then .ok (issuer + 1000 * t) else .error "full")
  signMessage _ _ := .ok [27]
  stampFromSignature _ signature := signature

theorem byteTools_steady : byteTools.Steady where
  issuer _ _ _ _ := rfl
  allocates issuer _ _ _ := by
    dsimp only [byteTools]
    split <;> rfl
  signs _ _ _ := rfl

/-- Two files that share a chunk with each other and one with the manifest, in windows of one, two and four. -/
theorem uploads_agree_shared :
    let files : List UploadFile := [⟨"a", none, [1, 2]⟩, ⟨"b", none, [2, 3]⟩]
    let batch := "0x0101010101010101010101010101010101010101010101010101010101010101"
    let pairs : List Chunk := [1, 2, 3].map (fun b => (⟨List.replicate 32 b, List.length_replicate⟩, [b])) ++
      [(⟨List.replicate 32 255, rfl⟩, [2])]
    collectionRoot byteTools files none none .none = .ok (⟨List.replicate 32 255, rfl⟩, 4) ∧
    ∃ st, newCollection byteTools () batch 20 true files none none .none = .ok st ∧
      ∃ out, (batches .native byteTools st [(1, 6), (2, 7), (4, 8)]).2 = .ok out ∧ out.map pair = pairs := by
  intro files batch pairs
  have agree := (uploads_agree byteTools_steady .native () batch 20 true files none none .none 5
    [(1, 6), (2, 7), (4, 8)]).1
  obtain ⟨-, root, st, opened, -, total, -, drained⟩ :=
    agree ⟨List.replicate 32 255, rfl⟩ (pairs.map fun c => ⟨c.1, c.2, [27]⟩) (by decide +kernel)
  obtain ⟨out, ok, same, -⟩ := drained (total ▸ by decide)
  exact ⟨root, st, opened, out, ok, same⟩

end Agreement

end Hoverfly.Upload
