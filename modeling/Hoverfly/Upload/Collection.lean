import Hoverfly.Erasure.Level
import Hoverfly.Lib.Distinct
import Hoverfly.Lib.Text
import Hoverfly.Push.Frame

/-! Uploading a collection: split every file, build the manifest, stamp what is new. The
splitter, the manifest builder, the stamp issuer and the signer are other crates: they
are what `Tools` holds. -/
namespace Hoverfly.Upload
open Lib Erasure Push

abbrev Addr := Bytes 32
abbrev Chunk := Addr × List UInt8

inductive ClientError where
  | hex (error : String)
  | badBatchLen (length : Nat)
  | file (error : String)
  | manifest (error : String)
  | stamp (error : String)
deriving DecidableEq

structure UploadFile where
  path : String
  contentType : Option String
  data : List UInt8

structure CollectionEntry where
  path : String
  reference : Addr
  contentType : Option String

def bucketDepth : UInt8 := 16

structure Batch where
  id : Addr
  owner : Bytes 20
  depth : UInt8
  bucketDepth : UInt8
  immutable : Bool

structure Tools (Signer Issuer Digest : Type) where
  splitChunks : List UInt8 → Level → Except ClientError (Addr × List Chunk)
  buildCollectionManifest : List CollectionEntry → Option String → Option String → Except String (Addr × List Chunk)
  ethAddress : Signer → Bytes 20
  /-- Fills an immutable batch. -/
  memoryIssuer : Batch → Except String Issuer
  /-- Reuses the slots of a mutable batch. -/
  ringIssuer : Batch → Except String Issuer
  prepareStamp : Issuer → Addr → (timestamp : Nat) → Issuer × Except String Digest
  signMessage : Signer → Digest → Except String (List UInt8)
  stampFromSignature : Digest → List UInt8 → List UInt8

variable {Signer Issuer Digest : Type}

def parseBatchId (text : String) : Except ClientError Addr :=
  match hexDecode (dropMarks text.toList) with
  | .error e => .error (.hex e)
  | .ok bytes => if sized : bytes.length = 32 then .ok ⟨bytes, sized⟩ else .error (.badBatchLen bytes.length)

structure Stamper (Signer Issuer : Type) where
  issuer : Issuer
  signer : Signer

def buildStamper (tools : Tools Signer Issuer Digest) (signer : Signer) (batchId : Addr) (depth : UInt8)
    (immutable : Bool) : Except ClientError (Stamper Signer Issuer) :=
  let batch : Batch := ⟨batchId, tools.ethAddress signer, depth, bucketDepth, immutable⟩
  ((if immutable then tools.memoryIssuer batch else tools.ringIssuer batch).mapError .stamp).map (⟨·, signer⟩)

section Stamping

variable (tools : Tools Signer Issuer Digest) (signer : Signer) (timestamp : Nat)

def signOne (chunk : Chunk × Digest) : Except ClientError StampedChunk :=
  ((tools.signMessage signer chunk.2).mapError .stamp).map fun signature =>
    ⟨chunk.1.1, chunk.1.2, tools.stampFromSignature chunk.2 signature⟩

def prepareAll (issuer : Issuer) : List Chunk → Issuer × Except ClientError (List (Chunk × Digest))
  | [] => (issuer, .ok [])
  | chunk :: rest =>
    match tools.prepareStamp issuer chunk.1 timestamp with
    | (issuer', .error e) => (issuer', .error (.stamp e))
    | (issuer', .ok digest) =>
      let (last, out) := prepareAll issuer' rest
      (last, out.map ((chunk, digest) :: ·))

/-- Where signing is serial, a chunk is signed before the next index is allocated. -/
def stampSerial (issuer : Issuer) : List Chunk → Issuer × Except ClientError (List StampedChunk)
  | [] => (issuer, .ok [])
  | chunk :: rest =>
    match tools.prepareStamp issuer chunk.1 timestamp with
    | (issuer', .error e) => (issuer', .error (.stamp e))
    | (issuer', .ok digest) =>
      match signOne tools signer (chunk, digest) with
      | .error e => (issuer', .error e)
      | .ok stamped =>
        let (last, out) := stampSerial issuer' rest
        (last, out.map (stamped :: ·))

end Stamping

inductive Target where
  | native
  | wasm32
deriving DecidableEq

/-- Of several signatures that fail the threads may report any; here it is the first. -/
def stampChunksParallel (target : Target) (tools : Tools Signer Issuer Digest) (stamper : Stamper Signer Issuer)
    (timestamp : Nat) (work : List Chunk) : Stamper Signer Issuer × Except ClientError (List StampedChunk) :=
  match target with
  | .native =>
    let (issuer, prepared) := prepareAll tools timestamp stamper.issuer work
    ({ stamper with issuer }, prepared >>= (·.mapM (signOne tools stamper.signer)))
  | .wasm32 =>
    let (issuer, out) := stampSerial tools stamper.signer timestamp stamper.issuer work
    ({ stamper with issuer }, out)

structure Gathered where
  chunks : Distinct Addr (List UInt8)
  entries : List CollectionEntry

section Files

variable (tools : Tools Signer Issuer Digest) (level : Level)

def entryOf (f : UploadFile) (root : Addr) : CollectionEntry := ⟨f.path, root, f.contentType⟩

def gather : List UploadFile → Gathered → Except ClientError Gathered
  | [], g => .ok g
  | f :: rest, g => do
    let (fileRoot, fileChunks) ← tools.splitChunks f.data level
    gather rest ⟨fileChunks.foldl Distinct.take g.chunks, g.entries ++ [entryOf f fileRoot]⟩

def gatherAddresses : List UploadFile → Finset Addr × List CollectionEntry →
    Except ClientError (Finset Addr × List CollectionEntry)
  | [], g => .ok g
  | f :: rest, g => do
    let (fileRoot, fileChunks) ← tools.splitChunks f.data level
    gatherAddresses rest (fileChunks.foldl (fun seen c => insert c.1 seen) g.1, g.2 ++ [entryOf f fileRoot])

end Files

section Uploads

variable (target : Target) (tools : Tools Signer Issuer Digest) (signer : Signer) (batchIdHex : String)
  (depth : UInt8) (immutable : Bool) (files : List UploadFile) (indexDocument errorDocument : Option String)
  (redundancy : Level)

def prepareUploadCollection (timestamp : Nat) : Except ClientError (Addr × List StampedChunk) :=
  if files.isEmpty then .error (.manifest "collection is empty") else do
    let batchId ← parseBatchId batchIdHex
    let stamper ← buildStamper tools signer batchId depth immutable
    let g ← gather tools redundancy files ⟨.empty, []⟩
    let (manifestRoot, manifestChunks) ←
      (tools.buildCollectionManifest g.entries indexDocument errorDocument).mapError .manifest
    let stampIn := (manifestChunks.foldl Distinct.take g.chunks).items
    let work ← (stampChunksParallel target tools stamper timestamp stampIn).2
    .ok (manifestRoot, work)

structure UploadStreamer (Signer Issuer : Type) where
  root : Addr
  remaining : List Chunk
  stamper : Stamper Signer Issuer
  total : Nat

def UploadStreamer.fromParts (root : Addr) (stampIn : List Chunk) (stamper : Stamper Signer Issuer) :
    UploadStreamer Signer Issuer :=
  ⟨root, stampIn.reverse, stamper, stampIn.length⟩

def UploadStreamer.newCollection : Except ClientError (UploadStreamer Signer Issuer) :=
  if files.isEmpty then .error (.manifest "collection is empty") else do
    let batchId ← parseBatchId batchIdHex
    let stamper ← buildStamper tools signer batchId depth immutable
    let g ← gather tools redundancy files ⟨.empty, []⟩
    let (manifestRoot, manifestChunks) ←
      (tools.buildCollectionManifest g.entries indexDocument errorDocument).mapError .manifest
    .ok (fromParts manifestRoot (manifestChunks.foldl Distinct.take g.chunks).items stamper)

def collectionRoot : Except ClientError (Addr × Nat) :=
  if files.isEmpty then .error (.manifest "collection is empty") else do
    let (seen, entries) ← gatherAddresses tools redundancy files (∅, [])
    let (manifestRoot, manifestChunks) ←
      (tools.buildCollectionManifest entries indexDocument errorDocument).mapError .manifest
    .ok (manifestRoot, (manifestChunks.foldl (fun seen c => insert c.1 seen) seen).card)

end Uploads

namespace UploadStreamer

variable (target : Target) (tools : Tools Signer Issuer Digest)

def nextBatch (st : UploadStreamer Signer Issuer) (batchSize timestamp : Nat) :
    UploadStreamer Signer Issuer × Except ClientError (List StampedChunk) :=
  let n := min batchSize st.remaining.length
  if n = 0 then (st, .ok []) else
    let (window, remaining) := popMany n st.remaining
    let (stamper, out) := stampChunksParallel target tools st.stamper timestamp window
    ({ st with remaining, stamper }, out)

def batches (st : UploadStreamer Signer Issuer) :
    List (Nat × Nat) → UploadStreamer Signer Issuer × Except ClientError (List StampedChunk)
  | [] => (st, .ok [])
  | (batchSize, timestamp) :: rest =>
    match nextBatch target tools st batchSize timestamp with
    | (st', .error e) => (st', .error e)
    | (st', .ok window) =>
      let (last, out) := batches st' rest
      (last, out.map (window ++ ·))

end UploadStreamer

end Hoverfly.Upload
