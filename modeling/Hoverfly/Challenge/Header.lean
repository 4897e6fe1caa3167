import Hoverfly.Lib.Text
import Hoverfly.Relay.Push

/-! Admission challenges: what the relay's nonce covers, how a challenge travels to the client and back, and the
check of a presented one. Keccak, JSON text, base64 and signatures are parameters. -/
namespace Hoverfly.Challenge
open Lib Meter Relay

def utf8 (s : String) : List UInt8 := s.toUTF8.data.toList

def domainTag : List UInt8 := utf8 "hoverfly-pusher-challenge-v1"
def challengeTtlSecs : Nat := 300
def maxChallengeHeader : Nat := 2048

structure ChallengeFields where
  account : EthAddr
  batch : Bytes 32
  origin : String
  /-- A `u64`. -/
  expiryUnix : Nat
  /-- The credit line granted to the batch, a `u128`. -/
  capPlur : Nat
deriving DecidableEq

inductive ChallengeError where
  | badMac
  | expired (secs : Nat)
  | originMismatch (got want : String)
  | emptyOrigin
  | originTooLong (bytes : Nat)
deriving DecidableEq

def ChallengeError.message : ChallengeError → String
  | .badMac => "challenge nonce is not ours"
  | .expired secs => s!"challenge expired {secs}s ago"
  | .originMismatch got want => s!"challenge origin {got.quote} is not this relay ({want.quote})"
  | .emptyOrigin => "challenge origin is empty"
  | .originTooLong bytes => s!"origin too long: {bytes} bytes (max 65535)"

def toBe (k n : Nat) : List UInt8 := (toLe k n).reverse

/-- The bytes the MAC covers: the fixed widths first, then the length of the origin, then the origin. -/
def preimage (f : ChallengeFields) : Except ChallengeError (List UInt8) :=
  if f.origin.isEmpty then .error .emptyOrigin
  else
    let olen := f.origin.utf8ByteSize
    if olen > 2 ^ 16 - 1 then .error (.originTooLong olen)
    else
      .ok (domainTag ++ f.account.val ++ f.batch.val ++ toBe 8 f.expiryUnix ++ toBe 16 f.capPlur ++ toBe 2 olen ++
        utf8 f.origin)

def constantTimeEq (a b : List UInt8) : Bool :=
  a.length == b.length && (List.zipWith (· ^^^ ·) a b).foldl (· ||| ·) 0 == 0

/-- A member of a JSON object; nested values, booleans, nulls and other numbers are never read. -/
inductive Scalar where
  | str (s : String)
  | num (n : Nat)
  | other
deriving DecidableEq

inductive Json where
  | obj (members : List (String × Scalar))
  | other
deriving DecidableEq

namespace Json

def get (v : Json) (k : String) : Option Scalar :=
  match v with
  | .obj members => members.lookup k
  | .other => none

def str (v : Json) (k : String) : Option String :=
  match v.get k with
  | some (.str s) => some s
  | _ => none

def u64 (v : Json) (k : String) : Option Nat :=
  match v.get k with
  | some (.num n) => if n < 2 ^ 64 then some n else none
  | _ => none

end Json

def okOr {A : Type} (o : Option A) (missing : String) : Except String A :=
  match o with
  | some a => .ok a
  | none => .error missing

def fixedField (missing : String) (notHex : String → String) (wrongLength : Nat → String) (v : Json) (k : String)
    (n : Nat) : Except String (Bytes n) :=
  match v.str k with
  | none => .error missing
  | some s =>
    match hexDecode (dropMarks s.toList) with
    | .error e => .error (notHex e)
    | .ok raw => if h : raw.length = n then .ok ⟨raw, h⟩ else .error (wrongLength raw.length)

structure Codecs (Header Body : Type) where
  size : Header → Nat
  jsonText : Json → Body
  parseJson : Body → Except String Json
  encode64 : Body → Header
  /-- Of the trimmed header. -/
  decode64 : Header → Except String Body

structure IssuedChallenge where
  fields : ChallengeFields
  nonce : Bytes 32
deriving DecidableEq

def marked (bytes : List UInt8) : Scalar := .str ("0x" ++ hexEncode bytes)

def IssuedChallenge.toJson (c : IssuedChallenge) : Json :=
  .obj [("nonce", marked c.nonce.val), ("account", marked c.fields.account.val), ("batch", marked c.fields.batch.val),
    ("origin", .str c.fields.origin), ("expiry", .num c.fields.expiryUnix),
    ("max_outstanding_plur", .str (toString c.fields.capPlur)),
    ("expires_ms", .num (min (c.fields.expiryUnix * 1000) (2 ^ 64 - 1)))]

structure PresentedChallenge where
  fields : ChallengeFields
  nonce : Bytes 32
  sig : Bytes 65

namespace PresentedChallenge

def fixed (v : Json) (k : String) (n : Nat) : Except String (Bytes n) :=
  fixedField s!"challenge header: missing {k}" (fun e => s!"challenge {k} hex: {e}")
    (fun got => s!"challenge {k} must be {n} bytes, got {got}") v k n

def getStr (v : Json) (k : String) : Except String String := okOr (v.str k) s!"challenge header: missing {k}"

def ofJson (v : Json) : Except String PresentedChallenge := do
  let account ← fixed v "account" 20
  let batch ← fixed v "batch" 32
  let nonce ← fixed v "nonce" 32
  let sig ← fixed v "sig" 65
  let expiryUnix ← okOr (v.u64 "expiry") "challenge header: missing expiry"
  let cap ← getStr v "max_outstanding_plur"
  let capPlur ← (parseDecimal (2 ^ 128) cap.toList).mapError (s!"challenge cap: {·}")
  let origin ← getStr v "origin"
  return { fields := { account, batch, origin, expiryUnix, capPlur }, nonce, sig }

def decode {Header Body : Type} (codecs : Codecs Header Body) (raw : Header) : Except String PresentedChallenge := do
  let bytes ← (codecs.decode64 raw).mapError (s!"challenge header base64: {·}")
  let v ← (codecs.parseJson bytes).mapError (s!"challenge header json: {·}")
  ofJson v

end PresentedChallenge

def headerJson (issued : IssuedChallenge) (sig : Bytes 65) : Json :=
  .obj [("nonce", marked issued.nonce.val), ("account", marked issued.fields.account.val),
    ("batch", marked issued.fields.batch.val), ("origin", .str issued.fields.origin),
    ("expiry", .num issued.fields.expiryUnix), ("max_outstanding_plur", .str (toString issued.fields.capPlur)),
    ("sig", marked sig.val)]

def encodeChallengeHeader {Header Body : Type} (codecs : Codecs Header Body) (issued : IssuedChallenge)
    (sig : Bytes 65) : Header := codecs.encode64 (codecs.jsonText (headerJson issued sig))

structure PushChallenge where
  nonce : Bytes 32
  origin : String
  account : EthAddr
  batchId : Bytes 32
  expiry : Nat
deriving DecidableEq

structure Signer where
  address : EthAddr
  signPushChallenge : PushChallenge → (chainId : Nat) → Except String (Bytes 65)

structure OfferedChallenge where
  nonce : Bytes 32
  account : EthAddr
  batch : Bytes 32
  origin : String
  expiryUnix : Nat
  capPlur : Nat
deriving DecidableEq

namespace OfferedChallenge

def fixed (v : Json) (k : String) (n : Nat) : Except String (Bytes n) :=
  fixedField s!"challenge: missing {k}" (fun e => s!"challenge {k}: {e}")
    (fun got => s!"challenge {k}: want {n} bytes, got {got}") v k n

def parse (v : Json) : Except String OfferedChallenge := do
  let nonce ← fixed v "nonce" 32
  let account ← fixed v "account" 20
  let batch ← fixed v "batch" 32
  let origin ← okOr (v.str "origin") "challenge: missing origin"
  let expiryUnix ← okOr (v.u64 "expiry") "challenge: missing expiry"
  let capPlur ← okOr ((v.str "max_outstanding_plur").bind fun s => (parseDecimal (2 ^ 128) s.toList).toOption)
    "challenge: missing max_outstanding_plur"
  return { nonce, account, batch, origin, expiryUnix, capPlur }

def pushChallenge (c : OfferedChallenge) : PushChallenge :=
  { nonce := c.nonce, origin := c.origin, account := c.account, batchId := c.batch, expiry := c.expiryUnix }

def issued (c : OfferedChallenge) : IssuedChallenge :=
  { fields := { account := c.account, batch := c.batch, origin := c.origin, expiryUnix := c.expiryUnix
                capPlur := c.capPlur }
    nonce := c.nonce }

def sign {Header Body : Type} (codecs : Codecs Header Body) (c : OfferedChallenge) (signer : Signer) (chainId : Nat) :
    Except String Header := do
  let sig ← signer.signPushChallenge c.pushChallenge chainId
  return encodeChallengeHeader codecs c.issued sig

end OfferedChallenge

structure Issuer where
  secret : Bytes 32
  /-- Configured, and never derived from a request. -/
  origins : List String
  chainId : Nat
  params : Params

section
variable (keccak256 : List UInt8 → Bytes 32)

def nonce (secret : Bytes 32) (f : ChallengeFields) : Except ChallengeError (Bytes 32) := do
  let message ← preimage f
  return keccak256 (secret.val ++ message)

def verify (secret : Bytes 32) (f : ChallengeFields) (presented : List UInt8) (nowUnix : Nat) (origins : List String) :
    Except ChallengeError Unit :=
  if !origins.any (· == f.origin) then .error (.originMismatch f.origin (",".intercalate origins))
  else
    match nonce keccak256 secret f with
    | .error e => .error e
    | .ok want =>
      if !constantTimeEq presented want.val then .error .badMac
      else if nowUnix > f.expiryUnix then .error (.expired (nowUnix - f.expiryUnix))
      else .ok ()

def issue (r : Issuer) (account : EthAddr) (batch : Bytes 32) (remainingValuePlur : Nat) (origin : String) (now : Nat) :
    Except ChallengeError IssuedChallenge := do
  let fields : ChallengeFields :=
    { account, batch, origin, expiryUnix := satAdd 64 now challengeTtlSecs
      capPlur := r.params.creditLine remainingValuePlur }
  return { fields, nonce := ← nonce keccak256 r.secret fields }

def challengeResponse (r : Issuer) (account : EthAddr) (batch : Bytes 32) (remainingValuePlur now : Nat) :
    Except ChallengeError IssuedChallenge :=
  issue keccak256 r account batch remainingValuePlur (r.origins.headD "") now

/-- Two proofs: the relay's MAC over the nonce, and the account's signature over the same fields. -/
def verifyHeader {Header Body : Type} (codecs : Codecs Header Body)
    (recover : PushChallenge → (chainId : Nat) → Bytes 65 → Except String EthAddr) (r : Issuer) (raw : Header)
    (now : Nat) : Except String VerifiedChallenge :=
  if codecs.size raw > maxChallengeHeader then .error s!"challenge header too large: {codecs.size raw} bytes"
  else
    match PresentedChallenge.decode codecs raw with
    | .error e => .error e
    | .ok presented =>
      let f := presented.fields
      match verify keccak256 r.secret f presented.nonce.val now r.origins with
      | .error e => .error e.message
      | .ok () =>
        let sol : PushChallenge :=
          { nonce := presented.nonce, origin := f.origin, account := f.account, batchId := f.batch, expiry := f.expiryUnix }
        match recover sol r.chainId presented.sig with
        | .error e => .error s!"challenge signature: {e}"
        | .ok signer =>
          if signer ≠ f.account then
            .error s!"challenge signed by 0x{hexEncode signer.val} but claims account 0x{hexEncode f.account.val}"
          else .ok { account := f.account, batch := f.batch, capPlur := f.capPlur }

end

end Hoverfly.Challenge
