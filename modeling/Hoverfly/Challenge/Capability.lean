import Hoverfly.Challenge.Header
import Hoverfly.Lib.Checked

/-! A challenge binds all its fields: the MAC's preimage determines them, an accepted header
is one this relay issued, and what it issued is accepted. -/
namespace Hoverfly.Challenge
open Lib Meter Relay

def ChallengeFields.InRange (f : ChallengeFields) : Prop := Fits 64 f.expiryUnix ∧ Fits 128 f.capPlur

theorem utf8_injective {s t : String} (same : utf8 s = utf8 t) : s = t := by
  simp only [utf8, String.toUTF8_eq_toByteArray] at same
  rw [← String.toByteArray_inj]
  exact ByteArray.ext (Array.toList_inj.mp same)

@[simp] theorem length_toBe (k n : Nat) : (toBe k n).length = k := by simp [toBe]

theorem toBe_injective {k m n : Nat} (fitsM : m < 256 ^ k) (fitsN : n < 256 ^ k) (same : toBe k m = toBe k n) :
    m = n := by
  have bytes := congrArg fromLe (List.reverse_injective same)
  rwa [fromLe_toLe, fromLe_toLe, Nat.mod_eq_of_lt fitsM, Nat.mod_eq_of_lt fitsN] at bytes

theorem preimage_injective {f g : ChallengeFields} (rangeF : f.InRange) (rangeG : g.InRange) {m : List UInt8}
    (ofF : preimage f = .ok m) (ofG : preimage g = .ok m) : f = g := by
  unfold preimage at ofF ofG
  dsimp only at ofF ofG
  split at ofF
  · cases ofF
  split at ofF
  · cases ofF
  split at ofG
  · cases ofG
  split at ofG
  · cases ofG
  have same := Except.ok.inj (ofF.trans ofG.symm)
  simp only [List.append_assoc] at same
  -- every field before the origin has a fixed width
  obtain ⟨-, same⟩ := List.append_inj same rfl
  obtain ⟨account, same⟩ := List.append_inj same (f.account.property.trans g.account.property.symm)
  obtain ⟨batch, same⟩ := List.append_inj same (f.batch.property.trans g.batch.property.symm)
  obtain ⟨expiry, same⟩ := List.append_inj same (by simp)
  obtain ⟨cap, same⟩ := List.append_inj same (by simp)
  obtain ⟨-, origin⟩ := List.append_inj same (by simp)
  have expiry := toBe_injective (k := 8) rangeF.1 rangeG.1 expiry
  have cap := toBe_injective (k := 16) rangeF.2 rangeG.2 cap
  obtain ⟨_, _, _, _, _⟩ := f
  obtain ⟨_, _, _, _, _⟩ := g
  simp only [ChallengeFields.mk.injEq]
  exact ⟨Subtype.ext account, Subtype.ext batch, utf8_injective origin, expiry, cap⟩

theorem foldl_or_eq_zero (xs : List UInt8) (acc : UInt8) :
    xs.foldl (· ||| ·) acc = 0 ↔ acc = 0 ∧ ∀ x ∈ xs, x = 0 := by
  induction xs generalizing acc with
  | nil => simp
  | cons x xs ih => simp [ih, and_assoc]

theorem constantTimeEq_iff (a b : List UInt8) : constantTimeEq a b = true ↔ a = b := by
  induction a generalizing b with
  | nil => cases b <;> simp [constantTimeEq]
  | cons x a ih =>
    cases b with
    | nil => simp [constantTimeEq]
    | cons y b =>
      have rest := ih b
      simp only [constantTimeEq, Bool.and_eq_true, beq_iff_eq, foldl_or_eq_zero, true_and] at rest ⊢
      simp only [List.length_cons, Nat.add_right_cancel_iff, List.zipWith_cons_cons, List.forall_mem_cons,
        UInt8.xor_eq_zero_iff, List.cons.injEq, ← rest]
      exact and_left_comm

section
variable {keccak256 : List UInt8 → Bytes 32}

theorem verify_ok_iff {secret : Bytes 32} {f : ChallengeFields} {presented : List UInt8} {now : Nat}
    {origins : List String} :
    verify keccak256 secret f presented now origins = .ok () ↔
      f.origin ∈ origins ∧ (∃ m, preimage f = .ok m ∧ (keccak256 (secret.val ++ m)).val = presented) ∧
        now ≤ f.expiryUnix := by
  have listed : origins.any (· == f.origin) = true ↔ f.origin ∈ origins := by simp
  unfold verify nonce
  by_cases known : f.origin ∈ origins
  · rw [listed.mpr known]
    cases covered : preimage f with
    | error e => simp [bind, Except.bind]
    | ok m =>
      have ours := constantTimeEq_iff presented (keccak256 (secret.val ++ m)).val
      simp only [Bool.not_true, Bool.false_eq_true, if_false, bind, Except.bind, pure, Except.pure, known, true_and,
        Except.ok.injEq, exists_eq_left']
      by_cases mac : presented = (keccak256 (secret.val ++ m)).val
      · rw [ours.mpr mac, mac]
        simp only [Bool.not_true, Bool.false_eq_true, if_false, true_and]
        split <;> simp_all
      · rw [Bool.eq_false_iff.mpr fun same => mac (ours.mp same)]
        simp [Ne.symm mac]
  · rw [Bool.eq_false_iff.mpr fun any_ => known (listed.mp any_)]
    simp [known]

def PresentedChallenge.pushChallenge (c : PresentedChallenge) : PushChallenge :=
  { nonce := c.nonce, origin := c.fields.origin, account := c.fields.account, batchId := c.fields.batch
    expiry := c.fields.expiryUnix }

variable {Header Body : Type} {codecs : Codecs Header Body}
  {recover : PushChallenge → (chainId : Nat) → Bytes 65 → Except String EthAddr} {r : Issuer}

theorem verifyHeader_ok_iff {raw : Header} {now : Nat} {v : VerifiedChallenge} :
    verifyHeader keccak256 codecs recover r raw now = .ok v ↔
      codecs.size raw ≤ maxChallengeHeader ∧
      ∃ c, PresentedChallenge.decode codecs raw = .ok c ∧
        verify keccak256 r.secret c.fields c.nonce.val now r.origins = .ok () ∧
        recover c.pushChallenge r.chainId c.sig = .ok c.fields.account ∧
        v = ⟨c.fields.account, c.fields.batch, c.fields.capPlur⟩ := by
  unfold verifyHeader
  by_cases long : codecs.size raw > maxChallengeHeader
  · simp [long, Nat.not_le.mpr long]
  rw [if_neg long]
  cases PresentedChallenge.decode codecs raw with
  | error e => simp
  | ok c =>
    dsimp only
    cases checked : verify keccak256 r.secret c.fields c.nonce.val now r.origins with
    | error e => simp [checked]
    | ok _ =>
      cases signed : recover c.pushChallenge r.chainId c.sig with
      | error e =>
        simp only [PresentedChallenge.pushChallenge] at signed
        simp [signed, PresentedChallenge.pushChallenge]
      | ok signer =>
        simp only [PresentedChallenge.pushChallenge] at signed
        by_cases own : signer = c.fields.account
        · subst own
          simp [signed, checked, PresentedChallenge.pushChallenge, Nat.not_lt.mp long, eq_comm]
        · simp [signed, PresentedChallenge.pushChallenge, own]

theorem decimalFrom_lt {limit acc n : Nat} {cs : List Char} (small : acc < limit)
    (read : decimalFrom limit acc cs = .ok n) : n < limit := by
  induction cs generalizing acc with
  | nil =>
    simp only [decimalFrom, Except.ok.injEq] at read
    exact read ▸ small
  | cons c cs ih =>
    simp only [decimalFrom] at read
    split at read
    · split at read
      · rename_i next
        exact ih next read
      · cases read
    · cases read

theorem parseDecimal_lt {limit n : Nat} (pos : 0 < limit) {cs : List Char} (read : parseDecimal limit cs = .ok n) :
    n < limit := by
  unfold parseDecimal at read
  split at read
  · cases read
  · cases read
  · exact decimalFrom_lt pos read
  · exact decimalFrom_lt pos read

theorem Json.u64_lt {v : Json} {k : String} {n : Nat} (read : v.u64 k = some n) : n < 2 ^ 64 := by
  unfold Json.u64 at read
  split at read
  · split at read
    · cases read
      assumption
    · cases read
  · cases read

theorem inRange_of_decode {raw : Header} {c : PresentedChallenge} (decoded : PresentedChallenge.decode codecs raw = .ok c) :
    c.fields.InRange := by
  obtain ⟨bytes, -, decoded⟩ := bind_ok decoded
  obtain ⟨v, -, decoded⟩ := bind_ok decoded
  obtain ⟨account, -, decoded⟩ := bind_ok decoded
  obtain ⟨batch, -, decoded⟩ := bind_ok decoded
  obtain ⟨nonce, -, decoded⟩ := bind_ok decoded
  obtain ⟨sig, -, decoded⟩ := bind_ok decoded
  obtain ⟨expiryUnix, expiry, decoded⟩ := bind_ok decoded
  obtain ⟨text, -, decoded⟩ := bind_ok decoded
  obtain ⟨capPlur, cap, decoded⟩ := bind_ok decoded
  obtain ⟨origin, -, decoded⟩ := bind_ok decoded
  cases decoded
  refine ⟨?_, ?_⟩
  · cases read : v.u64 "expiry" with
    | none =>
      rw [read] at expiry
      cases expiry
    | some n =>
      rw [read] at expiry
      cases expiry
      exact Json.u64_lt read
  · cases read : parseDecimal (2 ^ 128) text.toList with
    | error e =>
      rw [read] at cap
      cases cap
    | ok n =>
      rw [read] at cap
      cases cap
      exact parseDecimal_lt (by norm_num) read

structure Request where
  account : EthAddr
  batch : Bytes 32
  remainingValuePlur : Nat
  now : Nat

def issuedBy (keccak256 : List UInt8 → Bytes 32) (r : Issuer) (requests : List Request) : List IssuedChallenge :=
  requests.filterMap fun q =>
    (challengeResponse keccak256 r q.account q.batch q.remainingValuePlur q.now).toOption

theorem issue_ok {account : EthAddr} {batch : Bytes 32} {value now : Nat} {c : IssuedChallenge}
    (fits : Fits 128 r.params.maxOutstandingPlur) (issued : challengeResponse keccak256 r account batch value now = .ok c) :
    c.fields.InRange ∧ c.fields.account = account ∧ c.fields.batch = batch ∧
      c.fields.capPlur = r.params.creditLine value ∧ c.fields.origin ∈ r.origins ∧
      ∃ m, preimage c.fields = .ok m ∧ c.nonce = keccak256 (r.secret.val ++ m) := by
  unfold challengeResponse issue nonce at issued
  dsimp only at issued
  generalize made : ChallengeFields.mk account batch (r.origins.headD "") (satAdd 64 now challengeTtlSecs)
    (r.params.creditLine value) = f at issued
  cases covered : preimage f with
  | error e =>
    rw [covered] at issued
    cases issued
  | ok m =>
    rw [covered] at issued
    cases issued
    subst made
    refine ⟨⟨?_, ?_⟩, rfl, rfl, rfl, ?_, m, covered, rfl⟩
    · exact Nat.lt_of_le_of_lt (Nat.min_le_right _ _) (by norm_num)
    · exact fits.mono (r.params.creditLine_le value)
    · -- with no origin configured the preimage is refused
      cases listed : r.origins with
      | nil =>
        rw [listed] at covered
        simp [preimage] at covered
      | cons first rest => simp

/-- Nobody forged this header: if its nonce is the MAC of what its fields say, the relay made that MAC. -/
def Unforged (keccak256 : List UInt8 → Bytes 32) (r : Issuer) (issued : List IssuedChallenge)
    (c : PresentedChallenge) : Prop :=
  ∀ m, preimage c.fields = .ok m → keccak256 (r.secret.val ++ m) = c.nonce →
    ∃ i ∈ issued, preimage i.fields = .ok m

theorem issued_of_verified (fits : Fits 128 r.params.maxOutstandingPlur) {requests : List Request} {raw : Header}
    {now : Nat} {v : VerifiedChallenge}
    (unforged : ∀ c, PresentedChallenge.decode codecs raw = .ok c →
      Unforged keccak256 r (issuedBy keccak256 r requests) c)
    (accepted : verifyHeader keccak256 codecs recover r raw now = .ok v) :
    ∃ i ∈ issuedBy keccak256 r requests, ∃ c, PresentedChallenge.decode codecs raw = .ok c ∧ c.fields = i.fields ∧
      v = ⟨i.fields.account, i.fields.batch, i.fields.capPlur⟩ ∧ i.fields.origin ∈ r.origins ∧
      now ≤ i.fields.expiryUnix ∧ recover c.pushChallenge r.chainId c.sig = .ok v.account := by
  obtain ⟨-, c, decoded, checked, signed, rfl⟩ := verifyHeader_ok_iff.mp accepted
  obtain ⟨origin, ⟨m, covered, mac⟩, fresh⟩ := verify_ok_iff.mp checked
  obtain ⟨i, issued, same⟩ := unforged c decoded m covered (Subtype.ext mac)
  obtain ⟨q, -, response⟩ := List.mem_filterMap.mp issued
  have made : challengeResponse keccak256 r q.account q.batch q.remainingValuePlur q.now = .ok i := by
    cases out : challengeResponse keccak256 r q.account q.batch q.remainingValuePlur q.now with
    | error e =>
      rw [out] at response
      cases response
    | ok j =>
      rw [out] at response
      cases response
      rfl
  have fields : c.fields = i.fields := preimage_injective (inRange_of_decode decoded) (issue_ok fits made).1 covered same
  rw [fields] at origin fresh
  exact ⟨i, issued, c, decoded, fields, by rw [fields], origin, fresh, signed⟩

def Json.Distinct : Json → Prop
  | .obj members => (members.map (·.1)).Nodup
  | .other => True

/-- The codecs give back what they were given; an object's members may come back in another order. -/
structure Codecs.Correct (codecs : Codecs Header Body) : Prop where
  base64 : ∀ b, codecs.decode64 (codecs.encode64 b) = .ok b
  json : ∀ v, v.Distinct → ∃ w, codecs.parseJson (codecs.jsonText v) = .ok w ∧ ∀ k, w.get k = v.get k

theorem fixedField_marked {missing : String} {notHex : String → String} {wrongLength : Nat → String} {v : Json}
    {k : String} {n : Nat} {b : Bytes n} (member : v.get k = some (marked b.val)) :
    fixedField missing notHex wrongLength v k n = .ok b := by
  have text : v.str k = some ("0x" ++ hexEncode b.val) := by
    rw [Json.str, member]
    rfl
  rw [fixedField, text]
  dsimp only
  rw [hexDecode_marked]
  exact dif_pos b.property

/-- A JSON value with the members by which both sides pass a challenge on. -/
structure Carries (w : Json) (c : IssuedChallenge) : Prop where
  nonce : w.get "nonce" = some (marked c.nonce.val)
  account : w.get "account" = some (marked c.fields.account.val)
  batch : w.get "batch" = some (marked c.fields.batch.val)
  origin : w.str "origin" = some c.fields.origin
  expiry : w.u64 "expiry" = some c.fields.expiryUnix
  cap : w.str "max_outstanding_plur" = some (toString c.fields.capPlur)

theorem carries_of_members {v w : Json} {c : IssuedChallenge} (carries : Carries v c) (same : ∀ k, w.get k = v.get k) :
    Carries w c where
  nonce := (same _).trans carries.nonce
  account := (same _).trans carries.account
  batch := (same _).trans carries.batch
  origin := by rw [Json.str, same]; exact carries.origin
  expiry := by rw [Json.u64, same]; exact carries.expiry
  cap := by rw [Json.str, same]; exact carries.cap

theorem carries_headerJson {c : IssuedChallenge} (range : c.fields.InRange) (sig : Bytes 65) :
    Carries (headerJson c sig) c := ⟨rfl, rfl, rfl, rfl, if_pos range.1, rfl⟩

theorem carries_toJson {c : IssuedChallenge} (range : c.fields.InRange) : Carries c.toJson c :=
  ⟨rfl, rfl, rfl, rfl, if_pos range.1, rfl⟩

theorem decode_encode (correct : codecs.Correct) {c : IssuedChallenge} (range : c.fields.InRange) (sig : Bytes 65) :
    PresentedChallenge.decode codecs (encodeChallengeHeader codecs c sig) = .ok ⟨c.fields, c.nonce, sig⟩ := by
  obtain ⟨w, read, members⟩ := correct.json (headerJson c sig) (by simp [headerJson, Json.Distinct])
  have carries := carries_of_members (carries_headerJson range sig) members
  have account : PresentedChallenge.fixed w "account" 20 = .ok c.fields.account := fixedField_marked carries.account
  have batch : PresentedChallenge.fixed w "batch" 32 = .ok c.fields.batch := fixedField_marked carries.batch
  have nonce : PresentedChallenge.fixed w "nonce" 32 = .ok c.nonce := fixedField_marked carries.nonce
  have signature : PresentedChallenge.fixed w "sig" 65 = .ok sig := fixedField_marked (members "sig")
  have number : parseDecimal (2 ^ 128) (toString c.fields.capPlur).toList = .ok c.fields.capPlur :=
    parseDecimal_toString range.2
  rw [PresentedChallenge.decode, encodeChallengeHeader, correct.base64]
  simp only [Except.mapError, bind, Except.bind, read, PresentedChallenge.ofJson, account, batch, nonce, signature,
    carries.expiry, okOr, PresentedChallenge.getStr, carries.cap, carries.origin, number, pure, Except.pure]

theorem parse_of_carries {w : Json} {c : IssuedChallenge} (range : c.fields.InRange) (carries : Carries w c) :
    ∃ offered, OfferedChallenge.parse w = .ok offered ∧ offered.issued = c := by
  have account : OfferedChallenge.fixed w "account" 20 = .ok c.fields.account := fixedField_marked carries.account
  have batch : OfferedChallenge.fixed w "batch" 32 = .ok c.fields.batch := fixedField_marked carries.batch
  have nonce : OfferedChallenge.fixed w "nonce" 32 = .ok c.nonce := fixedField_marked carries.nonce
  have number : parseDecimal (2 ^ 128) (toString c.fields.capPlur).toList = .ok c.fields.capPlur :=
    parseDecimal_toString range.2
  refine ⟨⟨c.nonce, c.fields.account, c.fields.batch, c.fields.origin, c.fields.expiryUnix, c.fields.capPlur⟩, ?_, rfl⟩
  simp only [OfferedChallenge.parse, bind, Except.bind, account, batch, nonce, carries.expiry, okOr, carries.cap,
    carries.origin, number, Option.bind, Except.toOption, pure, Except.pure]

def Signer.Sound (recover : PushChallenge → (chainId : Nat) → Bytes 65 → Except String EthAddr) (signer : Signer) : Prop :=
  ∀ sol chainId sig, signer.signPushChallenge sol chainId = .ok sig → recover sol chainId sig = .ok signer.address

theorem verified_of_issued (correct : codecs.Correct) (fits : Fits 128 r.params.maxOutstandingPlur) {q : Request}
    {issued : IssuedChallenge}
    (made : challengeResponse keccak256 r q.account q.batch q.remainingValuePlur q.now = .ok issued)
    {signer : Signer} (sound : signer.Sound recover) (own : signer.address = issued.fields.account)
    {offered : OfferedChallenge} (same : offered.issued = issued) {raw : Header}
    (signed : offered.sign codecs signer r.chainId = .ok raw) :
    (∃ sig, PresentedChallenge.decode codecs raw = .ok ⟨issued.fields, issued.nonce, sig⟩) ∧
      (codecs.size raw ≤ maxChallengeHeader → ∀ later ≤ issued.fields.expiryUnix,
        verifyHeader keccak256 codecs recover r raw later =
          .ok ⟨issued.fields.account, issued.fields.batch, issued.fields.capPlur⟩) := by
  obtain ⟨range, -, -, -, origin, m, covered, mac⟩ := issue_ok fits made
  obtain ⟨sig, signature, header⟩ := bind_ok signed
  cases header
  rw [same]
  have decoded := decode_encode correct range sig
  refine ⟨⟨sig, decoded⟩, fun short later fresh => verifyHeader_ok_iff.mpr ⟨short, _, decoded, ?_, ?_, rfl⟩⟩
  · exact verify_ok_iff.mpr ⟨origin, ⟨m, covered, congrArg Subtype.val mac.symm⟩, fresh⟩
  · have recovered := sound _ _ _ signature
    rw [own] at recovered
    subst same
    exact recovered

end

/-- A challenge is a capability for exactly its fields: the MAC's preimage determines them; unless a MAC is
forged, an accepted header carries the fields of a challenge this relay issued, for a configured origin, not
expired and signed by its account; and an issued challenge survives the trip to the client and back, and is
accepted while it lasts. -/
theorem challenge_binds (keccak256 : List UInt8 → Bytes 32) {Header Body : Type} (codecs : Codecs Header Body)
    (recover : PushChallenge → (chainId : Nat) → Bytes 65 → Except String EthAddr) (r : Issuer)
    (fits : Fits 128 r.params.maxOutstandingPlur) :
    (∀ f g : ChallengeFields, f.InRange → g.InRange → ∀ m, preimage f = .ok m → preimage g = .ok m → f = g) ∧
    (∀ (requests : List Request) (raw : Header) (now : Nat) (v : VerifiedChallenge),
      (∀ c, PresentedChallenge.decode codecs raw = .ok c → Unforged keccak256 r (issuedBy keccak256 r requests) c) →
      verifyHeader keccak256 codecs recover r raw now = .ok v →
      ∃ i ∈ issuedBy keccak256 r requests, ∃ c, PresentedChallenge.decode codecs raw = .ok c ∧ c.fields = i.fields ∧
        v = ⟨i.fields.account, i.fields.batch, i.fields.capPlur⟩ ∧ i.fields.origin ∈ r.origins ∧
        now ≤ i.fields.expiryUnix ∧ recover c.pushChallenge r.chainId c.sig = .ok v.account) ∧
    (codecs.Correct → ∀ (q : Request) (issued : IssuedChallenge),
      challengeResponse keccak256 r q.account q.batch q.remainingValuePlur q.now = .ok issued →
      ∀ signer : Signer, signer.Sound recover → signer.address = issued.fields.account →
      ∃ w offered, codecs.parseJson (codecs.jsonText issued.toJson) = .ok w ∧ OfferedChallenge.parse w = .ok offered ∧
        offered.issued = issued ∧
        ∀ raw, offered.sign codecs signer r.chainId = .ok raw →
          (∃ sig, PresentedChallenge.decode codecs raw = .ok ⟨issued.fields, issued.nonce, sig⟩) ∧
          (codecs.size raw ≤ maxChallengeHeader → ∀ later ≤ issued.fields.expiryUnix,
            verifyHeader keccak256 codecs recover r raw later =
              .ok ⟨issued.fields.account, issued.fields.batch, issued.fields.capPlur⟩)) := by
  refine ⟨fun f g rangeF rangeG m => preimage_injective rangeF rangeG,
    fun requests raw now v unforged accepted => issued_of_verified fits unforged accepted, ?_⟩
  intro correct q issued made signer sound own
  have range := (issue_ok fits made).1
  obtain ⟨w, read, members⟩ := correct.json issued.toJson (by simp [IssuedChallenge.toJson, Json.Distinct])
  obtain ⟨offered, parsed, same⟩ := parse_of_carries range (carries_of_members (carries_toJson range) members)
  exact ⟨w, offered, read, parsed, same, fun raw signed => verified_of_issued correct fits made sound own same signed⟩

def plainCodecs : Codecs Json Json := ⟨fun _ => 512, id, .ok, id, .ok⟩

def sampleIssuer : Issuer := ⟨Bytes.replicate 32 5, ["relay.example"], 100, .default⟩
def sampleBatch : Bytes 32 := Bytes.replicate 32 2
def sampleSigner : Signer := ⟨Store.someone, fun _ _ => .ok (Bytes.replicate 65 0)⟩

def sampleRequest : Request := ⟨Store.someone, sampleBatch, 10 ^ 18, 1000⟩

theorem challenge_binds_sample :
    ∃ raw, verifyHeader (fun _ => sampleBatch) plainCodecs (fun _ _ _ => .ok Store.someone) sampleIssuer raw 1300 =
        .ok ⟨Store.someone, sampleBatch, 62200000000000⟩ ∧
      ∃ i ∈ issuedBy (fun _ => sampleBatch) sampleIssuer [sampleRequest], 1300 ≤ i.fields.expiryUnix := by
  have all := challenge_binds (fun _ => sampleBatch) plainCodecs (fun _ _ _ => .ok Store.someone) sampleIssuer
    (by decide +kernel)
  have correct : plainCodecs.Correct := ⟨fun _ => rfl, fun v _ => ⟨v, rfl, fun _ => rfl⟩⟩
  have made : challengeResponse (fun _ => sampleBatch) sampleIssuer Store.someone sampleBatch (10 ^ 18) 1000 =
      .ok ⟨⟨Store.someone, sampleBatch, "relay.example", 1300, 62200000000000⟩, sampleBatch⟩ := by decide +kernel
  have issued : _ ∈ issuedBy (fun _ => sampleBatch) sampleIssuer [sampleRequest] :=
    List.mem_filterMap.mpr ⟨sampleRequest, List.mem_singleton_self _, congrArg Except.toOption made⟩
  obtain ⟨w, offered, -, -, -, signed⟩ := all.2.2 correct sampleRequest _ made sampleSigner (fun _ _ _ _ => rfl) rfl
  obtain ⟨⟨sig, decoded⟩, accepted⟩ := signed _ rfl
  have verified := accepted (show 512 ≤ 2048 by decide) 1300 le_rfl
  obtain ⟨i, member, -, -, -, -, -, fresh, -⟩ := all.2.1 [sampleRequest] _ 1300 _ (fun c read m covered _ => by
    rw [decoded] at read
    cases read
    exact ⟨_, issued, covered⟩) verified
  exact ⟨_, verified, i, member, fresh⟩

end Hoverfly.Challenge
