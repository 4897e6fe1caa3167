import Hoverfly.Relay.Push

/-! `POST /v1/pay`: the checks a cheque passes before it is credited, and which refusals
for want of credit such a cheque can clear. -/
namespace Hoverfly.Relay
open Lib Meter Push

structure SignedCheque where
  chequebook : EthAddr
  beneficiary : EthAddr
  /-- A `U256`. -/
  cumulativePayout : Nat
  signature : Bytes 65

structure ChequebookState where
  issuer : EthAddr
  liquidForUs : Nat
  paidOutToUs : Nat
  bounced : Bool

structure PayRequest where
  challenge : Except String VerifiedChallenge
  allowed : Bool
  cheque : Except Refusal SignedCheque

/-- What the chain and the recovery of the cheque's signature answer. -/
structure ChainView where
  deployed : Except String Bool
  recovered : Except String EthAddr
  chequebook : Except String ChequebookState

structure PayAccepted where
  acceptedPlur : Nat
  cumulative : Nat
  owedPlur : Nat
  outstandingPlur : Nat
deriving DecidableEq

def LedgerError.message : LedgerError → String
  | .notIncreasing got held => s!"cheque cumulative {got} is not greater than the {held} already accepted"
  | .chequebookBound chequebook =>
    s!"chequebook 0x{hexEncode chequebook.val} is already bound to a different account"
  | .absurd cumulative => s!"cumulative {cumulative} is implausibly large"
  | .overpayment got owed => s!"cheque credits {got} but only {owed} is owed"
  | .store error => s!"ledger persist failed: {error}"

/-- `u128::try_from(..).unwrap_or(u128::MAX)`. -/
def clampU128 (n : Nat) : Nat := if n < 2 ^ 128 then n else 2 ^ 128 - 1

def chequeCheck (p : Params) (beneficiary : EthAddr) (l : Ledger) (req : PayRequest) :
    Except Refusal (VerifiedChallenge × SignedCheque) := do
  let verified ←
    match req.challenge with
    | .error e => throw (.line 401 e)
    | .ok verified => pure verified
  if !req.allowed then throw (.line 429 "slow down")
  if l.owed verified.account = 0 then throw (.line 400 "nothing owed on this account")
  let cheque ← req.cheque
  if cheque.beneficiary ≠ beneficiary then throw (.line 400 "cheque is not made out to us")
  let cumulative := cheque.cumulativePayout
  if cumulative > maxCumulativePlur then throw (.line 400 "cumulative payout is implausible")
  let held := l.lastCumulative verified.account cheque.chequebook
  if cumulative ≤ held then
    throw (.line 400 s!"cheque cumulative {cumulative} does not exceed the {held} already accepted")
  let floor := (p.effective verified.capPlur).minChequePlur
  if cumulative - held < floor then
    throw (.line 400 s!"cheque credits {cumulative - held} but the dust floor is {floor}")
  return (verified, cheque)

def chainCheck (chain : ChainView) (verified : VerifiedChallenge) (cheque : SignedCheque) : Except Refusal Unit := do
  match chain.deployed with
  | .ok true => pure ()
  | .ok false => throw (.line 400 "chequebook was not deployed by the canonical factory")
  | .error e => throw (.line 502 e)
  let recovered ←
    match chain.recovered with
    | .error e => throw (.line 400 e)
    | .ok recovered => pure recovered
  let state ←
    match chain.chequebook with
    | .error e => throw (.line 502 e)
    | .ok state => pure state
  if state.bounced then throw (.line 400 "chequebook has bounced a cheque before and is refused")
  if state.issuer ≠ recovered then throw (.line 400 "cheque was not signed by the issuer")
  if state.issuer ≠ verified.account then
    throw (.line 400 "chequebook issuer is not the account that owns this batch")
  if clampU128 state.liquidForUs < cheque.cumulativePayout - clampU128 state.paidOutToUs then
    throw (.line 400 "chequebook cannot cover this cheque")

def payResponse (p : Params) (beneficiary : EthAddr) (l : Ledger) (req : PayRequest) (chain : ChainView)
    (fault : Option String) (file : Option OnDisk) : Ledger × Option OnDisk × Except Refusal PayAccepted :=
  match chequeCheck p beneficiary l req with
  | .error answer => (l, file, .error answer)
  | .ok (verified, cheque) =>
    match chainCheck chain verified cheque with
    | .error answer => (l, file, .error answer)
    | .ok () =>
      match Metered.credit l verified.account cheque.chequebook cheque.cumulativePayout cheque.signature fault file with
      | (l, file, .ok acceptedPlur) =>
        (l, file, .ok { acceptedPlur, cumulative := cheque.cumulativePayout, owedPlur := l.owed verified.account
                        outstandingPlur := l.outstanding verified.account })
      | (l, file, .error (.store _)) =>
        (l, file, .error (.line 503 "ledger write failed; re-present the same cheque"))
      | (l, file, .error e) => (l, file, .error (.line 400 e.message))

variable {l : Ledger} {verified : VerifiedChallenge} {p : Params}

theorem Ledger.credit_accepts {account chequebook : EthAddr} {cumulative : Nat} (signature : Bytes 65)
    (small : cumulative ≤ maxCumulativePlur) (free : ∀ a, l.book.bound chequebook = some a → a = account)
    (above : l.lastCumulative account chequebook < cumulative)
    (within : cumulative - l.lastCumulative account chequebook ≤ l.owed account) :
    ∃ l', l.credit account chequebook cumulative signature =
        (l', .ok (cumulative - l.lastCumulative account chequebook)) ∧
      l'.book = l.book.accept account chequebook { cumulativePlur := cumulative, signature }
        (cumulative - l.lastCumulative account chequebook) := by
  have mine : (l.binding.lookup chequebook).any (· ≠ account) = false := by
    cases found : l.binding.lookup chequebook with
    | none => rfl
    | some a => simp [free a found]
  have taken : (l.credit account chequebook cumulative signature).2 =
      .ok (cumulative - l.lastCumulative account chequebook) := by
    unfold credit
    rw [if_neg (Nat.not_lt.mpr small), if_neg (by rw [mine]; exact Bool.false_ne_true)]
    dsimp only
    rw [entry_last, entry_owed, if_neg (Nat.not_le.mpr above), if_neg (Nat.not_lt.mpr within)]
  rcases l.credit_cases account chequebook cumulative signature with
    ⟨l', e, out, -⟩ | ⟨l', out, -, -, -, -, -, -, book⟩
  · rw [out] at taken
    cases taken
  · exact ⟨l', out, book⟩

def ChainView.Vouches (chain : ChainView) (account : EthAddr) (cheque : SignedCheque) : Prop :=
  chain.deployed = .ok true ∧ chain.recovered = .ok account ∧
    ∃ state, chain.chequebook = .ok state ∧ state.bounced = false ∧ state.issuer = account ∧
      cheque.cumulativePayout - clampU128 state.paidOutToUs ≤ clampU128 state.liquidForUs

theorem chainCheck_ok {chain : ChainView} {cheque : SignedCheque}
    (vouched : chain.Vouches verified.account cheque) : chainCheck chain verified cheque = .ok () := by
  obtain ⟨deployed, recovered, state, read, sound, issuer, covered⟩ := vouched
  have enough := Nat.not_lt.mpr covered
  simp [chainCheck, deployed, recovered, read, sound, issuer, enough]
  rfl

/-- A cheque for exactly what is owed clears the account: it is not dust, and any such cheque that is
within range, drawn on a chequebook of this account and vouched for by the chain brings the debt to zero. -/
structure Clears (p : Params) (l : Ledger) (verified : VerifiedChallenge) : Prop where
  floor : (p.effective verified.capPlur).minChequePlur ≤ l.owed verified.account
  paid : ∀ (beneficiary : EthAddr) (cheque : SignedCheque) (chain : ChainView) (file : Option OnDisk),
    cheque.beneficiary = beneficiary →
    cheque.cumulativePayout = l.lastCumulative verified.account cheque.chequebook + l.owed verified.account →
    cheque.cumulativePayout ≤ maxCumulativePlur →
    (∀ a, l.book.bound cheque.chequebook = some a → a = verified.account) →
    chain.Vouches verified.account cheque →
    ∃ l' file' reply,
      payResponse p beneficiary l { challenge := .ok verified, allowed := true, cheque := .ok cheque } chain none file =
        (l', file', .ok reply) ∧
      reply.acceptedPlur = l.owed verified.account ∧ l'.owed verified.account = 0

theorem minCheque_pos (p : Params) (cap : Nat) : 0 < (p.effective cap).minChequePlur := by
  simp only [Params.effective]
  omega

theorem chequeCheck_ok {beneficiary : EthAddr}
    {cheque : SignedCheque} (floor : (p.effective verified.capPlur).minChequePlur ≤ l.owed verified.account)
    (ours : cheque.beneficiary = beneficiary)
    (exact_ : cheque.cumulativePayout =
      l.lastCumulative verified.account cheque.chequebook + l.owed verified.account)
    (small : cheque.cumulativePayout ≤ maxCumulativePlur) :
    chequeCheck p beneficiary l { challenge := .ok verified, allowed := true, cheque := .ok cheque } =
      .ok (verified, cheque) := by
  have pos := minCheque_pos p verified.capPlur
  have owing : l.owed verified.account ≠ 0 := by omega
  have inRange : ¬ cheque.cumulativePayout > maxCumulativePlur := Nat.not_lt.mpr small
  have above : ¬ cheque.cumulativePayout ≤ l.lastCumulative verified.account cheque.chequebook := by omega
  have enough : ¬ cheque.cumulativePayout - l.lastCumulative verified.account cheque.chequebook <
      (p.effective verified.capPlur).minChequePlur := by omega
  unfold chequeCheck
  simp [owing, ours, above, enough, pure, Except.pure, bind, Except.bind, small]

theorem Ledger.persist_healthy (l : Ledger) (file : Option OnDisk) : ∃ file', l.persist none file = (file', .ok ()) := by
  unfold persist
  cases l.path with
  | none => exact ⟨file, rfl⟩
  | some path => exact ⟨some l.onDisk, rfl⟩

theorem clears_of_floor
    (floor : (p.effective verified.capPlur).minChequePlur ≤ l.owed verified.account) : Clears p l verified := by
  refine ⟨floor, fun beneficiary cheque chain file ours exact_ small free vouched => ?_⟩
  have pos := minCheque_pos p verified.capPlur
  have delta : cheque.cumulativePayout - l.lastCumulative verified.account cheque.chequebook =
      l.owed verified.account := by omega
  obtain ⟨l', taken, book⟩ := l.credit_accepts cheque.signature small free (by omega) delta.le
  have owed : l'.owed verified.account = 0 := by
    have all : l'.owed = _ := congrArg Book.owed book
    rw [all, delta]
    simp [Book.accept, Book.setOwed, Ledger.book]
  have credited : ∃ file', Metered.credit l verified.account cheque.chequebook cheque.cumulativePayout
      cheque.signature none file = (l', file', .ok (l.owed verified.account)) := by
    obtain ⟨file', written⟩ := l'.persist_healthy file
    refine ⟨file', ?_⟩
    unfold Metered.credit
    dsimp only
    rw [taken, delta]
    dsimp only
    rw [written]
  obtain ⟨file', credited⟩ := credited
  refine ⟨l', file', { acceptedPlur := l.owed verified.account, cumulative := cheque.cumulativePayout
                       owedPlur := l'.owed verified.account, outstandingPlur := l'.outstanding verified.account },
    ?_, rfl, owed⟩
  rw [payResponse, chequeCheck_ok floor ours exact_ small]
  dsimp only
  rw [chainCheck_ok vouched]
  dsimp only
  rw [credited]

def RefusedForCredit (p : Params) (l : Ledger) (verified : VerifiedChallenge) (size : Nat) : Prop :=
  ∃ reservedPlur outstandingPlur maxOutstandingPlur settleEveryPlur,
    afterReserve { params := p, hardMode := true } verified size
        (l.reserve verified.account (p.priceBytes size) verified.capPlur).2 =
      .refused verified.account reservedPlur (.paymentRequired outstandingPlur maxOutstandingPlur settleEveryPlur)

theorem refusedForCredit_iff {size : Nat} (idle : l.reserved verified.account = 0) :
    RefusedForCredit p l verified size ↔
      verified.capPlur < min (l.owed verified.account + p.priceBytes size) (2 ^ 128 - 1) := by
  have price : Fits 128 (p.priceBytes size) := Nat.mod_lt _ (by norm_num)
  have beyond : (l.reserve verified.account (p.priceBytes size) verified.capPlur).2.overCap = true ↔
      verified.capPlur < min (l.owed verified.account + p.priceBytes size) (2 ^ 128 - 1) := by
    have alone : satAdd 128 0 (p.priceBytes size) = p.priceBytes size := by
      rw [satAdd_of_fits (by rwa [Nat.zero_add]), Nat.zero_add]
    simp only [Ledger.reserve, Account.outstanding, Ledger.entry_owed, Ledger.entry_reserved, idle, alone]
    rw [satAdd, decide_eq_true_iff]
  unfold RefusedForCredit afterReserve
  rw [← beyond]
  constructor
  · rintro ⟨_, _, _, _, refused⟩
    split at refused
    · rename_i both
      exact both.1
    · cases refused
  · intro refused
    rw [if_pos ⟨refused, rfl⟩]
    exact ⟨_, _, _, _, rfl⟩

/-- Every refusal of a single frame is clearable exactly when no frame's price reaches from below the dust
floor to above the line; with a price that fits its type, the largest frame decides. -/
theorem clearable_iff (p : Params) (verified : VerifiedChallenge) (cap : Fits 128 verified.capPlur) :
    ((∀ (l : Ledger) (size : Nat), l.reserved verified.account = 0 → Fits 128 (l.owed verified.account) →
        headerLen ≤ size → size ≤ maxFrameLen → RefusedForCredit p l verified size → Clears p l verified) ↔
      verified.capPlur = 2 ^ 128 - 1 ∨ ∀ size, headerLen ≤ size → size ≤ maxFrameLen →
        p.priceBytes size + (p.effective verified.capPlur).minChequePlur ≤ verified.capPlur + 1) ∧
    (Fits 128 (p.exactPrice maxFrameLen) →
      ((∀ size, headerLen ≤ size → size ≤ maxFrameLen →
          p.priceBytes size + (p.effective verified.capPlur).minChequePlur ≤ verified.capPlur + 1) ↔
        p.priceBytes maxFrameLen + (p.effective verified.capPlur).minChequePlur ≤ verified.capPlur + 1)) := by
  have pos := minCheque_pos p verified.capPlur
  rw [Fits] at cap
  refine ⟨⟨fun clearable => ?_, ?_⟩, fun priced => ⟨fun all => all _ (by decide) le_rfl, fun top size _ most => ?_⟩⟩
  · by_contra short
    simp only [not_or, not_forall, Nat.not_le] at short
    obtain ⟨below, size, least, most, gap⟩ := short
    -- the least debt at which this frame is refused
    have known : (Ledger.putAccount (.ephemeral ⟨List.replicate 32 0, rfl⟩) verified.account
        { owedPlur := verified.capPlur + 1 - p.priceBytes size }).book = _ := Ledger.book_putAccount _ _ _
    have owed := congrArg (fun b => b.owed verified.account) known
    have reserved := congrArg (fun b => b.reserved verified.account) known
    simp only [Ledger.book, Function.update_self] at owed reserved
    have refused := clearable _ size reserved (by rw [owed, Fits]; omega) least most
    rw [refusedForCredit_iff reserved, owed] at refused
    have floor := (refused (by omega)).floor
    rw [owed] at floor
    omega
  · rintro (full | all) l size idle debt least most refused
    · rw [refusedForCredit_iff idle, full] at refused
      omega
    · rw [refusedForCredit_iff idle] at refused
      have room := all size least most
      exact clears_of_floor (by omega)
  · have price := Params.priceBytes_mono priced most le_rfl
    omega

def lineOf (capPlur : Nat) : VerifiedChallenge := ⟨Store.someone, Bytes.replicate 32 1, capPlur⟩

def owing (owedPlur : Nat) : Ledger := .putAccount (.ephemeral (Bytes.replicate 32 0)) Store.someone { owedPlur }

theorem clearable_defaultLine :
    RefusedForCredit .default (owing 62200000000000) (lineOf 62200000000000) maxFrameLen ∧
      Clears .default (owing 62200000000000) (lineOf 62200000000000) := by
  have idle : (owing 62200000000000).reserved Store.someone = 0 := by decide +kernel
  have refused : RefusedForCredit .default (owing 62200000000000) (lineOf 62200000000000) maxFrameLen :=
    (refusedForCredit_iff idle).mpr (by decide +kernel)
  have both := clearable_iff .default (lineOf 62200000000000) (by decide +kernel)
  refine ⟨refused, both.1.mpr (.inr ((both.2 (by decide +kernel)).mpr (by decide +kernel))) _ _ idle ?_ ?_ le_rfl refused⟩
  · decide +kernel
  · decide +kernel

def exactCheque (owedPlur : Nat) : SignedCheque := ⟨Store.someone, Store.someone, owedPlur, Bytes.replicate 65 0⟩

def soundChain : ChainView := ⟨.ok true, .ok Store.someone, .ok ⟨Store.someone, 2 ^ 100, 0, false⟩⟩

/-- A line of one maximal frame, with one short frame already billed: the next maximal frame is refused, and
so is the cheque for all that is owed. -/
theorem oneFrameLine_stuck :
    Params.default.validate = .ok () ∧ Params.default.priceBytes maxFrameLen ≤ 2400000000 ∧
      (owing 480000000).reserved Store.someone = 0 ∧
      RefusedForCredit .default (owing 480000000) (lineOf 2400000000) maxFrameLen ∧
      (owing 480000000).owed Store.someone < (Params.default.effective 2400000000).minChequePlur ∧
      (payResponse .default Store.someone (owing 480000000) ⟨.ok (lineOf 2400000000), true, .ok (exactCheque 480000000)⟩
        soundChain none none).2.2 = .error (.line 400 "cheque credits 480000000 but the dust floor is 1200000000") := by
  have idle : (owing 480000000).reserved Store.someone = 0 := by decide +kernel
  refine ⟨by simp [Params.validate, Params.default], by decide +kernel, idle,
    (refusedForCredit_iff idle).mpr (by decide +kernel), by decide +kernel, ?_⟩
  decide +kernel

end Hoverfly.Relay
