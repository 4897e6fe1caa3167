import Mathlib.Order.Bounds.Basic
import Hoverfly.Payer.Lane
import Hoverfly.Push.Codec

/-! How many frames a POST may hold. The estimate `frames_within` starts from is already
exact, so that its walk down never takes a step. -/
namespace Hoverfly.Payer
open Lib Meter Push

def framesFor (params : Params) (budget : Nat) : Nat := budget / params.pricePlurPerKib * 1024 / maxFrameLen

theorem maxFrameLen_pos : 0 < maxFrameLen := by decide

variable {params : Params}

theorem exactPrice_le_iff (priced : 0 < params.pricePlurPerKib) (bytes budget : Nat) :
    params.exactPrice bytes ≤ budget ↔ bytes ≤ budget / params.pricePlurPerKib * 1024 := by
  rw [Params.exactPrice, ← Nat.le_div_iff_mul_le priced, divCeil_le_iff (by decide)]

theorem frames_le_iff (priced : 0 < params.pricePlurPerKib) (n budget : Nat) :
    params.exactPrice (n * maxFrameLen) ≤ budget ↔ n ≤ framesFor params budget := by
  rw [exactPrice_le_iff priced, framesFor, Nat.le_div_iff_mul_le maxFrameLen_pos]

theorem priced_of_validate (valid : params.validate = .ok ()) : 0 < params.pricePlurPerKib := by
  unfold Params.validate at valid
  split at valid
  · cases valid
  · omega

namespace LanePayer

def headroom (p : LanePayer) : Nat := p.capPlur - p.account.outstanding

structure InRange (p : LanePayer) : Prop where
  frame : Fits 128 (p.quote.params.exactPrice maxFrameLen)
  kib : Fits 128 (p.headroom / p.quote.params.pricePlurPerKib * 1024)
  estimate : Fits 64 (framesFor p.quote.params p.headroom)
  walk : ∀ n ≤ framesFor p.quote.params p.headroom,
    Fits 64 (n * maxFrameLen) ∧ Fits 128 (p.quote.params.exactPrice (n * maxFrameLen))

structure Sized (p : LanePayer) : Prop where
  greatest : IsGreatest { n | p.account.outstanding + p.quote.params.exactPrice (n * maxFrameLen) ≤ p.capPlur }
    p.affordableFrames
  headroom : 0 < p.affordableFrames ↔ p.hasHeadroom = true
  bodies : ∀ chunks : List StampedChunk, (∀ c ∈ chunks, c.WellFormed) → chunks.length ≤ p.affordableFrames →
    p.wouldExceed (encodeBatch chunks).length = false
  inRange : p.InRange

variable {p : LanePayer}

theorem walkDown_of_fits {params : Params} {budget n : Nat}
    (fits : params.priceBytes (wrapMul 64 n maxFrameLen) ≤ budget) : walkDown params budget n = n := by
  cases n with
  | zero => rfl
  | succ n => rw [walkDown, if_neg (fun steps => absurd steps.2 (Nat.not_lt.mpr fits))]

section
variable (priced : 0 < p.quote.params.pricePlurPerKib)
include priced

theorem inRange_of_frame (u128 : Fits 128 p.capPlur) (small : p.capPlur / p.quote.params.pricePlurPerKib < 2 ^ 53)
    (frame : Fits 128 (p.quote.params.exactPrice maxFrameLen)) : p.InRange := by
  have below : p.headroom ≤ p.capPlur := Nat.sub_le _ _
  have kib := Nat.lt_of_le_of_lt (Nat.div_le_div_right below) small
  have estimate : framesFor p.quote.params p.headroom * maxFrameLen ≤ _ := Nat.div_mul_le_self _ maxFrameLen
  have positive := maxFrameLen_pos
  refine ⟨frame, ?_, ?_, fun n le => ⟨?_, ?_⟩⟩
  · unfold Fits
    omega
  · have few : framesFor p.quote.params p.headroom ≤ framesFor p.quote.params p.headroom * maxFrameLen :=
      Nat.le_mul_of_pos_right _ positive
    unfold Fits
    omega
  · have scaled : n * maxFrameLen ≤ framesFor p.quote.params p.headroom * maxFrameLen := Nat.mul_le_mul_right _ le
    unfold Fits
    omega
  · exact u128.mono (Nat.le_trans ((frames_le_iff priced n _).mpr le) below)

theorem framesWithin_eq (inRange : p.InRange) (some_ : p.headroom ≠ 0) :
    p.framesWithin p.headroom = max (framesFor p.quote.params p.headroom) 1 := by
  obtain ⟨words, price⟩ := inRange.walk _ (Nat.le_refl _)
  have fits : p.quote.params.priceBytes (wrapMul 64 (framesFor p.quote.params p.headroom) maxFrameLen) ≤ p.headroom := by
    rw [wrapMul_of_fits words, Params.priceBytes_of_fits price, frames_le_iff priced]
  have kib : min (p.headroom / p.quote.params.pricePlurPerKib * 1024) (2 ^ 128 - 1) =
      p.headroom / p.quote.params.pricePlurPerKib * 1024 := Nat.min_eq_left (Nat.le_pred_of_lt inRange.kib)
  have estimate : min (framesFor p.quote.params p.headroom) (2 ^ 64 - 1) = framesFor p.quote.params p.headroom :=
    Nat.min_eq_left (Nat.le_pred_of_lt inRange.estimate)
  rw [framesWithin, if_neg some_]
  dsimp only
  rw [kib, ← framesFor, estimate, walkDown_of_fits fits]

/-- In closed form. The test of one frame and the floor of one in `frames_within` never
disagree with the estimate. -/
theorem affordableFrames_eq (known : p.capPlur ≠ 0) (inRange : p.InRange) :
    p.affordableFrames = framesFor p.quote.params p.headroom := by
  have one : p.quote.params.exactPrice maxFrameLen ≤ p.headroom ↔ 1 ≤ framesFor p.quote.params p.headroom := by
    simpa using frames_le_iff priced 1 p.headroom
  rw [affordableFrames, if_neg known]
  dsimp only
  rw [Params.priceBytes_of_fits inRange.frame]
  change (if _ > p.headroom then 0 else p.framesWithin p.headroom) = _
  split
  · rename_i over_
    omega
  · rename_i fits
    have free := one.mp (Nat.not_lt.mp fits)
    have some_ : p.headroom ≠ 0 := by
      intro none_
      rw [none_] at free
      simp [framesFor] at free
    rw [framesWithin_eq priced inRange some_, Nat.max_eq_left free]

end

theorem length_encodeBatch_le {chunks : List StampedChunk} (legal : ∀ c ∈ chunks, c.WellFormed) :
    (encodeBatch chunks).length ≤ chunks.length * maxFrameLen := by
  induction chunks with
  | nil => exact Nat.zero_le _
  | cons c rest ih =>
    obtain ⟨here, later⟩ := List.forall_mem_cons.mp legal
    have frame : (encodeFrame c).length ≤ maxFrameLen := by
      rw [length_encodeFrame here, StampedChunk.frameBytes, maxFrameLen]
      exact Nat.add_le_add_left here.2 _
    have others := ih later
    rw [encodeBatch, List.flatMap_cons, List.length_append, List.length_cons, Nat.succ_mul]
    unfold encodeBatch at others
    omega

theorem satAdd_le_cap {cap a b : Nat} (room : cap < 2 ^ 128 - 1 ∨ Fits 128 (a + b)) : satAdd 128 a b ≤ cap ↔ a + b ≤ cap := by
  unfold satAdd
  unfold Fits at room
  omega

theorem sized_of_room (known : p.capPlur ≠ 0) (priced : 0 < p.quote.params.pricePlurPerKib) (inRange : p.InRange)
    (u128 : Fits 128 p.capPlur)
    (room : p.capPlur < 2 ^ 128 - 1 ∨ Fits 128 (p.account.outstanding + p.quote.params.exactPrice maxFrameLen))
    (within : p.account.outstanding ≤ p.capPlur) : p.Sized := by
  have closed := affordableFrames_eq priced known inRange
  have fits_iff : ∀ n, p.account.outstanding + p.quote.params.exactPrice (n * maxFrameLen) ≤ p.capPlur ↔
      n ≤ p.affordableFrames := by
    intro n
    rw [closed, ← frames_le_iff priced, headroom]
    omega
  refine ⟨⟨(fits_iff _).mpr (Nat.le_refl _), fun n fits => (fits_iff n).mp fits⟩, ?_, fun chunks legal few => ?_, inRange⟩
  · have one := fits_iff 1
    rw [Nat.one_mul] at one
    rw [hasHeadroom, decide_eq_true_eq, Params.priceBytes_of_fits inRange.frame, satAdd_le_cap room, one]
    exact ⟨.inr, fun free => free.resolve_left known⟩
  · have largest := (fits_iff _).mpr few
    have body := p.quote.params.exactPrice_mono (length_encodeBatch_le legal)
    have price : Fits 128 (p.account.outstanding + p.quote.params.exactPrice (encodeBatch chunks).length) :=
      u128.mono (Nat.le_trans (Nat.add_le_add_left body _) largest)
    rw [wouldExceed, decide_eq_false_iff_not, Params.priceBytes_of_fits (price.mono (Nat.le_add_left _ _)),
      satAdd_of_fits price]
    omega

/-- An account within its line is sized exactly, and one past it is told to send nothing. The two provisos
are of the `u128`: one maximal frame has a price, and a line of `u128::MAX` does not hide an overflow. -/
theorem sizing_exact (p : LanePayer) (u128 : Fits 128 p.capPlur) (valid : p.quote.params.validate = .ok ())
    (known : p.capPlur ≠ 0) (small : p.capPlur / p.quote.params.pricePlurPerKib < 2 ^ 53)
    (frame : Fits 128 (p.quote.params.exactPrice maxFrameLen))
    (room : p.capPlur < 2 ^ 128 - 1 ∨ Fits 128 (p.account.outstanding + p.quote.params.exactPrice maxFrameLen)) :
    p.InRange ∧ (p.account.outstanding ≤ p.capPlur → p.Sized) ∧
      (p.capPlur < p.account.outstanding → p.affordableFrames = 0 ∧ p.hasHeadroom = false) := by
  have priced := priced_of_validate valid
  have inRange := inRange_of_frame priced u128 small frame
  refine ⟨inRange, sized_of_room known priced inRange u128 room, fun past => ⟨?_, ?_⟩⟩
  · rw [affordableFrames_eq priced known inRange, headroom, Nat.sub_eq_zero_of_le (Nat.le_of_lt past), framesFor]
    simp
  · rw [hasHeadroom, decide_eq_false_iff_not, Params.priceBytes_of_fits frame, satAdd_le_cap room]
    omega

def lineAt (price owed cap : Nat) : LanePayer :=
  let quote : PaymentQuote :=
    { beneficiary := Bytes.replicate 20 3, chainId := 100, hardEnforcement := true,
      params := { Params.default with pricePlurPerKib := price } }
  { new "https://relay.example" quote 0 with
    capPlur := cap, account := { LaneAccount.new quote.params quote.beneficiary with owedPlur := owed } }

theorem sizing_exact_dust :
    let p := lineAt 480000000 1000000000 100000000000
    p.account.outstanding ≤ p.capPlur ∧ p.Sized := by
  refine ⟨by decide, (sizing_exact _ (by decide) (by decide) (by decide) (by decide) (by decide) (.inl (by decide))).2.1 ?_⟩
  decide

/-- Three lanes with valid parameters. One frame of the first has no price in a `u128`; the second, at
`u128::MAX`, has headroom for a frame it cannot afford; the third is past its line, so that even an empty body
is too much. -/
theorem sizing_inexact :
    (let dear := lineAt (2 ^ 127) 0 (2 ^ 127);
      dear.quote.params.validate = .ok () ∧ dear.capPlur / dear.quote.params.pricePlurPerKib < 2 ^ 53 ∧
        ¬Fits 128 (dear.quote.params.exactPrice maxFrameLen) ∧ ¬dear.Sized) ∧
    (let full := lineAt (2 ^ 80) (2 ^ 128 - 1) (2 ^ 128 - 1);
      full.quote.params.validate = .ok () ∧ full.capPlur / full.quote.params.pricePlurPerKib < 2 ^ 53 ∧
        full.affordableFrames = 0 ∧ full.hasHeadroom = true ∧ ¬full.Sized) ∧
    (let past := lineAt 480000000 2 1;
      past.quote.params.validate = .ok () ∧ past.capPlur / past.quote.params.pricePlurPerKib < 2 ^ 53 ∧
        past.affordableFrames = 0 ∧ past.wouldExceed (encodeBatch []).length = true ∧ ¬past.Sized) := by
  refine ⟨⟨by decide, by decide, by decide, fun sized => absurd sized.inRange.frame (by decide)⟩,
    ⟨by decide, by decide, by decide, by decide, fun sized => absurd sized.headroom (by decide)⟩,
    ⟨by decide, by decide, by decide, by decide, fun sized => ?_⟩⟩
  exact absurd (sized.bodies [] (fun _ member => nomatch member) (Nat.zero_le _)) (by decide)

end LanePayer

end Hoverfly.Payer
