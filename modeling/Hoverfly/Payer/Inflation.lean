import Mathlib.Logic.Function.Basic
import Hoverfly.Payer.Purse

/-! What a relay can make the client promise. It answers challenges, payments and account reads as it
likes; the price of the bytes sent is the client's own figure. -/
namespace Hoverfly.Payer
open Lib Meter

def Act.lane : Act → Nat
  | .header lane _ | .clearHeader lane | .send lane .. | .answer lane .. | .settle lane .. | .reconcile lane _ => lane

namespace Purse

variable {s : Purse} {lane : Nat} {p : LanePayer}

theorem payer_setPayer (found : s.payer lane = some p) (q : LanePayer) (j : Nat) :
    (s.setPayer lane q).payer j = if j = lane then some q else s.payer j := by
  have inside : lane < s.payers.length := by
    by_contra outside
    simp [payer, List.getElem?_eq_none (Nat.not_lt.mp outside)] at found
  unfold payer setPayer
  dsimp only
  rw [List.getElem?_set]
  by_cases same : lane = j
  · rw [if_pos same, if_pos same.symm, if_pos inside]
    rfl
  · rw [if_neg same, if_neg (Ne.symm same)]

def wire (m : AList (fun _ : Nat => Nat × Nat)) (lane : Nat) (params : Params) : Nat :=
  weigh (fun e => if e.1 = lane then params.priceBytes e.2 else 0) m

theorem wire_insert (m : AList (fun _ : Nat => Nat × Nat)) (params : Params) (batch lane bodyBytes j : Nat) :
    wire (m.insert batch (lane, bodyBytes)) j params ≤
      wire m j params + if lane = j then params.priceBytes bodyBytes else 0 := by
  have moved := weigh_insert (fun e => if e.1 = j then params.priceBytes e.2 else 0) batch (lane, bodyBytes) m
  unfold wire
  dsimp only at moved
  omega

theorem wire_erase (m : AList (fun _ : Nat => Nat × Nat)) (params : Params) (batch j : Nat) :
    wire (m.erase batch) j params ≤ wire m j params := by
  have moved := weigh_erase (fun e => if e.1 = j then params.priceBytes e.2 else 0) batch m
  unfold wire
  omega

theorem wire_answered {m : AList (fun _ : Nat => Nat × Nat)} {batch lane sent : Nat}
    (found : m.lookup batch = some (lane, sent)) (params : Params) :
    wire (m.erase batch) lane params + params.priceBytes sent = wire m lane params := by
  have moved := weigh_erase (fun e => if e.1 = lane then params.priceBytes e.2 else 0) batch m
  rw [found] at moved
  simpa [wire] using moved

end Purse

/-- The purse, and for each lane the price of the bytes it has sent and no accepted cheque has covered. -/
structure Tally where
  purse : Purse
  unpaid : Nat → Nat := fun _ => 0

namespace Tally

variable (cfg : PaymentConfig)

def priced (s : Purse) : Act → Nat
  | .send lane _ bodyBytes r => ((s.payer lane).map fun p =>
      if !p.wouldExceed bodyBytes ∧ (p.useHeader cfg r 0).2.isOk then p.quote.params.priceBytes bodyBytes else 0).getD 0
  | _ => 0

def credited (s : Purse) : Act → Nat
  | .settle lane r _ => ((s.payer lane).map fun p =>
      (p.settle s.store cfg r).2.1.cumulative (relayKey p.quote.beneficiary) -
        s.store.cumulative (relayKey p.quote.beneficiary)).getD 0
  | _ => 0

def step (t : Tally) (a : Act) : Tally where
  purse := t.purse.step cfg a
  unpaid := Function.update t.unpaid a.lane (t.unpaid a.lane + priced cfg t.purse a - credited cfg t.purse a)

theorem purse_run (t : Tally) (acts : List Act) :
    (run (step cfg) t acts).purse = run (Purse.step cfg) t.purse acts := by
  induction acts generalizing t with
  | nil => rfl
  | cons a rest ih => exact ih (t.step cfg a)

/-- No cheque signed by the act exceeds the record by more than the price of the bytes still to be covered, or the
ceiling the relay signed where that is higher. -/
def Bounded (t : Tally) : Act → Prop
  | .settle lane r received => ∀ p ∈ t.purse.payer lane, ∀ y ∈ p.cheques t.purse.store cfg r received,
      y.cumulative ≤ t.purse.store.cumulative (relayKey p.quote.beneficiary) +
        max (t.unpaid lane) p.quote.params.maxOutstandingPlur
  | _ => True

/-- Every line offered is within the ceiling, and the figure a cheque is corrected to is, with what is still in
flight, within the bound. An answer comes back on the lane of its POST, and what is in flight fits a `u128`. -/
def Fair (t : Tally) : Act → Prop
  | .header lane r | .reconcile lane r => ∀ p ∈ t.purse.payer lane, Offers p.quote r
  | .clearHeader _ => True
  | .send lane _ bodyBytes r => ∀ p ∈ t.purse.payer lane, Offers p.quote r ∧
      Fits 128 (p.account.pendingPlur + p.quote.params.priceBytes bodyBytes)
  | .answer lane batch _ _ => ∀ sent ∈ t.purse.inFlight.lookup batch, sent.1 = lane
  | .settle lane r _ => ∀ p ∈ t.purse.payer lane, Offers p.quote r ∧
      (p.corrects t.purse.store cfg r → ∀ figure, r.account = .ok figure →
        figure + p.account.pendingPlur ≤ max (t.unpaid lane) p.quote.params.maxOutstandingPlur)

def Sound (t : Tally) : Prop := ∀ lane p, t.purse.payer lane = some p →
  Within t.purse.store (Purse.wire t.purse.inFlight lane p.quote.params) (t.unpaid lane) p

variable {t : Tally} {lane : Nat} {p : LanePayer}

theorem Sound.set (sound : t.Sound) {unpaid : Nat} {q : LanePayer} {store : ChequeStore}
    {inFlight : AList (fun _ : Nat => Nat × Nat)} (found : t.purse.payer lane = some p)
    (grows : ∀ b, t.purse.store.cumulative (relayKey b) ≤ store.cumulative (relayKey b))
    (fewer : ∀ j ≠ lane, ∀ params, Purse.wire inFlight j params ≤ Purse.wire t.purse.inFlight j params)
    (moved : Within store (Purse.wire inFlight lane q.quote.params) unpaid q) :
    Sound { purse := { payers := (t.purse.setPayer lane q).payers, store, inFlight },
            unpaid := Function.update t.unpaid lane unpaid } := by
  intro j r present
  have lookup := Purse.payer_setPayer found q j
  replace present : (t.purse.setPayer lane q).payer j = some r := present
  rw [present] at lookup
  by_cases same : j = lane
  · subst same
    rw [if_pos rfl] at lookup
    cases lookup
    simpa using moved
  · rw [if_neg same] at lookup
    dsimp only
    rw [Function.update_of_ne same]
    exact (sound j r lookup.symm).store_mono (fewer j same _) (grows _)

theorem Sound.turn (sound : t.Sound) {q : LanePayer} (found : t.purse.payer lane = some p)
    (quote : q.quote = p.quote)
    (moved : Within t.purse.store (Purse.wire t.purse.inFlight lane p.quote.params) (t.unpaid lane) q) :
    Sound { purse := t.purse.setPayer lane q, unpaid := t.unpaid } := by
  have out := sound.set found (fun _ => Nat.le_refl _) (fun _ _ _ => Nat.le_refl _) (quote ▸ moved)
  rwa [Function.update_eq_self] at out

theorem Sound.send (sound : t.Sound) {batch bodyBytes : Nat} {r : Replies}
    (found : t.purse.payer lane = some p) (offers : Offers p.quote r)
    (fits : Fits 128 (p.account.pendingPlur + p.quote.params.priceBytes bodyBytes)) :
    (t.step cfg (.send lane batch bodyBytes r)).Sound := by
  have within := sound lane p found
  have headed := LanePayer.headed_useHeader p cfg r 0
  cases free : p.wouldExceed bodyBytes with
  | true => simpa [step, Purse.step, Purse.send, priced, credited, Act.lane, found, free] using sound
  | false =>
    cases used : p.useHeader cfg r 0 with
    | mk q answer =>
    rw [used] at headed
    dsimp only at headed
    cases answer with
    | error e =>
      have out := sound.turn found headed.quote (within.headed headed offers)
      simpa [step, Purse.step, Purse.send, priced, credited, Act.lane, found, free, used, Except.isOk,
        Except.toBool] using out
    | ok _ =>
      have more := Purse.wire_insert t.purse.inFlight p.quote.params batch lane bodyBytes lane
      rw [if_pos rfl] at more
      have moved := (within.sent free headed offers fits).store_mono more (Nat.le_refl _)
      have others : ∀ j ≠ lane, ∀ params, Purse.wire (t.purse.inFlight.insert batch (lane, bodyBytes)) j params ≤
          Purse.wire t.purse.inFlight j params := by
        intro j other params
        simpa [Ne.symm other] using Purse.wire_insert t.purse.inFlight params batch lane bodyBytes j
      rw [← headed.quote] at moved
      have out := sound.set (q := { q with account := q.account.recordSent bodyBytes }) found
        (fun _ => Nat.le_refl _) others moved
      simpa [step, Purse.step, Purse.send, priced, credited, Act.lane, found, free, used, Except.isOk,
        Except.toBool, Purse.setPayer, headed.quote] using out

theorem Sound.drop (sound : t.Sound) (batch : Nat) :
    Sound { purse := { t.purse with inFlight := t.purse.inFlight.erase batch }, unpaid := t.unpaid } :=
  fun lane p found => (sound lane p found).store_mono (Purse.wire_erase ..) (Nat.le_refl _)

theorem Sound.answer (sound : t.Sound) {batch : Nat} {reachedRelay : Bool} {dedupBytes : Nat}
    (fair : t.Fair cfg (.answer lane batch reachedRelay dedupBytes)) :
    (t.step cfg (.answer lane batch reachedRelay dedupBytes)).Sound := by
  have erased : ∀ j, ({ t.purse with inFlight := t.purse.inFlight.erase batch } : Purse).payer j = t.purse.payer j :=
    fun _ => rfl
  cases known : t.purse.inFlight.lookup batch with
  | none => simpa [step, Purse.step, Purse.answer, priced, credited, Act.lane, known] using sound.drop batch
  | some entry =>
    obtain ⟨origin, sent⟩ := entry
    obtain rfl : origin = lane := fair (origin, sent) known
    cases found : t.purse.payer origin with
    | none =>
      simpa [step, Purse.step, Purse.answer, priced, credited, Act.lane, known, erased, found] using sound.drop batch
    | some p =>
      have part := Purse.wire_answered known p.quote.params
      have inFlight : p.quote.params.priceBytes sent ≤ Purse.wire t.purse.inFlight origin p.quote.params := by omega
      have less : Purse.wire (t.purse.inFlight.erase batch) origin p.quote.params ≤
          Purse.wire t.purse.inFlight origin p.quote.params - p.quote.params.priceBytes sent := by omega
      have within := (sound origin p found).answered reachedRelay dedupBytes inFlight
      have moved := within.store_mono less (Nat.le_refl _)
      have out := sound.set (q := { p with account := Purse.answered p.account sent reachedRelay dedupBytes }) found
        (fun _ => Nat.le_refl _) (fun j _ params => Purse.wire_erase t.purse.inFlight params batch j) moved
      rw [Function.update_eq_self] at out
      simpa [step, Purse.step, Purse.answer, priced, credited, Act.lane, known, erased, found, Purse.setPayer] using out

theorem Sound.settle (sound : t.Sound) {r : Replies} {received : Nat → Bool}
    (found : t.purse.payer lane = some p) (fair : t.Fair cfg (.settle lane r received)) :
    (t.step cfg (.settle lane r received)).Sound := by
  obtain ⟨offers, figures⟩ := fair p found
  have came := LanePayer.settles p t.purse.store cfg r received
  have moved := ((sound lane p found).settles offers figures came).2
  have quote : (p.settle t.purse.store cfg r).1.quote = p.quote := came.quote
  dsimp only at moved
  nth_rewrite 1 [← quote] at moved
  have out := sound.set found came.records.grows (fun _ _ _ => Nat.le_refl _) moved
  simpa [step, Purse.step, Purse.settle, priced, credited, Act.lane, found, Purse.setPayer] using out

theorem Sound.step (sound : t.Sound) {a : Act} (fair : t.Fair cfg a) : (t.step cfg a).Sound := by
  cases a with
  | answer lane batch reachedRelay dedupBytes => exact sound.answer cfg fair
  | header lane r =>
    cases found : t.purse.payer lane with
    | none => simpa [Tally.step, Purse.step, priced, credited, Act.lane, found] using sound
    | some p =>
      have headed := LanePayer.headed_useHeader p cfg r 0
      have out := sound.turn found headed.quote ((sound lane p found).headed headed (fair p found))
      simpa [Tally.step, Purse.step, priced, credited, Act.lane, found] using out
  | clearHeader lane =>
    cases found : t.purse.payer lane with
    | none => simpa [Tally.step, Purse.step, priced, credited, Act.lane, found] using sound
    | some p =>
      have out := sound.turn (q := p.clearHeader) found rfl (sound lane p found).clearHeader
      simpa [Tally.step, Purse.step, priced, credited, Act.lane, found] using out
  | send lane batch bodyBytes r =>
    cases found : t.purse.payer lane with
    | none => simpa [Tally.step, Purse.step, priced, credited, Act.lane, found] using sound
    | some p => exact sound.send cfg found (fair p found).1 (fair p found).2
  | settle lane r received =>
    cases found : t.purse.payer lane with
    | none => simpa [Tally.step, Purse.step, priced, credited, Act.lane, found] using sound
    | some p => exact sound.settle cfg found fair
  | reconcile lane r =>
    cases found : t.purse.payer lane with
    | none => simpa [Tally.step, Purse.step, priced, credited, Act.lane, found] using sound
    | some p =>
      have moved := (sound lane p found).reconcile cfg (fair p found)
      have out := sound.turn found (Within.quote_reconcile p cfg r) moved
      simpa [Tally.step, Purse.step, priced, credited, Act.lane, found] using out

theorem Sound.bounded (sound : t.Sound) {a : Act} (fair : t.Fair cfg a) : t.Bounded cfg a := by
  cases a with
  | settle lane r received =>
    intro p found
    obtain ⟨offers, figures⟩ := fair p found
    exact ((sound lane p found).settles offers figures (LanePayer.settles p t.purse.store cfg r received)).1
  | header | clearHeader | send | answer | reconcile => trivial

def opening (store : ChequeStore) (lanes : List (Option (String × PaymentQuote))) : Tally where
  purse :=
    { payers := lanes.map fun lane => lane.map fun l => .new l.1 l.2 (store.cumulative (relayKey l.2.beneficiary))
      store }

theorem sound_opening (store : ChequeStore) (lanes : List (Option (String × PaymentQuote))) :
    (opening store lanes).Sound := by
  intro lane p found
  obtain ⟨url, quote, rfl⟩ : ∃ url quote, p = .new url quote (store.cumulative (relayKey quote.beneficiary)) := by
    simp only [opening, Purse.payer, List.getElem?_map, Option.join_eq_some_iff, Option.map_eq_some_iff] at found
    obtain ⟨_, _, l, rfl, rfl⟩ := found
    exact ⟨l.1, l.2, rfl⟩
  constructor
  · rfl
  · exact Nat.zero_le _
  · intro held
    cases held
  · exact Nat.le_refl _
  · exact Nat.le_refl _
  · exact fun _ => Nat.le_refl _
  · exact Nat.zero_le _
  · exact .inr (Nat.zero_le _)

/-- Along every run whose steps are fair, whatever the relays answer, every cheque signed is bounded. -/
theorem cheques_bounded (store : ChequeStore) (lanes : List (Option (String × PaymentQuote))) (acts : List Act)
    (fair : Along (Fair cfg) (step cfg) (opening store lanes) acts) :
    Along (Bounded cfg) (step cfg) (opening store lanes) acts :=
  along_of_invariant (fun _ _ sound fair => sound.step cfg fair) (fun _ _ sound fair => sound.bounded cfg fair) acts
    (sound_opening store lanes) fair

def hundred : PaymentQuote where
  beneficiary := Bytes.replicate 20 1
  chainId := 100
  params := { pricePlurPerKib := 1, minChequePlur := 1, settleEveryPlur := 50, maxOutstandingPlur := 100, creditRatio := 1 }
  hardEnforcement := true

def sole : Tally := opening { payouts := ∅ } [some ("relay", hundred)]

def thousand : PaymentConfig := { chainId := 100, balancePlur := 1000 }

def claiming (pay : PayResponse) : Replies where
  nowUnix _ := 0
  challenge _ := .ok { capPlur := 100, expiryUnix := 600, sign := .ok () }
  sign _ := .ok ()
  pay n := if n = 0 then .ok pay else .ok .success
  account := .ok 900

def tenKib (pay : PayResponse) : List Act :=
  [.header 0 (claiming pay), .send 0 0 10240 (claiming pay), .answer 0 0 true 0,
    .settle 0 (claiming pay) fun _ => true]

theorem cheques_bounded_tenKib : Along (Fair thousand) (step thousand) sole (tenKib .success) ∧
    Along (Bounded thousand) (step thousand) sole (tenKib .success) := by
  have offers : ∀ quote : PaymentQuote, quote.params.maxOutstandingPlur = 100 → Offers quote (claiming .success) := by
    intro quote ceiling n offered fetched
    cases fetched
    rw [ceiling]
    decide
  have fair : Along (Fair thousand) (step thousand) sole (tenKib .success) := by
    refine ⟨?_, ?_, ?_, ?_, trivial⟩
    · rintro p ⟨⟩
      exact offers _ rfl
    · rintro p ⟨⟩
      exact ⟨offers _ rfl, by decide⟩
    · rintro sent ⟨⟩
      rfl
    · rintro p ⟨⟩
      refine ⟨offers _ rfl, fun asked => ?_⟩
      cases asked
  exact ⟨fair, cheques_bounded thousand { payouts := ∅ } _ (tenKib .success) fair⟩

def tooHigh : PayResponse := .failure "400 Bad Request" "cheque credits 10 but only 900 is owed"

def owesTen : LanePayer :=
  let p := LanePayer.new "relay" hundred 0
  { p with account := { p.account with owedPlur := 10, capPlur := 100 }, header := true, headerStaleAfter := 570,
           capPlur := 100 }

/-- The relay refuses the cheque for ten as too high and names 900: it is signed a cheque for that. -/
theorem claimed_unbounded : ¬Along (Bounded thousand) (step thousand) sole (tenKib tooHigh) := by
  rintro ⟨_, _, _, bounded, _⟩
  have owed : "cheque credits 10 but only 900 is owed".contains "is owed" = true :=
    String.contains_string_iff.mpr (by decide)
  have something : "cheque credits 10 but only 900 is owed".contains "nothing owed" = false :=
    String.contains_string_eq_false_iff.mpr (by decide)
  have signed : (⟨900, true, true⟩ : Signed) ∈
      owesTen.cheques { payouts := ∅ } thousand (claiming tooHigh) fun _ => true := by
    have shown : (owesTen.syncCumulative { payouts := ∅ }).present { payouts := ∅ } thousand (claiming tooHigh) 0 10 =
        (owesTen, .ok (.failure "400 Bad Request" "cheque credits 10 but only 900 is owed")) := rfl
    have next : (owesTen.syncCumulative { payouts := ∅ }).account.nextCumulative = some 10 := rfl
    simp only [LanePayer.cheques, next, shown, owed, something, Bool.not_false, and_self, if_true]
    decide +kernel
  have above := bounded owesTen rfl _ signed
  revert above
  decide +kernel

end Tally

end Hoverfly.Payer
