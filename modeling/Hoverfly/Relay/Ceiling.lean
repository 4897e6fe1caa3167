import Hoverfly.Payer.Account
import Hoverfly.Relay.Reserved

/-! In hard mode no account's debt and admitted requests together exceed the ceiling
the relay quotes, through concurrent requests, failed writes and restarts. -/
namespace Hoverfly.Relay
open Lib Meter Push

namespace Task

def granted (account : EthAddr) (t : Task) : Nat :=
  amountOf account (t.guard.map fun g => (g.account, g.reservedPlur))

theorem granted_le_held (account : EthAddr) (t : Task) : t.granted account ≤ t.held account := by
  cases t with
  | checked | refused | ended => exact Nat.zero_le _
  | reading | pushing => exact Nat.le_refl _

/-- A reservation is the price of the declared length, and frames take no more than that. -/
def Priced (p : Params) : Task → Prop
  | .checked verified declared => declared ≤ pushMaxBody ∧ verified.capPlur ≤ p.maxOutstandingPlur
  | .reading (some guard) contentLength =>
    ∃ declared ≤ pushMaxBody, contentLength = some declared ∧ guard.reservedPlur = p.priceBytes declared
  | .pushing (some guard) chunks =>
    ∃ declared ≤ pushMaxBody, (chunks.map StampedChunk.frameBytes).sum ≤ declared ∧
      guard.reservedPlur = p.priceBytes declared
  | _ => True

end Task

namespace State

def granted (r : State) (account : EthAddr) : Nat := (r.tasks.map (Task.granted account)).sum

def declaredAt (r : State) (id : Nat) : Option Nat :=
  match r.tasks[id]? with
  | some (.reading _ contentLength) => contentLength
  | _ => none

/-- The challenge was issued by this relay, and the transport delivers no more than the
declared length. -/
def Trusted (cfg : MeterConfig) (r : State) : Event → Prop
  | .request req => ∀ verified, req.challenge = some (.ok verified) →
      ∃ value, verified.capPlur = cfg.params.creditLine value
  | .body id (.bytes body) => ∀ declared ∈ r.declaredAt id, body.length ≤ declared
  | _ => True

def SumFits (cfg : MeterConfig) (r : State) : Event → Prop
  | .reserve id => ∀ x ∈ r.checkedAt id, Fits 128 (r.store.mem.owed x.1.account +
      r.store.mem.reserved x.1.account + cfg.params.priceBytes x.2)
  | _ => True

instance (cfg : MeterConfig) (r : State) : (e : Event) → Decidable (r.SumFits cfg e)
  | .reserve _ => by unfold SumFits; infer_instance
  | .request _ | .release _ | .body .. | .cancel _ | .commit .. | .pay .. | .restart .. => .isTrue trivial

/-- The file holds the debts of some earlier state that kept the ceiling. -/
def SavedBelow (path : String) (ceiling : Nat) (s : Store) : Prop :=
  ∃ t : Store, t.Sound path ∧ s.file = some t.mem.onDisk ∧ ∀ account, t.mem.owed account ≤ ceiling

structure Capped (cfg : MeterConfig) (path : String) (r : State) : Prop where
  sound : r.store.Sound path
  noLeak : r.NoLeak
  priced : ∀ t ∈ r.tasks, t.Priced cfg.params
  saved : SavedBelow path cfg.params.maxOutstandingPlur r.store
  ceiling : ∀ account, r.store.mem.owed account + r.granted account ≤ cfg.params.maxOutstandingPlur

variable {path : String} {cfg : MeterConfig} {r r' : State} {e : Event} {id : Nat} {t : Task}

theorem SavedBelow.apply {ceiling : Nat} {s : Store} (saved : SavedBelow path ceiling s)
    (sound : s.Sound path) (op : Op) (below : ∀ account, (s.apply path op).mem.owed account ≤ ceiling) :
    SavedBelow path ceiling (s.apply path op) := by
  cases writes : s.saves op with
  | true => exact ⟨_, sound.step op, sound.file_of_saves writes, below⟩
  | false =>
    obtain ⟨t, reachable, file, low⟩ := saved
    exact ⟨t, reachable, (sound.file_of_not_saves writes).trans file, low⟩

theorem SumFits.inRange (fits : r.SumFits cfg e) (sound : r.store.Sound path) : r.InRange cfg path e := by
  cases e with
  | reserve id =>
    intro x checked
    exact (fits x checked).mono (by omega)
  | restart entropy fault =>
    obtain ⟨_, mem, _, _, read, _⟩ := sound.loaded entropy fault
    simp only [InRange, read]
    rfl
  | request | release | body | cancel | commit | pay => trivial

theorem granted_le_held (r : State) (account : EthAddr) : r.granted account ≤ r.held account :=
  List.sum_le_sum fun t _ => Task.granted_le_held account t

theorem granted_setTask (found : r.tasks[id]? = some t) (t' : Task) (account : EthAddr) :
    (r.setTask id t').granted account + t.granted account = r.granted account + t'.granted account :=
  sum_map_set (Task.granted account) r.tasks id t' t found

theorem granted_setTask_ended (found : r.tasks[id]? = some t) (answer : Option Refusal) (account : EthAddr) :
    (r.setTask id (.ended answer)).granted account + t.granted account = r.granted account :=
  granted_setTask found (.ended answer) account

theorem priced_setTask {p : Params} (priced : ∀ t ∈ r.tasks, t.Priced p)
    (new : t.Priced p) : ∀ t' ∈ (r.setTask id t).tasks, t'.Priced p := by
  intro t' member
  rcases List.mem_or_eq_of_mem_set member with old | same
  · exact priced t' old
  · exact same ▸ new

theorem admitCheck_spec {l : Ledger} {req : Request} {verified : VerifiedChallenge}
    {declared : Nat} (passed : admitCheck cfg l req = .ok (some (verified, declared))) :
    req.challenge = some (.ok verified) ∧ declared ≤ pushMaxBody := by
  unfold admitCheck at passed
  split at passed
  · split at passed <;> cases passed
  · cases passed
  · rename_i held challenge
    split at passed
    · cases passed
    split at passed
    · cases passed
    split at passed
    · cases passed
    split at passed
    · cases passed
    · rename_i small
      cases passed
      exact ⟨challenge, Nat.le_of_not_lt small⟩

theorem priced_afterCheck {req : Request} (trusted : r.Trusted cfg (.request req)) :
    (afterCheck req (admitCheck cfg r.store.mem req)).Priced cfg.params := by
  cases answer : admitCheck cfg r.store.mem req with
  | error e => trivial
  | ok passed =>
    cases passed with
    | none => trivial
    | some pair =>
      obtain ⟨challenge, small⟩ := admitCheck_spec answer
      obtain ⟨value, issued⟩ := trusted pair.1 challenge
      exact ⟨small, issued ▸ cfg.params.creditLine_le value⟩

theorem frames_le {read : BodyRead} {chunks : List StampedChunk} (decoded : readFrames read = .ok chunks) :
    ∃ body, read = .bytes body ∧ (chunks.map StampedChunk.frameBytes).sum = body.length := by
  unfold readFrames at decoded
  split at decoded
  · cases decoded
  · cases decoded
  · rename_i body
    split at decoded
    · cases decoded
    split at decoded
    · cases decoded
    · cases decoded
    · rename_i parsed
      cases decoded
      exact ⟨body, rfl, frameBytes_of_decodeBatch parsed⟩

theorem owed_credit_le (s : Store) (path : String) (account chequebook : EthAddr) (cumulative : Nat)
    (signature : Bytes 65) (fault : Option String) (other : EthAddr) :
    (s.apply path (.credit account chequebook cumulative signature fault)).mem.owed other ≤ s.mem.owed other := by
  dsimp only [Store.apply]
  rcases Metered.credit_spec s.mem account chequebook cumulative signature fault s.file with
    ⟨mem, e, out, same, _⟩ | ⟨mem, file, out, _, _, _, _, _, _, book⟩
  · have owed : mem.owed = s.mem.owed := congrArg Book.owed same
    simp only [out, owed, Nat.le_refl]
  · have owed : mem.owed = Function.update s.mem.owed account
      (s.mem.owed account - (cumulative - s.mem.lastCumulative account chequebook)) := congrArg Book.owed book
    simp only [out, owed]
    by_cases same : other = account
    · subst same
      simp
    · simp [same]

theorem priced_moves
    (priced : ∀ t ∈ r.tasks, t.Priced cfg.params) (trusted : r.Trusted cfg e) (moves : Moves cfg path r e r') :
    ∀ t ∈ r'.tasks, t.Priced cfg.params := by
  cases moves with
  | idle | pay => exact priced
  | request req =>
    intro t member
    rcases List.mem_append.mp member with old | new
    · exact priced t old
    · exact List.mem_singleton.mp new ▸ priced_afterCheck trusted
  | reserve id verified declared found =>
    refine priced_setTask (r := r.call path _) priced ?_
    have checked := priced _ (List.mem_of_getElem? found)
    unfold afterReserve
    split
    · trivial
    · exact ⟨declared, checked.1, rfl, rfl⟩
  | release => exact priced_setTask (r := r.call path _) priced trivial
  | commit => exact priced_setTask (r := (r.call path _).call path _) priced trivial
  | finish => exact priced_setTask priced trivial
  | body id guard contentLength read chunks found decoded =>
    refine priced_setTask priced ?_
    cases guard with
    | none => trivial
    | some guard =>
      obtain ⟨declared, small, rfl, price⟩ := priced _ (List.mem_of_getElem? found)
      obtain ⟨body, rfl, sum⟩ := frames_le decoded
      exact ⟨declared, small, sum ▸ trusted declared (by simp [declaredAt, found]), price⟩
  | restart => exact fun t member => by cases member

theorem granted_afterReserve (hard : cfg.hardMode = true) (verified : VerifiedChallenge)
    (declared : Nat) (adm : Admission) (account : EthAddr) :
    (afterReserve cfg verified declared adm).granted account =
      if adm.overCap then 0 else if account = verified.account then adm.reservedPlur else 0 := by
  unfold afterReserve
  cases beyond : adm.overCap with
  | false => simp [Task.granted, Task.guard, Task.amountOf]
  | true => simp [hard, Task.granted, Task.guard, Task.amountOf]

theorem ceiling_reserve (hard : cfg.hardMode = true) (noLeak : r.NoLeak)
    {verified : VerifiedChallenge} {declared : Nat}
    (found : r.tasks[id]? = some (.checked verified declared))
    (cap : verified.capPlur ≤ cfg.params.maxOutstandingPlur)
    (fits : Fits 128 (r.store.mem.owed verified.account + r.store.mem.reserved verified.account +
      cfg.params.priceBytes declared)) {account : EthAddr}
    (below : r.store.mem.owed account + r.granted account ≤ cfg.params.maxOutstandingPlur) :
    r.store.mem.owed account + (r.setTask id (afterReserve cfg verified declared
      (r.store.mem.reserve verified.account (cfg.params.priceBytes declared) verified.capPlur).2)).granted account ≤
      cfg.params.maxOutstandingPlur := by
  have moved := granted_setTask found (afterReserve cfg verified declared
    (r.store.mem.reserve verified.account (cfg.params.priceBytes declared) verified.capPlur).2) account
  have nothing : (Task.checked verified declared).granted account = 0 := rfl
  have total := granted_le_held r account
  have leak := noLeak account
  rw [granted_afterReserve hard, Ledger.admission_reserve _ _ fits] at moved
  rw [Ledger.admission_reserve _ _ fits]
  dsimp only at moved ⊢
  split at moved
  · omega
  · rename_i within
    split at moved
    · rename_i same
      subst same
      simp only [decide_eq_true_eq, Nat.not_lt] at within
      omega
    · omega

theorem ceiling_commit (priceFits : Fits 128 (cfg.params.exactPrice pushMaxBody))
    {guard : Admitted} {chunks : List StampedChunk}
    (found : r.tasks[id]? = some (.pushing (some guard) chunks))
    (priced : (Task.pushing (some guard) chunks).Priced cfg.params) (world : FrameWorld) {account : EthAddr}
    (below : r.store.mem.owed account + r.granted account ≤ cfg.params.maxOutstandingPlur) :
    (r.store.mem.commit guard.account guard.reservedPlur
        (cfg.params.priceBytes (frameLoop (some guard) world chunks).billableBytes)).owed account +
      (r.setTask id (.ended none)).granted account ≤ cfg.params.maxOutstandingPlur := by
  obtain ⟨declared, small, sum, price⟩ := priced
  have billed : cfg.params.priceBytes (frameLoop (some guard) world chunks).billableBytes ≤ guard.reservedPlur :=
    price ▸ Params.priceBytes_mono priceFits ((billable_le (some guard) world chunks).trans sum) small
  have moved := granted_setTask_ended found none account
  rw [Ledger.owed_commit]
  by_cases same : account = guard.account
  · subst same
    have mine : (Task.pushing (some guard) chunks).granted guard.account = guard.reservedPlur := if_pos rfl
    have clamp := satAdd_le 128 (r.store.mem.owed guard.account)
      (cfg.params.priceBytes (frameLoop (some guard) world chunks).billableBytes)
    simp only [Function.update_self]
    omega
  · simp only [Function.update_of_ne same]
    omega

theorem Capped.ceiling_moves (hard : cfg.hardMode = true) (priceFits : Fits 128 (cfg.params.exactPrice pushMaxBody))
    (capped : Capped cfg path r) (fits : r.SumFits cfg e) (moves : Moves cfg path r e r') (account : EthAddr) :
    r'.store.mem.owed account + r'.granted account ≤ cfg.params.maxOutstandingPlur := by
  have below := capped.ceiling account
  cases moves with
  | idle => exact below
  | request req =>
    have none_ : (afterCheck req (admitCheck cfg r.store.mem req)).granted account = 0 :=
      Nat.le_zero.mp ((Task.granted_le_held ..).trans (by simp [Task.held, holding_afterCheck, Task.amountOf]))
    simpa [spawn, granted, none_] using below
  | reserve id verified declared found =>
    have checked := capped.priced _ (List.mem_of_getElem? found)
    have sum := fits (verified, declared) (by simp [checkedAt, found])
    have kept := ceiling_reserve hard capped.noLeak found checked.2 sum below
    rw [← Ledger.owed_reserve r.store.mem verified.account (cfg.params.priceBytes declared) verified.capPlur] at kept
    exact kept
  | release _ id t other amount answer found holds =>
    have moved := granted_setTask_ended found answer account
    have same := congrFun (r.store.mem.owed_release other amount) account
    show (r.store.mem.release other amount).owed account + (r.setTask id (.ended answer)).granted account ≤ _
    omega
  | finish _ id t answer found empty =>
    have moved := granted_setTask_ended found answer account
    show r.store.mem.owed account + _ ≤ _
    omega
  | body id guard contentLength read chunks found decoded =>
    have moved := granted_setTask found (.pushing guard chunks) account
    have same : (Task.pushing guard chunks).granted account = (Task.reading guard contentLength).granted account := rfl
    show r.store.mem.owed account + _ ≤ _
    omega
  | commit id guard chunks world fault found =>
    exact ceiling_commit priceFits found (capped.priced _ (List.mem_of_getElem? found)) world below
  | pay other chequebook cumulative signature fault =>
    have less := owed_credit_le r.store path other chequebook cumulative signature fault account
    exact (Nat.add_le_add_right less _).trans below
  | restart entropy fault =>
    obtain ⟨t, sound, file, low⟩ := capped.saved
    have owed := congrFun (capped.sound.owed_reload file sound entropy fault) account
    show Ledger.owed _ account + 0 ≤ _
    exact owed ▸ low account

theorem sound_moves (sound : r.store.Sound path) (moves : Moves cfg path r e r') : r'.store.Sound path := by
  cases moves with
  | idle | request | finish | body => exact sound
  | reserve => exact sound.step (.reserve _ _ _)
  | release => exact sound.step (.release _ _)
  | pay => exact sound.step (.credit _ _ _ _ _)
  | restart => exact sound.step (.reload _ _)
  | commit => exact (sound.step (.commit _ _ _)).step (.persist _)

theorem saved_moves {ceiling : Nat}
    (saved : SavedBelow path ceiling r.store) (sound : r.store.Sound path) (moves : Moves cfg path r e r')
    (below : ∀ account, r'.store.mem.owed account ≤ ceiling) : SavedBelow path ceiling r'.store := by
  cases moves with
  | idle | request | finish | body => exact saved
  | reserve => exact saved.apply sound (.reserve _ _ _) below
  | release => exact saved.apply sound (.release _ _) below
  | pay => exact saved.apply sound (.credit _ _ _ _ _) below
  | restart => exact saved.apply sound (.reload _ _) below
  | commit => exact (saved.apply sound (.commit _ _ _) below).apply (sound.step _) (.persist _) below

theorem Capped.step (hard : cfg.hardMode = true)
    (priceFits : Fits 128 (cfg.params.exactPrice pushMaxBody)) (capped : Capped cfg path r)
    (trusted : r.Trusted cfg e) (fits : r.SumFits cfg e) : Capped cfg path (r.step cfg path e) := by
  have moves := r.step_moves cfg path e
  have ceiling := capped.ceiling_moves hard priceFits fits moves
  exact {
    sound := sound_moves capped.sound moves
    noLeak := capped.noLeak.moves (fits.inRange capped.sound) moves
    priced := priced_moves capped.priced trusted moves
    saved := saved_moves capped.saved capped.sound moves fun account => (Nat.le_add_right ..).trans (ceiling account)
    ceiling }

theorem capped_opened (cfg : MeterConfig) (path : String) (entropy : Bytes 32) :
    Capped cfg path (opened path entropy) where
  sound := Store.Sound.create path entropy
  noLeak _ := rfl
  priced _ member := by cases member
  saved := ⟨_, Store.Sound.create path entropy, rfl, fun _ => Nat.zero_le _⟩
  ceiling _ := Nat.zero_le _

theorem debt_within_ceiling (cfg : MeterConfig) (path : String) (entropy : Bytes 32) (events : List Event)
    (hard : cfg.hardMode = true) (priceFits : Fits 128 (cfg.params.exactPrice pushMaxBody))
    (trusted : Along (Trusted cfg) (step cfg path) (opened path entropy) events)
    (fits : Along (SumFits cfg) (step cfg path) (opened path entropy) events) :
    let r := run (step cfg path) (opened path entropy) events
    (∀ account, r.store.mem.owed account + r.granted account ≤ cfg.params.maxOutstandingPlur) ∧
      ∀ (verified : VerifiedChallenge) (quote : Payer.PaymentQuote) (balance : Nat), quote.params = cfg.params →
        (quote.checkReportedDebt (accountResponse cfg r.store.mem verified).owedPlur balance = .ok () ↔
          (accountResponse cfg r.store.mem verified).owedPlur ≤ balance) := by
  have capped := invariant_along (Capped cfg path) (fun r e => r.Trusted cfg e ∧ r.SumFits cfg e) (step cfg path)
    (fun r e capped ok => capped.step hard priceFits ok.1 ok.2) (opened path entropy) events
    (capped_opened cfg path entropy) ((along_and ..).mpr ⟨trusted, fits⟩)
  refine ⟨capped.ceiling, ?_⟩
  intro verified quote balance same
  have below := (Nat.le_add_right ..).trans (capped.ceiling verified.account)
  unfold Payer.PaymentQuote.checkReportedDebt accountResponse
  rw [same]
  dsimp only
  rw [if_neg (Nat.not_lt.mpr below)]
  split
  · rename_i more
    simp [Nat.not_le.mpr more]
  · rename_i less
    simp [Nat.le_of_not_lt less]

def oneFrame : List UInt8 := List.replicate 145 0 ++ [8, 0] ++ List.replicate 8 0

def goodWorld : FrameWorld where
  validate _ := .ok { batchId := Bytes.replicate 32 0, signer := Store.someone }
  resolveOwner _ _ := .ok (Store.someone, 0)
  recent _ _ _ := false

def pushOne (capPlur declared : Nat) : List Event :=
  [post Store.someone capPlur declared, .reserve 0, .body 0 (.bytes oneFrame), .commit 0 goodWorld none]

theorem debt_within_ceiling_pushOne :
    let r := run (step { params := Params.default, hardMode := true } "ledger.json")
      (opened "ledger.json" ⟨List.replicate 32 0, rfl⟩) (pushOne 480000000 155)
    r.store.mem.owed Store.someone + r.granted Store.someone ≤ Params.default.maxOutstandingPlur := by
  refine (debt_within_ceiling _ "ledger.json" _ (pushOne 480000000 155) rfl (by decide +kernel) ?_
    (by decide +kernel)).1 Store.someone
  refine ⟨?_, trivial, ?_, trivial, trivial⟩
  · intro verified presented
    cases presented
    exact ⟨480000000000, by decide +kernel⟩
  · show ∀ declared ∈ declaredAt _ 0, oneFrame.length ≤ declared
    decide +kernel

def hardHugePrice : MeterConfig := { hugePrice with hardMode := true }

/-- The price of two KiB wraps to zero, so the request is admitted; its one frame is then billed
at the price of one KiB. -/
theorem pushOne_breaks_ceiling :
    let r := run (step hardHugePrice "ledger.json") ready (pushOne 2 2048)
    hardHugePrice.params.validate.isOk = true ∧ hardHugePrice.params.creditLine 2 = 2 ∧ oneFrame.length ≤ 2048 ∧
      hardHugePrice.params.maxOutstandingPlur < r.store.mem.owed Store.someone := by
  decide +kernel

end State

end Hoverfly.Relay
