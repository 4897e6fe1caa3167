import Hoverfly.Relay.Ceiling

/-! Who is answered 402 in hard mode. A refused request gives its reservation back in a critical section of its own,
so that another can be measured against it in between. -/
namespace Hoverfly.Relay
open Lib Meter Push

def Refusal.status : Refusal → Nat
  | .line status _ => status
  | .paymentRequired .. => 402

namespace Task

/-- The request is to be answered 402, or has been. -/
def turnedAway : Task → Bool
  | .refused _ _ answer => answer.status = 402
  | .ended (some answer) => answer.status = 402
  | _ => false

/-- What a refused request has not given back yet. -/
def lingering (account : EthAddr) : Task → Nat
  | .refused other reservedPlur _ => amountOf account (some (other, reservedPlur))
  | _ => 0

theorem held_eq (account : EthAddr) (t : Task) : t.held account = t.granted account + t.lingering account := by
  cases t with
  | refused => exact (Nat.zero_add _).symm
  | checked | ended | reading | pushing => rfl

end Task

namespace State

def turnedAway (r : State) (id : Nat) : Bool := r.tasks[id]?.any Task.turnedAway

def lingering (r : State) (account : EthAddr) : Nat := (r.tasks.map (Task.lingering account)).sum

def load (cfg : MeterConfig) (r : State) (x : VerifiedChallenge × Nat) : Nat :=
  r.store.mem.owed x.1.account + r.granted x.1.account + cfg.params.priceBytes x.2

/-- Whoever is answered 402 by this event did not fit at its reserve step. -/
def Justified (cfg : MeterConfig) (path : String) (r : State) (e : Event) : Prop :=
  ∀ id, r.turnedAway id = false → (r.step cfg path e).turnedAway id = true →
    e = .reserve id ∧ ∃ x ∈ r.checkedAt id, x.1.capPlur < r.load cfg x

/-- At a reserve step, what refused requests of the account have not given back makes no
difference to the answer. -/
def Undisturbed (cfg : MeterConfig) (r : State) : Event → Prop
  | .reserve id => ∀ x ∈ r.checkedAt id,
      r.load cfg x ≤ x.1.capPlur → r.load cfg x + r.lingering x.1.account ≤ x.1.capPlur
  | _ => True

instance (cfg : MeterConfig) (r : State) : (e : Event) → Decidable (r.Undisturbed cfg e)
  | .reserve _ => by unfold Undisturbed; infer_instance
  | .request _ | .release _ | .body .. | .cancel _ | .commit .. | .pay .. | .restart .. => .isTrue trivial

theorem held_eq (r : State) (account : EthAddr) : r.held account = r.granted account + r.lingering account := by
  unfold held granted lingering
  rw [← List.sum_map_add]
  exact congrArg List.sum (List.map_congr_left fun t _ => t.held_eq account)

/-- The ledger never shows more than the requests hold; sums that leave `u128` can make it less. -/
def Backed (path : String) (r : State) : Prop :=
  r.store.Sound path ∧ ∀ account, r.store.mem.reserved account ≤ r.held account

theorem Shift.backed {fits : Prop} {reserved held reserved' held' : Nat}
    (shift : Shift fits reserved held reserved' held') (before : reserved ≤ held) : reserved' ≤ held' := by
  cases shift with
  | same => exact before
  | take amount => exact (satAdd_le ..).trans (Nat.add_le_add_right before amount)
  | give amount left rest => omega
  | restart => exact Nat.le_refl 0

variable {path : String} {r : State} {cfg : MeterConfig} {id : Nat} {e : Event} {x : VerifiedChallenge × Nat}

theorem Backed.step (backed : r.Backed path) (cfg : MeterConfig) (e : Event) :
    (r.step cfg path e).Backed path := by
  have moves := r.step_moves cfg path e
  refine ⟨sound_moves backed.1 moves, fun account => (moves.shift ?_ account).backed (backed.2 account)⟩
  intro entropy fault _
  obtain ⟨_, mem, _, _, read, _⟩ := backed.1.loaded entropy fault
  rw [read]
  rfl

theorem admitCheck_status {l : Ledger} {req : Request} {answer : Refusal}
    (refused : admitCheck cfg l req = .error answer) : answer.status ≠ 402 := by
  unfold admitCheck at refused
  split at refused
  · split at refused <;> cases refused
    decide
  · cases refused
    exact fun wrong => by cases wrong
  · split at refused
    · cases refused
      decide
    split at refused
    · cases refused
      decide
    split at refused
    · cases refused
      decide
    split at refused <;> cases refused
    decide

theorem readFrames_status {read : BodyRead} {answer : Refusal} (refused : readFrames read = .error answer) :
    answer.status ≠ 402 := by
  unfold readFrames at refused
  split at refused
  · cases refused
    decide
  · cases refused
    decide
  · split at refused
    · cases refused
      decide
    split at refused <;> cases refused
    · exact fun wrong => by cases wrong
    · decide

theorem turnedAway_setTask {other : Nat} {t : Task} (turned : (r.setTask id t).turnedAway other = true) :
    (id = other ∧ t.turnedAway = true) ∨ r.turnedAway other = true := by
  unfold turnedAway setTask at turned
  rw [List.getElem?_set] at turned
  split at turned
  · rename_i same
    split at turned
    · exact .inl ⟨same, turned⟩
    · cases turned
  · exact .inr turned

theorem turnedAway_spawn {t : Task} (quiet : t.turnedAway = false)
    (turned : (r.spawn t).turnedAway id = true) : r.turnedAway id = true := by
  unfold turnedAway spawn at turned
  rw [List.getElem?_append] at turned
  split at turned
  · exact turned
  · cases found : [t][id - r.tasks.length]? with
    | none => simp [found] at turned
    | some t' =>
      have same : t' = t := by simpa using List.mem_of_getElem? found
      simp [found, same, quiet] at turned

theorem tasks_dropGuard (path : String) (r : State) (guard : Option Admitted) :
    (r.dropGuard path guard).tasks = r.tasks := by
  cases guard <;> rfl

theorem tasks_commitGuard (cfg : MeterConfig) (path : String) (r : State) (billableBytes : Nat)
    (fault : Option String) (guard : Option Admitted) :
    (r.commitGuard cfg path billableBytes fault guard).tasks = r.tasks := by
  cases guard <;> rfl

theorem turnedAway_ended {r' : State} (tasks : r'.tasks = r.tasks) {other : Nat} {answer : Option Refusal}
    (quiet : (Task.ended answer).turnedAway = true → r.turnedAway id = true)
    (turned : (r'.setTask id (.ended answer)).turnedAway other = true) : r.turnedAway other = true := by
  rcases turnedAway_setTask turned with ⟨rfl, said⟩ | before
  · exact quiet said
  · rwa [turnedAway, tasks] at before

theorem turnedAway_afterCheck (cfg : MeterConfig) (l : Ledger) (req : Request) :
    (afterCheck req (admitCheck cfg l req)).turnedAway = false := by
  cases answer : admitCheck cfg l req with
  | error e => simp [afterCheck, Task.turnedAway, admitCheck_status answer]
  | ok passed => cases passed <;> rfl

theorem turnedAway_afterReserve {verified : VerifiedChallenge} {declared : Nat}
    {adm : Admission} : (afterReserve cfg verified declared adm).turnedAway = (adm.overCap && cfg.hardMode) := by
  unfold afterReserve
  cases adm.overCap <;> cases cfg.hardMode <;> rfl

theorem turnedAway_step (calm : r.turnedAway id = false) (turned : (r.step cfg path e).turnedAway id = true) :
    e = .reserve id ∧ ∃ x ∈ r.checkedAt id,
      (r.store.mem.reserve x.1.account (cfg.params.priceBytes x.2) x.1.capPlur).2.overCap = true := by
  have still : r.turnedAway id ≠ true := by simp [calm]
  cases e with
  | request req => exact absurd (turnedAway_spawn (turnedAway_afterCheck ..) turned) still
  | reserve other =>
    dsimp only [step] at turned
    split at turned
    · rename_i verified declared found
      rcases turnedAway_setTask turned with ⟨rfl, said⟩ | before
      · rw [turnedAway_afterReserve, Bool.and_eq_true] at said
        exact ⟨rfl, (verified, declared), by simp [checkedAt, found], said.1⟩
      · exact absurd before still
    · exact absurd turned still
  | release other =>
    dsimp only [step] at turned
    split at turned
    · rename_i account amount answer found
      refine absurd (turnedAway_ended (r := r) rfl (fun said => ?_) turned) still
      rw [turnedAway, found]
      exact said
    · exact absurd turned still
  | body other read =>
    dsimp only [step] at turned
    split at turned
    · split at turned
      · rename_i answer refused
        refine absurd (turnedAway_ended (tasks_dropGuard ..) (fun said => ?_) turned) still
        simp [Task.turnedAway, readFrames_status refused] at said
      · rcases turnedAway_setTask turned with ⟨_, said⟩ | before
        · cases said
        · exact absurd before still
    · exact absurd turned still
  | cancel other =>
    dsimp only [step] at turned
    split at turned
    · exact absurd (turnedAway_ended (tasks_dropGuard ..) (fun said => by cases said) turned) still
    · exact absurd (turnedAway_ended (tasks_dropGuard ..) (fun said => by cases said) turned) still
    · exact absurd turned still
  | commit other world fault =>
    dsimp only [step] at turned
    split at turned
    · exact absurd (turnedAway_ended (tasks_commitGuard ..) (fun said => by cases said) turned) still
    · exact absurd turned still
  | pay => exact absurd turned still
  | restart => cases turned

theorem turnedAway_reserve (hard : cfg.hardMode = true) (path : String) (checked : x ∈ r.checkedAt id)
    (beyond : (r.store.mem.reserve x.1.account (cfg.params.priceBytes x.2) x.1.capPlur).2.overCap = true) :
    r.turnedAway id = false ∧ (r.step cfg path (.reserve id)).turnedAway id = true := by
  unfold checkedAt at checked
  split at checked
  · rename_i verified declared found
    cases checked
    have inside : id < r.tasks.length := (List.getElem?_eq_some_iff.mp found).1
    have said : (afterReserve cfg verified declared (r.store.mem.reserve verified.account
        (cfg.params.priceBytes declared) verified.capPlur).2).turnedAway = true := by
      rw [turnedAway_afterReserve, beyond, hard]
      rfl
    constructor
    · rw [turnedAway, found]
      rfl
    · dsimp only [step]
      rw [found]
      dsimp only [turnedAway, setTask, call]
      rw [List.getElem?_set_self inside]
      exact said
  · cases checked

theorem overCap_load (backed : r.Backed path)
    (beyond : (r.store.mem.reserve x.1.account (cfg.params.priceBytes x.2) x.1.capPlur).2.overCap = true) :
    x.1.capPlur < r.load cfg x + r.lingering x.1.account := by
  have sum := Ledger.lt_of_overCap beyond
  have shown := backed.2 x.1.account
  rw [held_eq] at shown
  unfold load
  omega

theorem overCap_iff (noLeak : r.NoLeak)
    (fits : Fits 128 (r.store.mem.owed x.1.account + r.store.mem.reserved x.1.account +
      cfg.params.priceBytes x.2)) :
    (r.store.mem.reserve x.1.account (cfg.params.priceBytes x.2) x.1.capPlur).2.overCap = true ↔
      x.1.capPlur < r.load cfg x + r.lingering x.1.account := by
  rw [Ledger.admission_reserve _ _ fits, noLeak, held_eq, load]
  simp only [decide_eq_true_eq]
  omega

theorem Undisturbed.justified (backed : r.Backed path) (quiet : r.Undisturbed cfg e) : r.Justified cfg path e := by
  intro id calm turned
  obtain ⟨rfl, x, checked, beyond⟩ := turnedAway_step calm turned
  refine ⟨rfl, x, checked, Nat.lt_of_not_le fun within => ?_⟩
  have tipped := overCap_load backed beyond
  exact Nat.lt_irrefl _ (tipped.trans_le (quiet x checked within))

theorem Justified.undisturbed (hard : cfg.hardMode = true) (noLeak : r.NoLeak) (fits : r.SumFits cfg e)
    (justified : r.Justified cfg path e) : r.Undisturbed cfg e := by
  cases e with
  | reserve id =>
    intro x checked within
    refine Nat.le_of_not_lt fun tipped => ?_
    obtain ⟨calm, turned⟩ := turnedAway_reserve hard path checked ((overCap_iff noLeak (fits x checked)).mpr tipped)
    obtain ⟨_, y, again, beyond⟩ := justified id calm turned
    cases Option.mem_unique checked again
    exact Nat.lt_irrefl _ (beyond.trans_le within)
  | request | release | body | cancel | commit | pay | restart => trivial

/-- Every 402 of a run is due to debt, live admitted requests and price, if what refused requests
have not given back yet never makes the difference; as long as no sum saturates, only then. -/
theorem refusals_justified (cfg : MeterConfig) (hard : cfg.hardMode = true) (path : String) (entropy : Bytes 32)
    (events : List Event) :
    (Along (Undisturbed cfg) (step cfg path) (opened path entropy) events →
      Along (Justified cfg path) (step cfg path) (opened path entropy) events) ∧
    (Along (SumFits cfg) (step cfg path) (opened path entropy) events →
      Along (Justified cfg path) (step cfg path) (opened path entropy) events →
        Along (Undisturbed cfg) (step cfg path) (opened path entropy) events) := by
  constructor
  · exact along_of_invariant (fun r e backed _ => backed.step cfg e)
      (fun r e backed quiet => quiet.justified backed) events
      ⟨Store.Sound.create path entropy, fun _ => Nat.zero_le _⟩
  · intro fits justified
    refine along_of_invariant (fun r e (inv : r.store.Sound path ∧ r.NoLeak) ok => ?_)
      (fun r e inv ok => ok.2.undisturbed hard inv.2 ok.1) events
      ⟨Store.Sound.create path entropy, fun _ => rfl⟩ ((along_and ..).mpr ⟨fits, justified⟩)
    have moves := r.step_moves cfg path e
    exact ⟨sound_moves inv.1 moves, inv.2.moves (ok.1.inRange inv.1) moves⟩

def hardDefault : MeterConfig := { params := Params.default, hardMode := true }

def refusedThenFits : List Event :=
  [post Store.someone 480000000 2048, post Store.someone 480000000 1024, .reserve 0, .release 0, .reserve 1]

theorem refusals_justified_refusedThenFits :
    Along (Undisturbed hardDefault) (step hardDefault "ledger.json") ready refusedThenFits ∧
      Along (Justified hardDefault "ledger.json") (step hardDefault "ledger.json") ready refusedThenFits := by
  have quiet : Along (Undisturbed hardDefault) (step hardDefault "ledger.json") ready refusedThenFits := by
    decide +kernel
  exact ⟨quiet, (refusals_justified hardDefault rfl "ledger.json" (Bytes.replicate 32 0) refusedThenFits).1 quiet⟩

def refusedWhileFits : List Event :=
  [post Store.someone 480000000 2048, post Store.someone 480000000 1024, .reserve 0]

/-- The second request fits alone, and is answered 402 because of the first. -/
theorem refusedWhileFits_spurious :
    let r := run (step hardDefault "ledger.json") ready refusedWhileFits
    hardDefault.params.validate.isOk = true ∧ hardDefault.params.creditLine 480000000000 = 480000000 ∧
      r.turnedAway 1 = false ∧ (r.step hardDefault "ledger.json" (.reserve 1)).turnedAway 1 = true ∧
      (∃ x ∈ r.checkedAt 1, r.load hardDefault x ≤ x.1.capPlur) ∧
      (run (step hardDefault "ledger.json") r [.reserve 1, .release 0, .release 1]).turnedAway 1 = true := by
  decide +kernel

end State

end Hoverfly.Relay
