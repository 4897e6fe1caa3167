import Hoverfly.Feed.Rounds

/-! The head of a feed is found from any hint when the store answers consistently; when it does not, an index and
its own reference still come back. -/
namespace Hoverfly.Feed
open Lib

section
variable {address : Nat → Bytes 32} {good : (Bytes 32 → Reply) → Prop} {chunk : Chunk} {env : Env}

theorem getUpdate_present {reply : Reply} (present : probeUpdateWith reply = .ok (.present chunk)) :
    getUpdate reply = .ok (some chunk) := by
  rw [getUpdate, present]

theorem confirmAnchor_spec (address : Nat → Bytes 32) {i : Nat} (fits : i < 2 ^ 64) (attempts : Nat)
    (kind : env.All (good ·.answer)) :
    (confirmAnchor address i attempts env).2.All (good ·.answer) ∧
      ∀ chunk, (confirmAnchor address i attempts env).1 = .ok (some chunk) → Said address good (i, some chunk) := by
  induction attempts generalizing env with
  | zero => exact ⟨kind, fun chunk found => by cases found⟩
  | succ attempts ih =>
    have later : env.tail.All (good ·.answer) := fun n => kind (n + 1)
    unfold confirmAnchor
    split
    · exact ⟨later, fun chunk found => by cases found⟩
    · rename_i present
      refine ⟨later, fun chunk found => ?_⟩
      cases found
      exact ⟨fits, env.head.answer, kind 0, getUpdate_present present⟩
    · exact ⟨later, fun chunk found => by cases found⟩
    · exact ih later

theorem findAnchor_spec {after anchor : Nat} {env' : Env} (fits : after < 2 ^ 64)
    (kind : env.All (good ·.answer)) (anchored : findAnchor address after env = (.ok (anchor, chunk), env')) :
    env'.All (good ·.answer) ∧ Said address good (anchor, some chunk) := by
  obtain ⟨later, said⟩ := confirmAnchor_spec address fits anchorAttempts kind
  unfold findAnchor at anchored
  generalize confirmAnchor address after anchorAttempts env = hint at anchored later said
  obtain ⟨halt | _ | found, env₁⟩ := hint
  · cases anchored
  · dsimp only at anchored later
    split at anchored
    · obtain ⟨later, said⟩ := confirmAnchor_spec address (by decide : 0 < 2 ^ 64) anchorAttempts later
      generalize confirmAnchor address 0 anchorAttempts env₁ = zero at anchored later said
      obtain ⟨halt | _ | found, env₂⟩ := zero
      · cases anchored
      · cases anchored
      · cases anchored
        exact ⟨later, said _ rfl⟩
    · cases anchored
  · cases anchored
    exact ⟨later, said _ rfl⟩

theorem search_spec (answers : Answers address good) {fuel lo : Nat}
    (enough : maxProbeIndex < fuel) (said : Said address good (lo, some chunk)) (kind : env.All (good ·.answer)) :
    ∃ f, (search false address fuel lo chunk env).1 = .ok f ∧ Searched address good lo f ∧
      (AllOrdered f → (search true address fuel lo chunk env).1 = .ok f ∧
        (maxProbeIndex ≤ f.lo ∨ ∃ end_, end_ ≤ f.lo + 1 ∧ Missed f end_)) ∧
      (¬ AllOrdered f → (search true address fuel lo chunk env).1 = .error .overflow) := by
  have start : Searched address good lo { lo, chunk, hi := unset, log := [[(lo, some chunk)]] } :=
    ⟨le_rfl, ⟨_, List.mem_singleton_self _, List.mem_singleton_self _⟩, by simpa using said⟩
  have ordered : AllOrdered { lo, chunk, hi := unset, log := [[(lo, some chunk)]] } := by
    simp [AllOrdered, Ordered]
  obtain ⟨f, env', galloped, kind', searched, ends⟩ :=
    gallop_spec answers fuel start rfl ordered (by omega) (by omega) kind
  unfold search
  simp only [galloped]
  cases ends with
  | last unset_ top ordered =>
    simp only [unset_, ne_eq, not_true_eq_false, if_false]
    exact ⟨f, rfl, searched, fun _ => ⟨rfl, .inl top⟩, fun not_ => absurd ordered not_⟩
  | bracket low high missed upright =>
    have set_ : f.hi ≠ unset := by
      have : maxProbeIndex < unset := by simp [maxProbeIndex, unset]
      omega
    rw [if_pos set_, if_pos set_]
    obtain ⟨f', env'', narrowed, searched', inOrder, turned⟩ :=
      narrow_spec answers fuel searched low high missed upright (by omega) (by omega) kind'
    refine ⟨f', by rw [narrowed], searched', fun ordered => ?_, turned⟩
    obtain ⟨same, end_⟩ := inOrder ordered
    exact ⟨by rw [same], .inr end_⟩

end

theorem resolveLatest_eq {keccak256 : List UInt8 → Bytes 32} {feed : Feed} {after : UInt64} {env env' : Env} {anchor : Nat}
    {chunk : Chunk} (anchored : findAnchor (feed.updateAddress keccak256) after.toNat env = (.ok (anchor, chunk), env'))
    (checks : Bool) (fuel : Nat) :
    resolveLatest checks keccak256 feed after fuel env =
      match (search checks (feed.updateAddress keccak256) fuel anchor chunk env').1 with
      | .error halt => .error halt
      | .ok f => headOf f.chunk f.lo := by
  unfold resolveLatest
  dsimp only
  rewrite [anchored]
  rfl

/-- A feed with updates up to `h`, and a store that knows them. -/
def Holds (address : Nat → Bytes 32) (h : Nat) (update : Nat → Chunk) (answer : Bytes 32 → Reply) : Prop :=
  ∀ i < 2 ^ 64, answer (address i) = if i ≤ h then .chunk (update i) else .notFound

section
variable {address : Nat → Bytes 32} {h : Nat} {update : Nat → Chunk}

theorem getUpdate_holds {answer : Bytes 32 → Reply} (holds : Holds address h update answer) {i : Nat} (fits : i < 2 ^ 64) :
    getUpdate (answer (address i)) = .ok (if i ≤ h then some (update i) else none) := by
  rw [holds i fits]
  split <;> rfl

theorem confirmAnchor_holds {env : Env} (kind : env.All (Holds address h update ·.answer)) {i : Nat} (fits : i < 2 ^ 64)
    (attempts : Nat) :
    confirmAnchor address i (attempts + 1) env = (.ok (if i ≤ h then some (update i) else none), env.tail) := by
  have told : env.head.answer (address i) = _ := kind 0 i fits
  rw [confirmAnchor, told]
  by_cases present : i ≤ h
  · rw [if_pos present, if_pos present]
    rfl
  · rw [if_neg present, if_neg present]
    rfl

theorem findAnchor_holds {env : Env} (kind : env.All (Holds address h update ·.answer)) {after : Nat}
    (fits : after < 2 ^ 64) :
    ∃ anchor env', findAnchor address after env = (.ok (anchor, update anchor), env') := by
  have later : env.tail.All (Holds address h update ·.answer) := fun n => kind (n + 1)
  unfold findAnchor anchorAttempts
  rw [confirmAnchor_holds kind fits]
  by_cases present : after ≤ h
  · rw [if_pos present]
    exact ⟨after, _, rfl⟩
  · rw [if_neg present]
    dsimp only
    rw [if_pos (by omega), confirmAnchor_holds later (by decide), if_pos (Nat.zero_le h)]
    exact ⟨0, _, rfl⟩

end

/-- The head is found from every hint, with the reference stored there, in whatever order probes complete. -/
theorem resolveLatest_finds_head (checks : Bool) (keccak256 : List UInt8 → Bytes 32) (feed : Feed) (update : Nat → Chunk)
    {h : Nat} (small : h ≤ maxProbeIndex) (after : UInt64) {env : Env}
    (consistent : env.All (Holds (feed.updateAddress keccak256) h update ·.answer)) {fuel : Nat}
    (enough : maxProbeIndex < fuel) :
    resolveLatest checks keccak256 feed after fuel env =
      match referenceFromPayload (update h) with
      | .error e => .error (.error (.feed e))
      | .ok reference => .ok (reference, h) := by
  have answers : Answers (feed.updateAddress keccak256) (Holds (feed.updateAddress keccak256) h update) :=
    fun answer holds i fits => ⟨_, getUpdate_holds holds fits⟩
  have fits := UInt64.toNat_lt after
  obtain ⟨anchor, env', anchored⟩ := findAnchor_holds consistent fits
  obtain ⟨later, said⟩ := findAnchor_spec fits consistent anchored
  obtain ⟨f, unchecked, searched, inOrder, -⟩ := search_spec answers enough said later
  -- every answer tells on which side of the head its index lies
  have sides : ∀ round ∈ f.log, ∀ i seen, (i, seen) ∈ round → seen = if i ≤ h then some (update i) else none := by
    intro round member i seen here
    obtain ⟨inRange, answer, holds, told⟩ := searched.said round member _ here
    rw [getUpdate_holds holds inRange] at told
    exact (Except.ok.inj told).symm
  have ordered : AllOrdered f := by
    intro round member i chunk j present absent
    have low := sides round member _ _ present
    have high := sides round member _ _ absent
    split at low
    · split at high
      · cases high
      · omega
    · cases low
  obtain ⟨checked, stop⟩ := inOrder ordered
  obtain ⟨round, member, held⟩ := searched.held
  have below := sides round member _ _ held
  have head : f.lo = h ∧ f.chunk = update h := by
    split at below
    · rename_i low
      have same : f.lo = h := by
        rcases stop with last | ⟨end_, next, round, member, missed⟩
        · omega
        · have above := sides round member _ _ missed
          split at above
          · cases above
          · omega
      exact ⟨same, by rw [Option.some.inj below, same]⟩
    · cases below
  have found : (search checks (feed.updateAddress keccak256) fuel anchor (update anchor) env').1 = .ok f := by
    cases checks with
    | true => exact checked
    | false => exact unchecked
  rw [resolveLatest_eq anchored, found]
  dsimp only
  rw [head.1, head.2]
  rfl

def plainHash (bytes : List UInt8) : Bytes 32 :=
  ⟨((if bytes.length = 40 then bytes.drop 32 else bytes) ++ List.replicate 32 0).take 32, by simp⟩

def plainFeed : Feed := { owner := Bytes.replicate 20 0, topic := Bytes.replicate 32 0 }

def plainIndex (a : Bytes 32) : Nat := fromLe (a.val.take 8).reverse

theorem plainIndex_address {i : Nat} (fits : i < 2 ^ 64) : plainIndex (plainFeed.updateAddress plainHash i) = i := by
  have id_ : (plainHash (plainFeed.topic.val ++ (toLe 8 i).reverse)).val.take 8 = (toLe 8 i).reverse := by
    dsimp only [plainHash]
    rw [if_pos (by simp [plainFeed, Bytes.replicate]), List.drop_left' plainFeed.topic.property, List.take_take,
      List.take_append_of_le_length (by simp)]
    exact List.take_of_length_le (by simp)
  have outer : ∀ id : Bytes 32, (plainHash (id.val ++ plainFeed.owner.val)).val.take 8 = id.val.take 8 := by
    intro id
    dsimp only [plainHash]
    rw [if_neg (by simp [id.property, plainFeed, Bytes.replicate]), List.take_take, List.append_assoc,
      List.take_append_of_le_length (by simp [id.property])]
    rfl
  rw [plainIndex, updateAddress, outer, id_, List.reverse_reverse, fromLe_toLe]
  exact Nat.mod_eq_of_lt fits

def threeUpdates (a : Bytes 32) : Reply := if plainIndex a ≤ 2 then .chunk (List.replicate 40 0) else .notFound

theorem holds_threeUpdates :
    Holds (plainFeed.updateAddress plainHash) 2 (fun _ => List.replicate 40 0) threeUpdates := by
  intro i fits
  rw [threeUpdates, plainIndex_address fits]

theorem resolveLatest_finds_two :
    resolveLatest true plainHash plainFeed 5 (maxProbeIndex + 1) (Stream'.const ⟨0, threeUpdates⟩) =
      .ok (⟨List.replicate 32 0, rfl⟩, 2) := by
  have two : 2 ≤ maxProbeIndex := by simp [maxProbeIndex]
  have more : maxProbeIndex < maxProbeIndex + 1 := by omega
  have consistent : (Stream'.const (⟨0, threeUpdates⟩ : Completion (Bytes 32 → Reply))).All
      (Holds (plainFeed.updateAddress plainHash) 2 (fun _ => List.replicate 40 0) ·.answer) := fun _ => holds_threeUpdates
  exact resolveLatest_finds_head true plainHash plainFeed (fun _ => List.replicate 40 0) two 5 consistent more

/-- What the search should give whatever the store answers: an index that was answered present, not below the
anchor, with the reference from its chunk. -/
def Tolerates (run : Except Halt (Bytes 32 × Nat)) (anchor : Nat) (log : List Round) : Prop :=
  ∃ index chunk, (∃ round ∈ log, (index, some chunk) ∈ round) ∧ anchor ≤ index ∧
    run = headOf chunk index

/-- A build with overflow checks tolerates the answers just when no round answers an index present above one
it answers absent; without the checks the search ends well in any case. -/
theorem resolveLatest_tolerates_iff (keccak256 : List UInt8 → Bytes 32) (feed : Feed) (after : UInt64) {fuel : Nat}
    (enough : maxProbeIndex < fuel) {env env' : Env} {anchor : Nat} {chunk : Chunk}
    (noError : env.All (Quiet (feed.updateAddress keccak256) ·.answer))
    (anchored : findAnchor (feed.updateAddress keccak256) after.toNat env = (.ok (anchor, chunk), env')) :
    ∃ f, (search false (feed.updateAddress keccak256) fuel anchor chunk env').1 = .ok f ∧
      Tolerates (resolveLatest false keccak256 feed after fuel env) anchor f.log ∧
      (Tolerates (resolveLatest true keccak256 feed after fuel env) anchor f.log ↔ ∀ round ∈ f.log, Ordered round) := by
  have answers : Answers (feed.updateAddress keccak256) (Quiet (feed.updateAddress keccak256)) := fun answer quiet => quiet
  obtain ⟨later, said⟩ := findAnchor_spec (UInt64.toNat_lt after) noError anchored
  obtain ⟨f, unchecked, searched, inOrder, turned⟩ := search_spec answers enough said later
  have good : ∀ checks, (search checks (feed.updateAddress keccak256) fuel anchor chunk env').1 = .ok f →
      Tolerates (resolveLatest checks keccak256 feed after fuel env) anchor f.log := by
    intro checks found
    refine ⟨f.lo, f.chunk, searched.held, searched.anchored, ?_⟩
    rw [resolveLatest_eq anchored, found]
  refine ⟨f, unchecked, good false unchecked, fun tolerates => ?_, fun ordered => good true (inOrder ordered).1⟩
  by_contra unordered
  obtain ⟨index, found, -, -, result⟩ := tolerates
  rw [resolveLatest_eq anchored, turned unordered, headOf] at result
  cases short : referenceFromPayload found with
  | error e =>
    rw [short] at result
    cases result
  | ok reference =>
    rw [short] at result
    cases result

theorem resolveLatest_tolerates_three : ∃ anchor env' f,
    findAnchor (plainFeed.updateAddress plainHash) (5 : UInt64).toNat (Stream'.const ⟨0, threeUpdates⟩) =
      (.ok (anchor, List.replicate 40 0), env') ∧
    (search false (plainFeed.updateAddress plainHash) (maxProbeIndex + 1) anchor (List.replicate 40 0) env').1 = .ok f ∧
    (Tolerates (resolveLatest true plainHash plainFeed 5 (maxProbeIndex + 1) (Stream'.const ⟨0, threeUpdates⟩)) anchor
      f.log ↔ ∀ round ∈ f.log, Ordered round) := by
  have consistent : (Stream'.const (⟨0, threeUpdates⟩ : Completion (Bytes 32 → Reply))).All
      (Holds (plainFeed.updateAddress plainHash) 2 (fun _ => List.replicate 40 0) ·.answer) := fun _ => holds_threeUpdates
  have quiet : Quiet (plainFeed.updateAddress plainHash) threeUpdates :=
    fun i fits => ⟨_, getUpdate_holds holds_threeUpdates fits⟩
  have noError : (Stream'.const (⟨0, threeUpdates⟩ : Completion (Bytes 32 → Reply))).All
      (Quiet (plainFeed.updateAddress plainHash) ·.answer) := fun _ => quiet
  obtain ⟨anchor, env', anchored⟩ := findAnchor_holds consistent (UInt64.toNat_lt 5)
  have more : maxProbeIndex < maxProbeIndex + 1 := by omega
  obtain ⟨f, found, -, iff_⟩ := resolveLatest_tolerates_iff plainHash plainFeed 5 more noError anchored
  exact ⟨anchor, env', f, anchored, found, iff_⟩

def gapStore (a : Bytes 32) : Reply :=
  if plainIndex a = 0 ∨ plainIndex a = 2 then .chunk (List.replicate 40 0)
  else if plainIndex a = 1 then .timedOut
  else .notFound

theorem quiet_gapStore : Quiet (plainFeed.updateAddress plainHash) gapStore := by
  intro i _
  unfold gapStore
  split
  · exact ⟨_, rfl⟩
  · split <;> exact ⟨_, rfl⟩

def overflowed : Except Halt (Bytes 32 × Nat) → Bool
  | .error .overflow => true
  | _ => false

theorem missed_update_overflows :
    Quiet (plainFeed.updateAddress plainHash) gapStore ∧
      resolveLatest true plainHash plainFeed 0 (maxProbeIndex + 1) (Stream'.const ⟨0, gapStore⟩) = .error .overflow := by
  refine ⟨quiet_gapStore, ?_⟩
  have evaluated : overflowed (resolveLatest true plainHash plainFeed 0 (maxProbeIndex + 1)
      (Stream'.const ⟨0, gapStore⟩)) = true := by decide +kernel
  unfold overflowed at evaluated
  split at evaluated
  · assumption
  · cases evaluated

end Hoverfly.Feed
