import Hoverfly.Lib.Map
import Mathlib.Data.List.Destutter

/-! The peer store: what it keeps of a peer's dials, how it grades the peer by them, and
how it merges a record into what it has. -/
namespace Hoverfly.Peers
open Lib

structure Peer where
  overlay : String
  underlays : List String
  ethAddress : Option String := none
  nonce : Option String := none
  fullNode : Option Bool := none
  lastDialSuccessUnix : Option UInt64 := none
  lastDialFailureUnix : Option UInt64 := none
  lastDialRttMs : Option UInt32 := none
  consecutiveFailures : UInt16 := 0

def recentFailureSecs : Nat := 300

/-- `a > b`, where `None` is before every time. -/
def later : Option UInt64 → Option UInt64 → Bool
  | some a, some b => b < a
  | some _, none => true
  | none, _ => false

def saturatingSub (a b : UInt64) : Nat := a.toNat - b.toNat

namespace Peer

def failureBackoffSecs (p : Peer) : Nat :=
  let shift := min p.consecutiveFailures.toNat 3
  min (min (60 * 2 ^ shift) (2 ^ 64 - 1)) recentFailureSecs

def isRecentlyUnreachable (p : Peer) (now : UInt64) : Bool :=
  match p.lastDialFailureUnix with
  | none => false
  | some fail =>
    if p.lastDialSuccessUnix.any fun succ => succ ≥ fail then false
    else saturatingSub now fail < p.failureBackoffSecs

def dialRank (p : Peer) (now : UInt64) : Nat :=
  match p.lastDialSuccessUnix, p.lastDialFailureUnix with
  | some _, none => 0
  | none, none => 1
  | succ, some f =>
    if succ.any fun s => s ≥ f then 0
    else if saturatingSub now f ≥ p.failureBackoffSecs then 1
    else if p.consecutiveFailures ≥ 3 then 3
    else 2

def latestDial (p : Peer) : Option UInt64 :=
  if later p.lastDialFailureUnix p.lastDialSuccessUnix then p.lastDialFailureUnix else p.lastDialSuccessUnix

end Peer

def cutAt (part : List Char) : List Char → List Char × Option (List Char)
  | [] => ([], if part = [] then some [] else none)
  | c :: rest =>
    if part.isPrefixOf (c :: rest) then ([], some ((c :: rest).drop part.length))
    else (c :: (cutAt part rest).1, (cutAt part rest).2)

def containsText (text part : String) : Bool := text.toList.tails.any part.toList.isPrefixOf

structure Ipv4Addr where
  octets : Fin 4 → UInt8

def isUnroutableIp4 (ip : Ipv4Addr) : Bool :=
  let (a, b, c, d) := (ip.octets 0, ip.octets 1, ip.octets 2, ip.octets 3)
  -- private
  a == 10 || (a == 172 && b &&& 0xf0 == 16) || (a == 192 && b == 168)
  -- loopback, link-local, unspecified, broadcast
  || a == 127 || (a == 169 && b == 254) || (a == 0 && b == 0 && c == 0 && d == 0)
  || (a == 255 && b == 255 && c == 255 && d == 255)
  || (a == 100 && b &&& 0xC0 == 0x40)

def isWs (ma : String) : Bool := containsText ma "/ws" || containsText ma "/wss"

structure Host where
  /-- `str::to_lowercase` -/
  toLowercase : String → String
  /-- The parser of a dotted address. -/
  parseIpv4 : String → Option Ipv4Addr
  /-- A browser build, which has no plain sockets. -/
  wasm : Bool

section
variable (host : Host)

def hasUnroutableIp4 (ma : String) : Bool :=
  match (cutAt "/ip4/".toList ma.toList).2 with
  | none => false
  | some rest =>
    let segment := (cutAt "/ip4/".toList rest).1
    match host.parseIpv4 (String.ofList (segment.takeWhile (· ≠ '/'))) with
    | none => false
    | some ip => isUnroutableIp4 ip

def isDialableStr (ma : String) : Bool :=
  if !containsText ma "/ip4/" then false
  else if hasUnroutableIp4 host ma then false
  else if host.wasm then isWs ma
  else isWs ma || (containsText ma "/tcp/" && !isWs ma)

def sortDedup (underlays : List String) : List String :=
  (underlays.mergeSort fun a b => decide (a ≤ b)).destutter (· ≠ ·)

abbrev PeerStore := AList (fun _ : String => Peer)

def noteSuccess (existing peer : Peer) : Peer :=
  if later peer.lastDialSuccessUnix existing.lastDialSuccessUnix then { existing with
    lastDialSuccessUnix := peer.lastDialSuccessUnix
    lastDialRttMs := peer.lastDialRttMs
    consecutiveFailures := 0 }
  else existing

def noteFailure (existing peer : Peer) : Peer :=
  if later peer.lastDialFailureUnix existing.lastDialFailureUnix then { existing with
    lastDialFailureUnix := peer.lastDialFailureUnix
    consecutiveFailures := UInt16.ofNat
      (min (existing.consecutiveFailures.toNat + (max peer.consecutiveFailures 1).toNat) (2 ^ 16 - 1)) }
  else existing

def merge (existing peer : Peer) : Peer :=
  let existing := { existing with
    underlays := sortDedup
      (peer.underlays.foldl (fun us u => if us.contains u then us else us ++ [u]) existing.underlays)
    ethAddress := existing.ethAddress.or peer.ethAddress
    nonce := existing.nonce.or peer.nonce
    fullNode := peer.fullNode.or existing.fullNode }
  noteFailure (noteSuccess existing peer) peer

def PeerStore.upsert (store : PeerStore) (peer : Peer) : PeerStore :=
  let peer := { peer with underlays := sortDedup (peer.underlays.filter (isDialableStr host)) }
  if peer.underlays = [] then store
  else
    let key := host.toLowercase peer.overlay
    match store.lookup key with
    | some existing => store.insert key (merge existing peer)
    | none => store.insert key peer

end

def SameVerdict (old new : Peer) : Prop :=
  ∀ now, later old.latestDial (some now) = false →
    new.dialRank now = old.dialRank now ∧ new.isRecentlyUnreachable now = old.isRecentlyUnreachable now

section
variable {p old new peer : Peer} {s f now : UInt64}

theorem later_some {a b : UInt64} : later (some a) (some b) = true ↔ b.toNat < a.toNat := by
  rw [later, decide_eq_true_eq, UInt64.lt_iff_toNat_lt]

theorem not_later_some {a b : UInt64} : later (some a) (some b) = false ↔ a.toNat ≤ b.toNat := by
  rw [← Bool.not_eq_true, later_some, Nat.not_lt]

theorem verdict_good (success : p.lastDialSuccessUnix = some s) (older : later p.lastDialFailureUnix (some s) = false)
    (now : UInt64) : p.dialRank now = 0 ∧ p.isRecentlyUnreachable now = false := by
  unfold Peer.dialRank Peer.isRecentlyUnreachable
  rw [success]
  cases failure : p.lastDialFailureUnix with
  | none => exact ⟨rfl, rfl⟩
  | some f =>
    rw [failure, not_later_some] at older
    have since : (some s).any (fun s => decide (s ≥ f)) = true := by
      rw [Option.any_some, decide_eq_true_eq, ge_iff_le, UInt64.le_iff_toNat_le]
      exact older
    dsimp only
    rw [if_pos since, if_pos since]
    exact ⟨rfl, rfl⟩

theorem verdict_failed (failure : p.lastDialFailureUnix = some f) (last : later (some f) p.lastDialSuccessUnix = true)
    (now : UInt64) :
    p.dialRank now = (if saturatingSub now f ≥ p.failureBackoffSecs then 1 else if p.consecutiveFailures ≥ 3 then 3 else 2) ∧
      p.isRecentlyUnreachable now = decide (saturatingSub now f < p.failureBackoffSecs) := by
  have since : p.lastDialSuccessUnix.any (fun s => decide (s ≥ f)) = false := by
    cases success : p.lastDialSuccessUnix with
    | none => rfl
    | some s =>
      rw [success, later_some] at last
      rw [Option.any_some, decide_eq_false_iff_not, ge_iff_le, UInt64.le_iff_toNat_le]
      omega
  unfold Peer.dialRank Peer.isRecentlyUnreachable
  rw [failure]
  cases success : p.lastDialSuccessUnix with
  | none => exact ⟨rfl, rfl⟩
  | some s =>
    rw [success] at since
    dsimp only
    rw [since]
    exact ⟨rfl, rfl⟩

theorem failureBackoffSecs_eq (p : Peer) : p.failureBackoffSecs =
    if p.consecutiveFailures.toNat = 0 then 60 else if p.consecutiveFailures.toNat = 1 then 120
    else if p.consecutiveFailures.toNat = 2 then 240 else 300 := by
  unfold Peer.failureBackoffSecs recentFailureSecs
  generalize p.consecutiveFailures.toNat = n
  match n with
  | 0 => rfl
  | 1 => rfl
  | 2 => rfl
  | n + 3 =>
    rw [Nat.min_eq_right (by omega : 3 ≤ n + 3)]
    rfl

theorem merge_success (old peer : Peer) : (merge old peer).lastDialSuccessUnix =
    if later peer.lastDialSuccessUnix old.lastDialSuccessUnix then peer.lastDialSuccessUnix else old.lastDialSuccessUnix := by
  have apart : ∀ e, (noteFailure e peer).lastDialSuccessUnix = e.lastDialSuccessUnix := fun e => by
    unfold noteFailure
    split <;> rfl
  rw [merge, apart]
  unfold noteSuccess
  split <;> rfl

theorem noteSuccess_failure (e peer : Peer) : (noteSuccess e peer).lastDialFailureUnix = e.lastDialFailureUnix := by
  unfold noteSuccess
  split <;> rfl

theorem merge_failure (old peer : Peer) : (merge old peer).lastDialFailureUnix =
    if later peer.lastDialFailureUnix old.lastDialFailureUnix then peer.lastDialFailureUnix else old.lastDialFailureUnix := by
  unfold merge noteFailure
  dsimp only
  rw [noteSuccess_failure]
  split
  · rfl
  · exact noteSuccess_failure ..

theorem merge_failures (old : Peer) {peer : Peer} (kept : later peer.lastDialFailureUnix old.lastDialFailureUnix = false) :
    (merge old peer).consecutiveFailures =
      if later peer.lastDialSuccessUnix old.lastDialSuccessUnix then 0 else old.consecutiveFailures := by
  unfold merge noteFailure
  dsimp only
  rw [noteSuccess_failure, if_neg (by simp [kept])]
  unfold noteSuccess
  split <;> rfl

def Stale (old peer : Peer) : Prop :=
  later peer.lastDialSuccessUnix old.latestDial = false ∧ later peer.lastDialFailureUnix old.latestDial = false

/-- The last dial known failed; the record tells of a success before it, or in the same second, of which nothing was
known; and the failures counted made a difference. -/
def Unsettles (old peer : Peer) : Prop :=
  ∃ f, old.lastDialFailureUnix = some f ∧ later (some f) old.lastDialSuccessUnix = true ∧
    ∃ s, peer.lastDialSuccessUnix = some s ∧ later (some s) old.lastDialSuccessUnix = true ∧
      (s = f ∨ 3 ≤ old.consecutiveFailures.toNat ∨ (1 ≤ old.consecutiveFailures.toNat ∧ f.toNat + 60 < 2 ^ 64))

theorem sameVerdict_of_good (success : old.lastDialSuccessUnix = some s)
    (older : later old.lastDialFailureUnix (some s) = false) (stale : Stale old peer) :
    SameVerdict old (merge old peer) := by
  have latest : old.latestDial = some s := by
    rw [Peer.latestDial, success, older]
    rfl
  rw [Stale, latest] at stale
  have success' : (merge old peer).lastDialSuccessUnix = some s := by
    rw [merge_success, success, stale.1]
    rfl
  have older' : later (merge old peer).lastDialFailureUnix (some s) = false := by
    rw [merge_failure]
    split
    · exact stale.2
    · exact older
  intro now _
  obtain ⟨rank, reachable⟩ := verdict_good success older now
  obtain ⟨rank', reachable'⟩ := verdict_good success' older' now
  exact ⟨rank'.trans rank.symm, reachable'.trans reachable.symm⟩

theorem sameVerdict_of_unknown (success : old.lastDialSuccessUnix = none) (failure : old.lastDialFailureUnix = none)
    (stale : Stale old peer) : SameVerdict old (merge old peer) := by
  have latest : old.latestDial = none := by
    rw [Peer.latestDial, success, failure]
    rfl
  rw [Stale, latest] at stale
  have success' : (merge old peer).lastDialSuccessUnix = none := by
    rw [merge_success, success, stale.1]
    rfl
  have failure' : (merge old peer).lastDialFailureUnix = none := by
    rw [merge_failure, failure, stale.2]
    rfl
  intro now _
  simp only [Peer.dialRank, Peer.isRecentlyUnreachable, success, failure, success', failure', and_self]

theorem latestDial_of_failed (failure : old.lastDialFailureUnix = some f)
    (last : later (some f) old.lastDialSuccessUnix = true) : old.latestDial = some f := by
  rw [Peer.latestDial, failure, last]
  rfl

theorem sameVerdict_reset_iff (failure : old.lastDialFailureUnix = some f)
    (last : later (some f) old.lastDialSuccessUnix = true) (failure' : new.lastDialFailureUnix = some f)
    (success' : new.lastDialSuccessUnix = some s) (count : new.consecutiveFailures = 0) (early : s.toNat ≤ f.toNat) :
    SameVerdict old new ↔
      ¬(s = f ∨ 3 ≤ old.consecutiveFailures.toNat ∨ (1 ≤ old.consecutiveFailures.toNat ∧ f.toNat + 60 < 2 ^ 64)) := by
  have latest := latestDial_of_failed failure last
  have window := failureBackoffSecs_eq old
  have window' : new.failureBackoffSecs = 60 := by
    rw [failureBackoffSecs_eq, count]
    rfl
  have many : old.consecutiveFailures ≥ 3 ↔ 3 ≤ old.consecutiveFailures.toNat := by
    rw [ge_iff_le, UInt16.le_iff_toNat_le]
    rfl
  by_cases tie : s = f
  · refine iff_of_false (fun same => ?_) (not_not.mpr (.inl tie))
    subst tie
    obtain ⟨rank, -⟩ := verdict_good success' (by rw [failure', not_later_some]) s
    obtain ⟨old_rank, -⟩ := verdict_failed failure last s
    have := (same s (by rw [latest, not_later_some])).1
    rw [rank, old_rank, saturatingSub, Nat.sub_self] at this
    split_ifs at this window
  · have last' : later (some f) new.lastDialSuccessUnix = true := by
      have apart : s.toNat ≠ f.toNat := fun same => tie (UInt64.toNat_inj.mp same)
      rw [success', later_some]
      omega
    have few : ¬ new.consecutiveFailures ≥ 3 := by
      rw [count]
      decide
    constructor
    · intro same how
      rcases how with tie' | three | ⟨one, room⟩
      · exact tie tie'
      · obtain ⟨rank, -⟩ := verdict_failed failure' last' f
        obtain ⟨old_rank, -⟩ := verdict_failed failure last f
        have := (same f (by rw [latest, not_later_some])).1
        rw [rank, old_rank, saturatingSub, Nat.sub_self, window', if_neg (by decide), if_neg few,
          if_pos (many.mpr three)] at this
        split_ifs at this window <;> omega
      · have sum : (f + 60).toNat = f.toNat + 60 := by
          rw [UInt64.toNat_add]
          exact Nat.mod_eq_of_lt room
        obtain ⟨-, reachable⟩ := verdict_failed failure' last' (f + 60)
        obtain ⟨-, old_reachable⟩ := verdict_failed failure last (f + 60)
        have := (same (f + 60) (by rw [latest, not_later_some, sum]; omega)).2
        rw [reachable, old_reachable, saturatingSub, sum, window', Nat.add_sub_cancel_left, decide_eq_decide] at this
        split_ifs at window <;> omega
    · intro fine now after
      rw [latest, not_later_some] at after
      have range := now.toNat_lt
      obtain ⟨rank, reachable⟩ := verdict_failed failure' last' now
      obtain ⟨old_rank, old_reachable⟩ := verdict_failed failure last now
      have old_few : ¬ old.consecutiveFailures ≥ 3 := by
        rw [many]
        omega
      rw [rank, old_rank, reachable, old_reachable, window', if_neg few, if_neg old_few, saturatingSub, decide_eq_decide]
      by_cases zero : old.consecutiveFailures.toNat = 0
      · rw [if_pos zero] at window
        rw [window]
        exact ⟨rfl, Iff.rfl⟩
      · -- no clock reaches the end of the window
        have open_ : now.toNat - f.toNat < 60 := by omega
        have wider : 60 ≤ old.failureBackoffSecs := by
          split_ifs at window <;> omega
        rw [if_neg (by omega), if_neg (by omega)]
        exact ⟨rfl, by omega⟩

theorem sameVerdict_of_failed_iff (failure : old.lastDialFailureUnix = some f)
    (last : later (some f) old.lastDialSuccessUnix = true) (stale : Stale old peer) :
    SameVerdict old (merge old peer) ↔ ¬ Unsettles old peer := by
  rw [Stale, latestDial_of_failed failure last] at stale
  have kept : later peer.lastDialFailureUnix old.lastDialFailureUnix = false := by
    rw [failure]
    exact stale.2
  have failure' : (merge old peer).lastDialFailureUnix = some f := by
    rw [merge_failure, kept]
    exact failure
  cases found : later peer.lastDialSuccessUnix old.lastDialSuccessUnix with
  | false =>
    -- nothing is learned
    have same : (merge old peer).lastDialSuccessUnix = old.lastDialSuccessUnix := by
      rw [merge_success, found]
      rfl
    have count : (merge old peer).consecutiveFailures = old.consecutiveFailures := by
      rw [merge_failures old kept, found]
      rfl
    refine iff_of_true (fun now _ => ?_) fun ⟨_, _, _, s, success, after, _⟩ => ?_
    · obtain ⟨rank, reachable⟩ := verdict_failed failure last now
      obtain ⟨rank', reachable'⟩ := verdict_failed failure' (same ▸ last) now
      rw [rank, reachable, rank', reachable', Peer.failureBackoffSecs, Peer.failureBackoffSecs, count]
      exact ⟨rfl, rfl⟩
    · rw [success, after] at found
      cases found
  | true =>
    obtain ⟨s, success⟩ : ∃ s, peer.lastDialSuccessUnix = some s := by
      cases none_ : peer.lastDialSuccessUnix with
      | none =>
        rw [none_] at found
        cases found
      | some s => exact ⟨s, rfl⟩
    have success' : (merge old peer).lastDialSuccessUnix = some s := by
      rw [merge_success, found, success]
      rfl
    have count : (merge old peer).consecutiveFailures = 0 := by
      rw [merge_failures old kept, found]
      rfl
    have unsettles : Unsettles old peer ↔
        s = f ∨ 3 ≤ old.consecutiveFailures.toNat ∨ (1 ≤ old.consecutiveFailures.toNat ∧ f.toNat + 60 < 2 ^ 64) := by
      constructor
      · rintro ⟨f', failure'', -, s', success'', -, how⟩
        obtain rfl : s' = s := Option.some.inj (success''.symm.trans success)
        obtain rfl : f' = f := Option.some.inj (failure''.symm.trans failure)
        exact how
      · exact fun how => ⟨f, failure, last, s, success, success ▸ found, how⟩
    rw [unsettles]
    have early : s.toNat ≤ f.toNat := by
      rw [success, not_later_some] at stale
      exact stale.1
    exact sameVerdict_reset_iff failure last failure' success' count early

theorem sameVerdict_merge_iff (stale : Stale old peer) : SameVerdict old (merge old peer) ↔ ¬ Unsettles old peer := by
  cases last : later old.lastDialFailureUnix old.lastDialSuccessUnix with
  | true =>
    cases failure : old.lastDialFailureUnix with
    | none =>
      rw [failure] at last
      cases last
    | some f => exact sameVerdict_of_failed_iff failure (failure ▸ last) stale
  | false =>
    have settled : ¬ Unsettles old peer := by
      rintro ⟨f, failure, after, -⟩
      rw [failure, after] at last
      cases last
    refine iff_of_true ?_ settled
    cases success : old.lastDialSuccessUnix with
    | some s => exact sameVerdict_of_good success (success ▸ last) stale
    | none =>
      cases failure : old.lastDialFailureUnix with
      | none => exact sameVerdict_of_unknown success failure stale
      | some f =>
        rw [success, failure] at last
        cases last

theorem sortDedup_eq_nil {underlays : List String} : sortDedup underlays = [] ↔ underlays = [] := by
  unfold sortDedup
  rw [List.destutter_eq_nil, List.eq_nil_iff_length_eq_zero, List.length_mergeSort, List.length_eq_zero_iff]

theorem lookup_upsert {host : Host} {store : PeerStore} (stored : store.lookup (host.toLowercase peer.overlay) = some old) :
    ((¬ ∃ u ∈ peer.underlays, isDialableStr host u = true) → store.upsert host peer = store) ∧
      ((∃ u ∈ peer.underlays, isDialableStr host u = true) →
        (store.upsert host peer).lookup (host.toLowercase peer.overlay) =
          some (merge old { peer with underlays := sortDedup (peer.underlays.filter (isDialableStr host)) })) := by
  have usable : sortDedup (peer.underlays.filter (isDialableStr host)) = [] ↔
      ¬ ∃ u ∈ peer.underlays, isDialableStr host u = true := by
    rw [sortDedup_eq_nil, List.filter_eq_nil_iff]
    push Not
    rfl
  unfold PeerStore.upsert
  dsimp only
  constructor
  · intro none_
    rw [if_pos (usable.mpr none_)]
  · intro some_
    rw [if_neg (fun none_ => usable.mp none_ some_), stored]
    exact AList.lookup_insert store

theorem upsert_keeps_newer_iff (host : Host) (store : PeerStore) (old peer : Peer)
    (stored : store.lookup (host.toLowercase peer.overlay) = some old) (stale : Stale old peer) :
    (∃ new, (store.upsert host peer).lookup (host.toLowercase peer.overlay) = some new ∧ SameVerdict old new) ↔
      ¬((∃ u ∈ peer.underlays, isDialableStr host u = true) ∧ Unsettles old peer) := by
  obtain ⟨dropped, merged⟩ := lookup_upsert stored
  by_cases some_ : ∃ u ∈ peer.underlays, isDialableStr host u = true
  · rw [merged some_]
    have verdict := @sameVerdict_merge_iff old
      { peer with underlays := sortDedup (peer.underlays.filter (isDialableStr host)) } stale
    constructor
    · rintro ⟨_, ⟨⟩, same⟩ ⟨-, unsettles⟩
      exact verdict.mp same unsettles
    · exact fun fine => ⟨_, rfl, verdict.mpr fun unsettles => fine ⟨some_, unsettles⟩⟩
  · rw [dropped some_, stored]
    exact iff_of_true ⟨old, rfl, fun _ _ => ⟨rfl, rfl⟩⟩ fun both => some_ both.1

def struckPeer : Peer :=
  { overlay := "aa", underlays := ["/ip4/1.2.3.4/tcp/1634"], lastDialFailureUnix := some 100, consecutiveFailures := 3 }

def olderRecord : Peer := { overlay := "aa", underlays := ["/ip4/1.2.3.4/tcp/1634"], lastDialSuccessUnix := some 50 }

def plainHost : Host :=
  { toLowercase := fun s => String.ofList (s.toList.map Char.toLower), parseIpv4 := fun _ => none, wasm := false }

def struckStore : PeerStore := AList.insert "aa" struckPeer ∅

theorem upsert_keeps_newer_gossip :
    ∃ new, (struckStore.upsert plainHost { olderRecord with lastDialSuccessUnix := none }).lookup "aa" = some new ∧
      SameVerdict struckPeer new :=
  (upsert_keeps_newer_iff plainHost struckStore struckPeer { olderRecord with lastDialSuccessUnix := none }
    rfl ⟨rfl, rfl⟩).mpr fun ⟨_, _, _, _, _, none_, _⟩ => nomatch none_

theorem upsert_forgets_failures :
    struckStore.lookup (plainHost.toLowercase olderRecord.overlay) = some struckPeer ∧ Stale struckPeer olderRecord ∧
      struckPeer.dialRank 100 = 3 ∧ struckPeer.isRecentlyUnreachable 200 = true ∧
      ∃ new, (struckStore.upsert plainHost olderRecord).lookup "aa" = some new ∧
        new.dialRank 100 = 2 ∧ new.isRecentlyUnreachable 200 = false := by
  have stored : struckStore.lookup (plainHost.toLowercase olderRecord.overlay) = some struckPeer := rfl
  have usable : ∃ u ∈ olderRecord.underlays, isDialableStr plainHost u = true := by decide
  exact ⟨stored, ⟨rfl, rfl⟩, rfl, rfl, _, (lookup_upsert stored).2 usable, rfl, rfl⟩

end

end Hoverfly.Peers
