import Hoverfly.Erasure.Level
import Hoverfly.Lib.Run
import Hoverfly.Peers.Store
import Mathlib.Data.Stream.Init

/-! `fetch_wire_inner`: one chunk is asked of many peers, a bounded number at a time. Who puts the attempt off waits
again, who fails is left alone for a minute. Each pass of the loop takes a `Turn` of its surroundings; instants are in
milliseconds. -/
namespace Hoverfly.Fetch
open Lib Peers

abbrev Addr := Bytes 32

def skiplistDur : Nat := 60000
def peerScoreMax : Int := 4
def peerScoreMin : Int := -3

inductive Failure where
  | retrieval
  | timeout
  | dialFailed
  | other

inductive Reply where
  | delivery (data : List UInt8)
  | semaphoreClosed
  | dialTooSoon
  | connectionClosed
  | failed (kind : Failure) (shown : String)

inductive AttemptOutcome where
  | got (wire : List UInt8)
  | deferred
  | failed (e : String)

structure NetworkedStore where
  maxRetries : Nat
  concurrency : Nat
  cache : AList (fun _ : Addr => List UInt8) := ∅
  peerScores : AList (fun _ : String => Int) := ∅

namespace NetworkedStore

def score (s : NetworkedStore) (overlay : String) : Int := (s.peerScores.lookup overlay).getD 0

def noteResponse (s : NetworkedStore) (overlay : String) : NetworkedStore :=
  { s with peerScores := s.peerScores.insert overlay (min (max (s.score overlay + 2) 1) peerScoreMax) }

def noteTimeout (s : NetworkedStore) (overlay : String) : NetworkedStore :=
  { s with peerScores := s.peerScores.insert overlay (max (s.score overlay - 1) peerScoreMin) }

def keep (s : NetworkedStore) (address : Addr) (wire : List UInt8) : NetworkedStore :=
  { s with cache := s.cache.insert address wire }

end NetworkedStore

structure Net where
  host : Host
  /-- Whether a text reads as a multiaddress. -/
  parses : String → Bool
  bmt : Nat → List UInt8 → Addr
  /-- The address of bytes that are a single-owner chunk with a good signature. -/
  socAddress : List UInt8 → Option Addr

namespace Net

def firstDialableUnderlay (net : Net) (p : Peer) : Option String :=
  ((p.underlays.filter isWs).find? net.parses).or
    (if net.host.wasm then none
    else (p.underlays.filter fun u => containsText u "/tcp/" && !isWs u).find? net.parses)

def validateDelivery (net : Net) (data : List UInt8) (address : Addr) : Bool :=
  Erasure.wireAddress net.bmt data = some address || net.socAddress data = some address

def key (net : Net) (p : Peer) : String := net.host.toLowercase p.overlay

def tryPeer (net : Net) (s : NetworkedStore) (address : Addr) (p : Peer) (reply : Reply) :
    NetworkedStore × AttemptOutcome :=
  if (net.firstDialableUnderlay p).isNone then (s, .failed "no dialable underlay")
  else
    match reply with
    | .delivery data =>
      (s.noteResponse (net.key p),
        if net.validateDelivery data address then .got data else .failed "address mismatch")
    | .semaphoreClosed => (s, .deferred)
    | .dialTooSoon => (s, .deferred)
    | .connectionClosed => (s, .deferred)
    | .failed .retrieval e => (s.noteResponse (net.key p), .failed e)
    | .failed .timeout e => (s.noteTimeout (net.key p), .failed e)
    | .failed .dialFailed e => (s.noteTimeout (net.key p), .failed e)
    | .failed .other e => (s, .failed e)

def reach (net : Net) (s : NetworkedStore) (now : UInt64) (p : Peer) : Nat :=
  let score := s.score (net.key p)
  if (net.firstDialableUnderlay p).isNone then 4
  else if score > 0 then 0
  else if score < 0 then 3
  else if p.isRecentlyUnreachable now then 2
  else 1

def forwarder (p : Peer) : Nat :=
  match p.fullNode with
  | some true => 0
  | none => 1
  | some false => 2

/-- The peers to ask; `near` is what `PeerStore::closest` gives. -/
def candidates (net : Net) (s : NetworkedStore) (now : UInt64) (near : List Peer) : List Peer :=
  let sorted := near.mergeSort fun p q =>
    let a := net.reach s now p
    let b := net.reach s now q
    a < b || (a == b && forwarder p ≤ forwarder q)
  sorted.take (if s.maxRetries = 0 then sorted.length else min s.maxRetries sorted.length)

end Net

/-- One pass of the loop: the clock at its head, how late its sleep ends, which attempt ends, with what and when. -/
structure Turn where
  now : Nat
  late : Nat
  pick : Nat
  reply : Reply
  ended : Nat

structure Race where
  /-- `deque` -/
  waiting : List Peer
  inflight : List Peer := []
  skiplist : AList (fun _ : String => Nat) := ∅
  lastErr : String := "no peers tried"
  failedAttempts : Nat := 0
  consecutiveDeferrals : Nat := 0

inductive Flow where
  | again (s : NetworkedStore) (r : Race)
  | found (s : NetworkedStore) (wire : List UInt8)
  | spent (s : NetworkedStore) (r : Race)

def Race.seed (r : Race) (n : Nat) : Race :=
  { r with inflight := r.inflight ++ r.waiting.take n, waiting := r.waiting.drop n }

section
variable (net : Net) (address : Addr) (all : List Peer) (width : Nat)

/-- `none` is the end of the loop. -/
def Race.refill (t : Turn) (r : Race) : Option Race :=
  if r.inflight = [] ∧ r.waiting = [] then
    let live := retain id (fun expiry => t.now < expiry) r.skiplist
    match (live.entries.map (·.2)).min? with
    | none => none
    | some earliest =>
      let woken := max t.now earliest + t.late
      let skiplist := retain id (fun expiry => woken < expiry) live
      let r := Race.seed { r with skiplist, waiting := all.filter fun p => net.key p ∉ skiplist } width
      if r.inflight = [] then none else some r
  else some r

def cycleThreshold : Nat := satAdd 64 (satAdd 64 all.length width) 1

def Race.putOff (r : Race) (p : Peer) : Race :=
  let n := satAdd 64 r.consecutiveDeferrals 1
  -- the loop sleeps before it starts to count again
  { r with waiting := r.waiting ++ [p], consecutiveDeferrals := if n ≥ cycleThreshold all width then 0 else n }

def Race.skip (r : Race) (p : Peer) (e : String) (ended : Nat) : Race :=
  { r with
    failedAttempts := satAdd 64 r.failedAttempts 1
    lastErr := e
    consecutiveDeferrals := 0
    skiplist := r.skiplist.insert (net.key p) (ended + skiplistDur) }

def pass (s : NetworkedStore) (r : Race) (t : Turn) : Flow :=
  match r.refill net all width t with
  | none => .spent s r
  | some r =>
    let i := t.pick % r.inflight.length
    match r.inflight[i]? with
    | none => .again s r
    | some p =>
      let r := { r with inflight := r.inflight.eraseIdx i }
      match net.tryPeer s address p t.reply with
      | (s, .got wire) => .found (s.keep address wire) wire
      | (s, .deferred) => .again s ((r.putOff all width p).seed 1)
      | (s, .failed e) => .again s ((r.skip net p e t.ended).seed 1)

def loop : Nat → NetworkedStore → Race → Stream' Turn → Flow
  | 0, s, r, _ => .again s r
  | fuel + 1, s, r, env =>
    match pass net address all width s r env.head with
    | .again s r => loop fuel s r env.tail
    | .found s wire => .found s wire
    | .spent s r => .spent s r

end

def start (all : List Peer) (width : Nat) : Race := Race.seed { waiting := all } width

/-- `stored` is what the browser's chunk store has under the address; `none` is a fetch that has not ended. -/
def fetchWireInner (net : Net) (s : NetworkedStore) (address : Addr) (stored : Option (List UInt8)) (near : List Peer)
    (now : UInt64) (fuel : Nat) (env : Stream' Turn) : NetworkedStore × Option (Except String (List UInt8)) :=
  match s.cache.lookup address with
  | some wire => (s, some (.ok wire))
  | none =>
    match stored.filter fun wire => net.host.wasm && net.validateDelivery wire address with
    | some wire => (s.keep address wire, some (.ok wire))
    | none =>
      if near = [] then (s, some (.error "no peers in peerlist"))
      else
        let all := net.candidates s now near
        let width := max s.concurrency 1
        match loop net address all width fuel s (start all width) env with
        | .again s _ => (s, none)
        | .found s wire => (s, some (.ok wire))
        | .spent s r =>
          (s, some (.error s!"all peers failed ({r.failedAttempts}/{all.length} attempted): {r.lastErr}"))

section
variable {net : Net} {address : Addr} {all : List Peer} {width last : Nat}

/-- Each candidate is asked, or waits, or is on the skiplist; and when nobody is left to ask, the last one to fail is
on it from then on. -/
structure Placed (net : Net) (all : List Peer) (width last : Nat) (r : Race) : Prop where
  room : 0 < width
  distinct : (all.map net.key).Nodup
  once : ((r.inflight ++ r.waiting).map net.key).Nodup
  known : ∀ p ∈ r.inflight ++ r.waiting, p ∈ all
  parted : ∀ p ∈ all, p ∈ r.inflight ++ r.waiting ↔ net.key p ∉ r.skiplist
  listed : ∀ k ∈ r.skiplist, ∃ p ∈ all, net.key p = k
  paced : r.consecutiveDeferrals < cycleThreshold all width
  recent : r.inflight ++ r.waiting = [] → ∃ k, r.skiplist.lookup k = some (last + skiplistDur)

/-- Nor is a place left empty while somebody waits. -/
structure Balanced (net : Net) (all : List Peer) (width last : Nat) (r : Race) : Prop extends
    Placed net all width last r where
  bound : r.inflight.length ≤ width
  busy : r.waiting ≠ [] → r.inflight.length = width

theorem threshold_pos : 0 < cycleThreshold all width := by
  unfold cycleThreshold satAdd
  omega

theorem Placed.seed {r : Race} {n : Nat} (h : Placed net all width last r) (fits : r.inflight.length + n ≤ width)
    (full : n < r.waiting.length → r.inflight.length + n = width) : Balanced net all width last (r.seed n) := by
  have same : (r.seed n).inflight ++ (r.seed n).waiting = r.inflight ++ r.waiting := by
    rw [Race.seed, List.append_assoc, List.take_append_drop]
  have size : (r.seed n).inflight.length = r.inflight.length + min n r.waiting.length := by
    rw [Race.seed, List.length_append, List.length_take]
  refine ⟨⟨h.room, h.distinct, same ▸ h.once, same ▸ h.known, ?_, h.listed, h.paced, same ▸ h.recent⟩, by omega,
    fun left => ?_⟩
  · intro p member
    rw [same]
    exact h.parted p member
  · have longer : 0 < (r.waiting.drop n).length := List.length_pos_iff.mpr left
    rw [List.length_drop] at longer
    have := full (by omega)
    omega

theorem expired_of_min {m : AList (fun _ : String => Nat)} {k : String} {now expiry : Nat}
    (listed : m.lookup k = some expiry)
    (none_ : ((retain id (fun expiry => now < expiry) m).entries.map (·.2)).min? = none) : expiry ≤ now := by
  by_contra ahead
  have alive : (retain id (fun expiry => now < expiry) m).lookup k = some expiry := by
    rw [lookup_retain, listed]
    simpa using ahead
  have there := AList.mem_lookup_iff.mp alive
  rw [List.map_eq_nil_iff.mp (List.min?_eq_none_iff.mp none_)] at there
  cases there

/-- Whoever is due first is no longer skipped once the sleep is over. -/
theorem leaves_of_min {live : AList (fun _ : String => Nat)} {earliest woken : Nat}
    (least : (live.entries.map (·.2)).min? = some earliest) (reached : earliest ≤ woken) :
    ∃ k ∈ live, k ∉ retain id (fun expiry => woken < expiry) live := by
  obtain ⟨entry, member, rfl⟩ := List.mem_map.mp (List.min?_mem least)
  have due : live.lookup entry.1 = some entry.2 := AList.mem_lookup_iff.mpr member
  refine ⟨entry.1, AList.lookup_isSome.mp (Option.isSome_iff_exists.mpr ⟨_, due⟩), ?_⟩
  rw [← AList.lookup_isSome, lookup_retain, due]
  simp [reached]

namespace Balanced
variable {r : Race} {t : Turn}

theorem start (room : 0 < width) (some_ : all ≠ []) (distinct : (all.map net.key).Nodup) :
    Balanced net all width last (start all width) := by
  have placed : Placed net all width last { waiting := all } :=
    ⟨room, distinct, distinct, fun _ => id, fun _ member => iff_of_true member nofun, nofun, threshold_pos,
      fun none_ => absurd none_ some_⟩
  exact placed.seed (Nat.zero_add width).le fun _ => Nat.zero_add width

theorem refill (h : Balanced net all width last r) :
    (r.refill net all width t = none ∧ last + skiplistDur ≤ t.now) ∨
    ∃ r', r.refill net all width t = some r' ∧ r'.inflight ≠ [] ∧ Balanced net all width last r' := by
  unfold Race.refill
  by_cases idle : r.inflight = [] ∧ r.waiting = []
  · rw [if_pos idle]
    obtain ⟨waiting, inflight, skiplist, lastErr, failedAttempts, consecutiveDeferrals⟩ := r
    obtain ⟨rfl, rfl⟩ : inflight = [] ∧ waiting = [] := idle
    dsimp only
    generalize alive : retain id (fun expiry => decide (t.now < expiry)) skiplist = live
    cases least : (live.entries.map (·.2)).min? with
    | none =>
      obtain ⟨k, late⟩ := h.recent rfl
      exact .inl ⟨rfl, expired_of_min late (alive ▸ least)⟩
    | some earliest =>
      have reached : earliest ≤ max t.now earliest + t.late := by omega
      obtain ⟨j, old, out⟩ := leaves_of_min least reached
      dsimp only
      generalize cut : retain id (fun expiry => decide (max t.now earliest + t.late < expiry)) live = after at out
      have sub : ∀ k ∈ live, k ∈ skiplist := fun k kept => mem_of_mem_retain (alive ▸ kept)
      obtain ⟨q, candidate, rfl⟩ := h.listed j (sub j old)
      have ready : ∀ p, p ∈ all.filter (fun p => net.key p ∉ after) ↔ p ∈ all ∧ net.key p ∉ after := by simp
      have back := List.ne_nil_of_mem ((ready q).mpr ⟨candidate, out⟩)
      have placed : Placed net all width last
          ⟨all.filter fun p => net.key p ∉ after, [], after, lastErr, failedAttempts, consecutiveDeferrals⟩ :=
        ⟨h.room, h.distinct, h.distinct.sublist (List.filter_sublist.map _), fun p member => ((ready p).mp member).1,
          fun p member => (ready p).trans (and_iff_right member),
          fun k kept => h.listed k (sub k (mem_of_mem_retain (cut ▸ kept))), h.paced, fun none_ => absurd none_ back⟩
      refine .inr ?_
      split
      · rename_i none_
        rcases List.take_eq_nil_iff.mp none_ with closed | nobody
        · exact absurd closed h.room.ne'
        · exact absurd nobody back
      · rename_i filled
        exact ⟨_, rfl, filled, placed.seed (Nat.zero_add width).le fun _ => Nat.zero_add width⟩
  · rw [if_neg idle]
    refine .inr ⟨r, rfl, fun none_ => ?_, h⟩
    have full := h.busy fun done => idle ⟨none_, done⟩
    rw [none_] at full
    exact h.room.ne full

variable {p : Peer} {i : Nat}

theorem picked (here : r.inflight[i]? = some p) :
    (p :: (r.inflight.eraseIdx i ++ r.waiting)).Perm (r.inflight ++ r.waiting) ∧
      (r.inflight.eraseIdx i).length + 1 = r.inflight.length := by
  obtain ⟨inside, rfl⟩ := List.getElem?_eq_some_iff.mp here
  exact ⟨(List.getElem_cons_eraseIdx_perm inside).append_right _, List.length_eraseIdx_add_one inside⟩

theorem putOff (h : Balanced net all width last r) (here : r.inflight[i]? = some p) (ended : Nat) :
    Balanced net all width ended
      (Race.seed (Race.putOff all width { r with inflight := r.inflight.eraseIdx i } p) 1) := by
  obtain ⟨perm, size⟩ := picked here
  have moved : (r.inflight.eraseIdx i ++ (r.waiting ++ [p])).Perm (r.inflight ++ r.waiting) := by
    rw [← List.append_assoc]
    exact (List.perm_append_singleton ..).trans perm
  have bound := h.bound
  refine Placed.seed ⟨h.room, h.distinct, (moved.map _).nodup_iff.mpr h.once,
    fun q member => h.known q (moved.mem_iff.mp member),
    fun q member => moved.mem_iff.trans (h.parted q member), h.listed, ?_, fun none_ => ?_⟩ ?_ fun longer => ?_
  · dsimp only [Race.putOff]
    split
    · exact threshold_pos
    · omega
  · simp [Race.putOff] at none_
  · dsimp only [Race.putOff]
    omega
  · dsimp only [Race.putOff] at longer ⊢
    rw [List.length_append, List.length_singleton] at longer
    rw [size]
    exact h.busy (List.length_pos_iff.mp (by omega))

theorem skip (h : Balanced net all width last r) (here : r.inflight[i]? = some p) (e : String) (ended : Nat) :
    Balanced net all width ended
      (Race.seed (Race.skip net { r with inflight := r.inflight.eraseIdx i } p e ended) 1) := by
  obtain ⟨perm, size⟩ := picked here
  have bound := h.bound
  obtain ⟨other, once⟩ := List.nodup_cons.mp ((perm.map net.key).nodup_iff.mpr h.once)
  refine Placed.seed ⟨h.room, h.distinct, once, ?_, fun q member => ?_, fun k member => ?_, threshold_pos,
    fun _ => ⟨net.key p, AList.lookup_insert _⟩⟩ ?_ fun longer => ?_
  · exact fun q member => h.known q (perm.subset (List.mem_cons_of_mem _ member))
  · rw [Race.skip, AList.mem_insert, not_or, ← h.parted q member, ← perm.mem_iff, List.mem_cons]
    constructor
    · exact fun rest => ⟨fun same => other (same ▸ List.mem_map_of_mem rest), .inr rest⟩
    · rintro ⟨apart, rfl | rest⟩
      · exact absurd rfl apart
      · exact rest
  · rw [Race.skip, AList.mem_insert] at member
    rcases member with rfl | old
    · exact ⟨p, h.known p (perm.subset (List.mem_cons_self ..)), rfl⟩
    · exact h.listed k old
  · dsimp only [Race.skip]
    omega
  · dsimp only [Race.skip] at longer ⊢
    rw [size]
    exact h.busy (List.length_pos_iff.mp (by omega))

end Balanced

def Serves (net : Net) (address : Addr) (t : Turn) (data : List UInt8) : Prop :=
  t.reply = .delivery data ∧ net.validateDelivery data address = true

def Net.Dials (net : Net) (peers : List Peer) : Prop := ∀ p ∈ peers, (net.firstDialableUnderlay p).isSome

theorem tryPeer_spec (p : Peer) (s : NetworkedStore) (t : Turn) :
    (∃ data, Serves net address t data ∧
      net.tryPeer s address p t.reply = (s.noteResponse (net.key p), .got data)) ∨
    ((net.firstDialableUnderlay p).isSome → ∀ data, ¬Serves net address t data) ∧ ∃ s', s'.cache = s.cache ∧
      (net.tryPeer s address p t.reply = (s', .deferred) ∨
        ∃ e, net.tryPeer s address p t.reply = (s', .failed e)) := by
  unfold Net.tryPeer Serves
  cases net.firstDialableUnderlay p with
  | none => exact .inr ⟨nofun, s, rfl, .inr ⟨_, rfl⟩⟩
  | some underlay =>
    cases t.reply with
    | delivery data =>
      by_cases valid : net.validateDelivery data address = true
      · exact .inl ⟨data, ⟨rfl, valid⟩, by simp [valid]⟩
      · refine .inr ⟨fun _ other served => ?_, s.noteResponse (net.key p), rfl, .inr ⟨"address mismatch", ?_⟩⟩
        · cases served.1
          exact valid served.2
        · simp [valid]
    | semaphoreClosed => exact .inr ⟨nofun, s, rfl, .inl rfl⟩
    | dialTooSoon => exact .inr ⟨nofun, s, rfl, .inl rfl⟩
    | connectionClosed => exact .inr ⟨nofun, s, rfl, .inl rfl⟩
    | failed kind e => cases kind <;> exact .inr ⟨nofun, _, by rfl, .inr ⟨e, rfl⟩⟩

/-- The loop looks at the skiplist within a minute of the failure before. -/
def Brisk (env : Stream' Turn) : Prop := ∀ n, (env.get (n + 1)).now < (env.get n).ended + skiplistDur

variable (net address all width) in
inductive Comes (s : NetworkedStore) (last fuel : Nat) (r : Race) (env : Stream' Turn) : Flow → Prop
  | found {s' data n} (before : n < fuel) (serves : Serves net address (env.get n) data)
      (cache : s'.cache = s.cache.insert address data) : Comes s last fuel r env (.found s' data)
  | again {s' r'} (cache : s'.cache = s.cache) (goes : Balanced net all width last r →
      (∃ last', Balanced net all width last' r') ∧
        (net.Dials all → ∀ n < fuel, ∀ data, ¬Serves net address (env.get n) data)) :
      Comes s last fuel r env (.again s' r')
  | spent {s' r'} (cache : s'.cache = s.cache) (late : Balanced net all width last r → Brisk env →
      last + skiplistDur ≤ env.head.now) : Comes s last fuel r env (.spent s' r')

theorem pass_spec (s : NetworkedStore) (last : Nat) (r : Race) (t : Turn) :
    (∃ s' data, Serves net address t data ∧ pass net address all width s r t = .found s' data ∧
      s'.cache = s.cache.insert address data) ∨
    (∃ s' r', pass net address all width s r t = .again s' r' ∧ s'.cache = s.cache ∧
      (Balanced net all width last r → Balanced net all width t.ended r' ∧
        (net.Dials all → ∀ data, ¬Serves net address t data))) ∨
    (pass net address all width s r t = .spent s r ∧
      (Balanced net all width last r → last + skiplistDur ≤ t.now)) := by
  unfold pass
  cases filled : r.refill net all width t with
  | none =>
    refine .inr (.inr ⟨rfl, fun h => ?_⟩)
    rcases h.refill with ⟨-, late⟩ | ⟨r', some_, -⟩
    · exact late
    · cases filled.symm.trans some_
  | some r₁ =>
    have kept : Balanced net all width last r → r₁.inflight ≠ [] ∧ Balanced net all width last r₁ := by
      intro h
      rcases h.refill with ⟨none_, -⟩ | ⟨r', some_, asked, h'⟩
      · cases filled.symm.trans none_
      · cases filled.symm.trans some_
        exact ⟨asked, h'⟩
    dsimp only
    cases here : r₁.inflight[t.pick % r₁.inflight.length]? with
    | none =>
      refine .inr (.inl ⟨s, r₁, rfl, rfl, fun h => ?_⟩)
      have inside := Nat.mod_lt t.pick (List.length_pos_iff.mpr (kept h).1)
      exact absurd inside (Nat.not_lt.mpr (List.getElem?_eq_none_iff.mp here))
    | some p =>
      have mine : Balanced net all width last r₁ → p ∈ all := fun h =>
        h.known p (List.mem_append_left _ (List.mem_of_getElem? here))
      dsimp only
      rcases @tryPeer_spec net address p s t with ⟨data, serves, got⟩ | ⟨idle, s', cache, put | ⟨e, gone⟩⟩
      · rw [got]
        exact .inl ⟨_, data, serves, rfl, rfl⟩
      · rw [put]
        exact .inr (.inl ⟨s', _, rfl, cache, fun h =>
          ⟨(kept h).2.putOff here t.ended, fun dials => idle (dials p (mine (kept h).2))⟩⟩)
      · rw [gone]
        exact .inr (.inl ⟨s', _, rfl, cache, fun h =>
          ⟨(kept h).2.skip here e t.ended, fun dials => idle (dials p (mine (kept h).2))⟩⟩)

theorem loop_spec (fuel : Nat) (s : NetworkedStore) (last : Nat) (r : Race) (env : Stream' Turn) :
    Comes net address all width s last fuel r env (loop net address all width fuel s r env) := by
  induction fuel generalizing r env s last with
  | zero => exact .again rfl fun h => ⟨⟨last, h⟩, nofun⟩
  | succ fuel ih =>
    unfold loop
    rcases @pass_spec net address all width s last r env.head with
      ⟨s', data, serves, found, cache⟩ | ⟨s', r', again, cache, goes⟩ | ⟨spent, late⟩
    · rw [found]
      exact .found (Nat.succ_pos _) serves cache
    · rw [again]
      have rest := ih s' env.head.ended r' env.tail
      dsimp only
      generalize loop net address all width fuel s' r' env.tail = flow at rest
      cases rest with
      | found before serves kept => exact .found (Nat.succ_lt_succ before) serves (cache ▸ kept)
      | again kept later =>
        refine .again (kept.trans cache) fun h => ⟨(later (goes h).1).1, fun dials n before => ?_⟩
        cases n with
        | zero => exact (goes h).2 dials
        | succ n => exact (later (goes h).1).2 dials n (Nat.lt_of_succ_lt_succ before)
      | spent kept late =>
        -- a minute has gone by since this turn ended
        refine .spent (kept.trans cache) fun h brisk => absurd (late (goes h).1 fun n => brisk (n + 1)) ?_
        exact Nat.not_le.mpr (brisk 0)
    · rw [spent]
      exact .spent rfl fun h _ => late h

/-- At any point of the race each candidate is in one place, who failed is left alone, as many are asked as may be,
and a round of nothing but deferrals ends in a pause. -/
theorem race_parts_candidates (net : Net) (address : Addr) (all : List Peer) (width : Nat) (room : 0 < width)
    (some_ : all ≠ []) (distinct : (all.map net.key).Nodup) (fuel : Nat) (env : Stream' Turn) (s s' : NetworkedStore)
    (r : Race) (running : loop net address all width fuel s (start all width) env = .again s' r) :
    ((r.inflight ++ r.waiting).map net.key).Nodup ∧
    (∀ p ∈ all, p ∈ r.inflight ++ r.waiting ↔ net.key p ∉ r.skiplist) ∧
    r.inflight.length ≤ width ∧ (r.waiting ≠ [] → r.inflight.length = width) ∧
    r.consecutiveDeferrals < cycleThreshold all width := by
  have out := @loop_spec net address all width fuel s 0 (start all width) env
  rw [running] at out
  cases out with
  | again _ goes =>
    obtain ⟨⟨_, h⟩, -⟩ := goes (.start room some_ distinct)
    exact ⟨h.once, h.parted, h.bound, h.busy, h.paced⟩

def plainNet : Net where
  host := ⟨id, fun _ => none, true⟩
  parses _ := true
  bmt _ _ := Bytes.replicate 32 0
  socAddress _ := some (Bytes.replicate 32 1)

def wsPeer (overlay : String) : Peer := { overlay, underlays := ["/ws"] }

/-- One peer times out, the other is dialed too soon and delivers then. -/
def thirdTime : Stream' Turn := fun n =>
  ⟨n, 0, 0, if n = 0 then .failed .timeout "timeout" else if n = 1 then .dialTooSoon else .delivery [], n⟩

def afterTwo : Race := ⟨[], [wsPeer "b"], AList.insert "a" 60000 ∅, "timeout", 1, 1⟩

theorem race_parts_afterTwo : afterTwo.inflight.length ≤ 1 ∧
    (wsPeer "b" ∈ afterTwo.inflight ++ afterTwo.waiting ↔ plainNet.key (wsPeer "b") ∉ afterTwo.skiplist) := by
  obtain ⟨-, parted, bound, -⟩ := race_parts_candidates plainNet (Bytes.replicate 32 1) [wsPeer "a", wsPeer "b"] 1
    (by decide) nofun (by decide) 2 thirdTime ⟨0, 1, ∅, ∅⟩ _ afterTwo rfl
  exact ⟨bound, parted (wsPeer "b") (by simp)⟩

theorem candidates_spec (s : NetworkedStore) (now : UInt64) {near : List Peer} (some_ : near ≠ [])
    (distinct : (near.map net.key).Nodup) :
    net.candidates s now near ≠ [] ∧ ((net.candidates s now near).map net.key).Nodup ∧
      ∀ p ∈ net.candidates s now near, p ∈ near := by
  unfold Net.candidates
  dsimp only
  have perm := near.mergeSort_perm fun p q =>
    decide (net.reach s now p < net.reach s now q) ||
      (net.reach s now p == net.reach s now q && decide (Net.forwarder p ≤ Net.forwarder q))
  generalize near.mergeSort _ = sorted at perm
  have long : 0 < sorted.length := perm.length_eq ▸ List.length_pos_iff.mpr some_
  refine ⟨fun none_ => ?_, ((perm.map _).nodup_iff.mpr distinct).sublist ((List.take_sublist ..).map _),
    fun p member => perm.subset (List.mem_of_mem_take member)⟩
  have short := congrArg List.length none_
  rw [List.length_take, List.length_nil] at short
  split at short <;> omega

/-- Whatever else the peers answer, the fetch goes on until one of them delivers bytes that check out, and that is how
it ends: it never reports that all peers failed. -/
theorem fetch_ends_iff_served (net : Net) (s : NetworkedStore) (address : Addr) (stored : Option (List UInt8))
    (near : List Peer) (now : UInt64) (env : Stream' Turn) (uncached : s.cache.lookup address = none)
    (missed : stored.filter (fun wire => net.host.wasm && net.validateDelivery wire address) = none)
    (listed : near ≠ []) (distinct : (near.map net.key).Nodup) (dials : net.Dials near) (brisk : Brisk env) (fuel : Nat) :
    ((fetchWireInner net s address stored near now fuel env).2.isSome ↔
      ∃ n < fuel, ∃ data, Serves net address (env.get n) data) ∧
    ∀ out, (fetchWireInner net s address stored near now fuel env).2 = some out →
      ∃ data, out = .ok data ∧ net.validateDelivery data address = true := by
  obtain ⟨some_, once, sub⟩ := @candidates_spec net s now near listed distinct
  have ready : Balanced net (net.candidates s now near) (max s.concurrency 1) env.head.now _ :=
    .start (by omega) some_ once
  have comes := @loop_spec net address (net.candidates s now near) (max s.concurrency 1) fuel s env.head.now
    (start (net.candidates s now near) (max s.concurrency 1)) env
  unfold fetchWireInner
  rw [uncached]
  dsimp only
  rw [missed]
  dsimp only
  rw [if_neg listed]
  generalize loop net address _ _ fuel s _ env = flow at comes
  cases comes with
  | found before serves cache =>
    refine ⟨iff_of_true rfl ⟨_, before, _, serves⟩, fun _ same => ?_⟩
    cases same
    exact ⟨_, rfl, serves.2⟩
  | again _ goes =>
    refine ⟨iff_of_false (by simp) ?_, nofun⟩
    rintro ⟨n, before, data, serves⟩
    exact (goes ready).2 (fun p member => dials p (sub p member)) n before data serves
  | spent _ late => exact absurd (late ready brisk) (Nat.not_le.mpr (Nat.lt_add_of_pos_right (by decide)))

theorem fetch_ends_third :
    (fetchWireInner plainNet ⟨0, 1, ∅, ∅⟩ (Bytes.replicate 32 1) none [wsPeer "a", wsPeer "b"] 0 3 thirdTime).2.isSome := by
  have brisk : Brisk thirdTime := by
    intro n
    simp only [thirdTime, Stream'.get, skiplistDur]
    omega
  have dials : plainNet.Dials [wsPeer "a", wsPeer "b"] := by
    unfold Net.Dials
    decide +kernel
  have out := fetch_ends_iff_served plainNet ⟨0, 1, ∅, ∅⟩ (Bytes.replicate 32 1) none [wsPeer "a", wsPeer "b"] 0
    thirdTime rfl rfl nofun (by decide) dials brisk 3
  exact out.1.mpr ⟨2, by decide, [], rfl, by decide +kernel⟩

structure Request where
  address : Addr
  stored : Option (List UInt8)
  near : List Peer
  now : UInt64
  fuel : Nat
  env : Stream' Turn

def Request.fetch (net : Net) (s : NetworkedStore) (q : Request) : NetworkedStore × Option (Except String (List UInt8)) :=
  fetchWireInner net s q.address q.stored q.near q.now q.fuel q.env

def serve (net : Net) (s : NetworkedStore) (q : Request) : NetworkedStore := (q.fetch net s).1

variable (net) in
theorem fetch_cases (s : NetworkedStore) (q : Request) :
    (∃ wire, s.cache.lookup q.address = some wire ∧ q.fetch net s = (s, some (.ok wire))) ∨
    s.cache.lookup q.address = none ∧
      ((∃ wire, net.validateDelivery wire q.address = true ∧ (serve net s q).cache = s.cache.insert q.address wire ∧
          (q.fetch net s).2 = some (.ok wire)) ∨
        (serve net s q).cache = s.cache ∧ ∀ wire, (q.fetch net s).2 ≠ some (.ok wire)) := by
  unfold serve Request.fetch fetchWireInner
  cases s.cache.lookup q.address with
  | some wire => exact .inl ⟨wire, rfl, rfl⟩
  | none =>
    refine .inr ⟨rfl, ?_⟩
    dsimp only
    cases kept : q.stored.filter fun wire => net.host.wasm && net.validateDelivery wire q.address with
    | some wire =>
      have valid := (Option.filter_eq_some_iff.mp kept).2
      exact .inl ⟨wire, (Bool.and_eq_true_iff.mp valid).2, rfl, rfl⟩
    | none =>
      dsimp only
      split
      · exact .inr ⟨rfl, nofun⟩
      · have comes := @loop_spec net q.address (net.candidates s q.now q.near) (max s.concurrency 1) q.fuel s 0
          (start (net.candidates s q.now q.near) (max s.concurrency 1)) q.env
        generalize loop net q.address _ _ q.fuel s _ q.env = flow at comes
        cases comes with
        | found _ serves cache => exact .inl ⟨_, serves.2, cache, rfl⟩
        | again cache _ => exact .inr ⟨cache, nofun⟩
        | spent cache _ => exact .inr ⟨cache, nofun⟩

theorem serve_keeps {s : NetworkedStore} {a : Addr} {wire : List UInt8} (q : Request)
    (held : s.cache.lookup a = some wire) : (serve net s q).cache.lookup a = some wire := by
  rcases fetch_cases net s q with ⟨_, -, hit⟩ | ⟨miss, ⟨new, -, cache, -⟩ | ⟨cache, -⟩⟩
  · rw [serve, hit]
    exact held
  · have other : a ≠ q.address := fun same => by cases held.symm.trans (same ▸ miss)
    rw [cache, AList.lookup_insert_ne other]
    exact held
  · rw [cache]
    exact held

/-- Each cached chunk is one of its address. -/
def Verified (net : Net) (s : NetworkedStore) : Prop :=
  ∀ a wire, s.cache.lookup a = some wire → net.validateDelivery wire a = true

theorem Verified.serve {s : NetworkedStore} (h : Verified net s) (q : Request) : Verified net (serve net s q) := by
  intro a wire held
  rcases fetch_cases net s q with ⟨_, -, hit⟩ | ⟨-, ⟨new, valid, cache, -⟩ | ⟨cache, -⟩⟩
  · rw [Fetch.serve, hit] at held
    exact h a wire held
  · rw [cache] at held
    by_cases same : a = q.address
    · rw [same, AList.lookup_insert] at held
      exact Option.some.inj held ▸ same ▸ valid
    · rw [AList.lookup_insert_ne same] at held
      exact h a wire held
  · rw [cache] at held
    exact h a wire held

/-- Whatever the peers and the browser's store answer, a fetch gives only bytes that check out against the address,
and later fetches of the address give the same bytes, whatever was fetched in between. -/
theorem fetches_verified (net : Net) (s : NetworkedStore) (fresh : s.cache = ∅) (before after : List Request)
    (q q' : Request) (wire : List UInt8) (got : (q.fetch net (run (serve net) s before)).2 = some (.ok wire))
    (same : q'.address = q.address) :
    net.validateDelivery wire q.address = true ∧
      (q'.fetch net (run (serve net) s (before ++ q :: after))).2 = some (.ok wire) := by
  have verified : Verified net (run (serve net) s before) :=
    run_invariant (Verified net) _ (fun _ q h => h.serve q) s before fun a wire held => by
      rw [fresh] at held
      cases held
  rw [run_append, run_cons]
  generalize run (serve net) s before = s₁ at got verified
  have held : (serve net s₁ q).cache.lookup q.address = some wire := by
    rcases fetch_cases net s₁ q with ⟨old, hit, out⟩ | ⟨-, ⟨new, -, cache, out⟩ | ⟨-, no⟩⟩
    · rw [out] at got
      cases got
      exact serve_keeps q hit
    · rw [out] at got
      cases got
      rw [cache, AList.lookup_insert]
    · exact absurd got (no wire)
  refine ⟨verified.serve q _ _ held, ?_⟩
  have later := run_invariant (fun s : NetworkedStore => s.cache.lookup q.address = some wire) (serve net)
    (fun _ q => serve_keeps q) _ after held
  rw [← same] at later
  rcases fetch_cases net _ q' with ⟨old, hit, out⟩ | ⟨miss, -⟩
  · cases hit.symm.trans later
    rw [out]
  · cases miss.symm.trans later

/-- Answered by the browser's store. -/
def atHand : Request := ⟨Bytes.replicate 32 1, some [], [], 0, 0, thirdTime⟩

theorem fetches_verified_atHand :
    ({ atHand with stored := none }.fetch plainNet (run (serve plainNet) ⟨0, 1, ∅, ∅⟩ [atHand])).2 = some (.ok []) := by
  have out := fetches_verified plainNet ⟨0, 1, ∅, ∅⟩ rfl [] [] atHand { atHand with stored := none } []
    (by decide +kernel) rfl
  exact out.2

end

end Hoverfly.Fetch
