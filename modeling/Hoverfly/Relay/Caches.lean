import Hoverfly.Lib.Bounded
import Hoverfly.Relay.Dedup
import Hoverfly.Relay.Pay

/-! The relay's bounded caches: chequebook states, deployments, batch owners and recent acks.
Times and lifetimes are in nanoseconds. -/
namespace Hoverfly.Relay
open Lib

def nanos : Nat := 1000000000
def stateTtl : Nat := 30 * nanos
def deployedOkTtl : Nat := 86400 * nanos
def deployedBadTtl : Nat := 600 * nanos
def ownerOkTtlSecs : Nat := 1800
def ownerBadTtlSecs : Nat := 300

inductive OwnerLookup where
  | owner (addr : EthAddr) (remaining : Nat)
  | rejected (why : String)

def young {V : Type} (ttl : V → Nat) (now : Nat) (entry : V × Nat) : Option V :=
  if now - entry.2 < ttl entry.1 then some entry.1 else none

def StateCache := Bounded EthAddr (ChequebookState × Nat)

namespace StateCache

def new (cap : Nat) : StateCache := { cap := max cap 1 }

def get (c : StateCache) (now : Nat) (k : EthAddr) : Option ChequebookState :=
  (c.map.lookup k).bind (young (fun _ => stateTtl) now)

def insert (c : StateCache) (now : Nat) (k : EthAddr) (v : ChequebookState) : StateCache := Bounded.insert c k (v, now)

def remove (c : StateCache) (k : EthAddr) : StateCache := Bounded.remove c k

def call (c : StateCache) : Call EthAddr (ChequebookState × Nat) → StateCache
  | .insert k (v, now) => c.insert now k v
  | .remove k => c.remove k

end StateCache

def DeployedCache := Bounded EthAddr (Bool × Nat)

namespace DeployedCache

def new (cap : Nat) : DeployedCache := { cap := max cap 1 }

def ttl (v : Bool) : Nat := if v then deployedOkTtl else deployedBadTtl

def get (c : DeployedCache) (now : Nat) (k : EthAddr) : Option Bool :=
  (c.map.lookup k).bind (young ttl now)

def insert (c : DeployedCache) (now : Nat) (k : EthAddr) (v : Bool) : DeployedCache := Bounded.insert c k (v, now)

end DeployedCache

def OwnerCache := Bounded String (OwnerLookup × Nat)

namespace OwnerCache

def new (cap : Nat) : OwnerCache := { cap }

def ttl : OwnerLookup → Nat
  | .owner .. => ownerOkTtlSecs * nanos
  | .rejected _ => ownerBadTtlSecs * nanos

def get (c : OwnerCache) (now : Nat) (batchIdHex : String) : Option OwnerLookup :=
  (c.map.lookup batchIdHex).bind (young ttl now)

def insert (c : OwnerCache) (now : Nat) (batchIdHex : String) (entry : OwnerLookup) : OwnerCache :=
  Bounded.insert c batchIdHex (entry, now)

end OwnerCache

namespace RecentAcks

def cache (r : RecentAcks) : Bounded (Bytes 32 × Bytes 32) Nat := ⟨r.seen, r.order, r.cap⟩

theorem evict_eq (cap : Nat) (order : List (Bytes 32 × Bytes 32)) (seen : AList (fun _ : Bytes 32 × Bytes 32 => Nat)) :
    evict cap seen order = Bounded.evict cap seen order := by
  induction order generalizing seen with
  | nil => rfl
  | cons old rest ih => rw [evict, Bounded.evict, ih]

theorem cache_insert (r : RecentAcks) (now : Nat) (addr batchId : Bytes 32) :
    (r.insert now addr batchId).cache = r.cache.insert (addr, batchId) now := by
  simp only [cache, insert, Bounded.insert, evict_eq]
  rfl

end RecentAcks

def inserts {K V : Type} (entries : List (K × V)) : List (Call K V) := entries.map fun e => .insert e.1 e.2

theorem kept_inserts {K V C : Type} [DecidableEq K] {cap : Nat} (view : C → Bounded K V) (insert : C → K × V → C)
    (same : ∀ c e, view (insert c e) = (view c).insert e.1 e.2) {c : C} (start : view c = ⟨∅, [], cap⟩)
    (entries : List (K × V)) :
    (view (run insert c entries)).Kept cap (History.after (view c) {} (inserts entries)) := by
  have runs : ∀ c, view (run insert c entries) = run Bounded.call (view c) (inserts entries) := by
    induction entries with
    | nil => exact fun c => rfl
    | cons e rest ih =>
      intro c
      rw [run_cons, ih, same]
      rfl
  rw [runs, start]
  exact Bounded.kept_run cap (inserts entries)

theorem latest_of_young {K V : Type} [DecidableEq K] {cap now : Nat} {c : Bounded K (V × Nat)}
    {h : History K (V × Nat)} (kept : c.Kept cap h) {ttl : V → Nat} {k : K} {v : V}
    (got : (c.map.lookup k).bind (young ttl now) = some v) : ∃ t, h.latest k = some (v, t) ∧ now - t < ttl v := by
  obtain ⟨⟨u, t⟩, found, fresh⟩ := Option.bind_eq_some_iff.mp got
  unfold young at fresh
  split at fresh
  next within =>
    cases fresh
    exact ⟨t, kept.latest k _ found, within⟩
  next => cases fresh

theorem caches_consistent :
    (∀ (cap : Nat) (calls : List (Call EthAddr (ChequebookState × Nat))),
      let c := run StateCache.call (.new cap) calls
      let h := History.after (StateCache.new cap) {} calls
      Bounded.Kept (max cap 1) c h ∧
        ∀ now k v, c.get now k = some v → ∃ t, h.latest k = some (v, t) ∧ now - t < stateTtl) ∧
    (∀ (cap : Nat) (entries : List (EthAddr × Bool × Nat)),
      let c := run (fun c e => DeployedCache.insert c e.2.2 e.1 e.2.1) (.new cap) entries
      let h := History.after (DeployedCache.new cap) {} (inserts entries)
      Bounded.Kept (max cap 1) c h ∧
        ∀ now k v, c.get now k = some v → ∃ t, h.latest k = some (v, t) ∧ now - t < DeployedCache.ttl v) ∧
    (∀ (cap : Nat) (entries : List (String × OwnerLookup × Nat)),
      let c := run (fun c e => OwnerCache.insert c e.2.2 e.1 e.2.1) (.new cap) entries
      let h := History.after (OwnerCache.new cap) {} (inserts entries)
      Bounded.Kept cap c h ∧
        ∀ now k v, c.get now k = some v → ∃ t, h.latest k = some (v, t) ∧ now - t < OwnerCache.ttl v) ∧
    ∀ (cap ttl : Nat) (entries : List ((Bytes 32 × Bytes 32) × Nat)),
      let r := run (fun (r : RecentAcks) e => r.insert e.2 e.1.1 e.1.2) { cap, ttl } entries
      let h := History.after (RecentAcks.cache { cap, ttl }) {} (inserts entries)
      Bounded.Kept cap r.cache h ∧ ∀ now addr batchId, r.contains now addr batchId = true →
        ∃ t, h.latest (addr, batchId) = some t ∧ now - t < ttl := by
  refine ⟨fun cap calls => ?_, fun cap entries => ?_, fun cap entries => ?_, fun cap ttl entries => ?_⟩
  · have same : StateCache.call = Bounded.call := by
      funext c call
      cases call <;> rfl
    rw [same]
    have kept := Bounded.kept_run (max cap 1) calls
    exact ⟨kept, fun now k v => latest_of_young kept⟩
  · have kept := kept_inserts (fun c : DeployedCache => c) (fun c e => c.insert e.2.2 e.1 e.2.1) (fun _ _ => rfl)
      (c := .new cap) rfl entries
    exact ⟨kept, fun now k v => latest_of_young kept⟩
  · have kept := kept_inserts (fun c : OwnerCache => c) (fun c e => c.insert e.2.2 e.1 e.2.1) (fun _ _ => rfl)
      (c := .new cap) rfl entries
    exact ⟨kept, fun now k v => latest_of_young kept⟩
  · have kept := kept_inserts RecentAcks.cache (fun r e => r.insert e.2 e.1.1 e.1.2) (fun _ _ => RecentAcks.cache_insert ..)
      (c := { cap, ttl }) rfl entries
    refine ⟨kept, fun now addr batchId hit => ?_⟩
    obtain ⟨t, found, within⟩ := RecentAcks.found_of_contains hit
    have fixed := run_invariant (fun r : RecentAcks => r.ttl = ttl) (fun r e => r.insert e.2 e.1.1 e.1.2)
      (fun _ _ same => same) { cap, ttl } entries rfl
    exact ⟨t, kept.latest _ _ found, fixed ▸ within⟩

end Hoverfly.Relay
