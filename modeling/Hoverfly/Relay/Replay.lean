import Mathlib.Data.List.MinMax
import Hoverfly.Lib.Run
import Hoverfly.Relay.Book

/-! Runs of the durable ledger: calls whose writes may fail, and crashes after which
the file is loaded again. A log keeps every cheque for which a credit returned Ok. -/
namespace Hoverfly.Relay
open Lib

structure Accepted where
  account : EthAddr
  chequebook : EthAddr
  cheque : HeldCheque
  amount : Nat

def Accepted.paidBy (account chequebook : EthAddr) (x : Accepted) : Bool :=
  x.account = account ∧ x.chequebook = chequebook

def Accepted.drawnOn (chequebook : EthAddr) (x : Accepted) : Bool := x.chequebook = chequebook

structure Store where
  mem : Ledger
  file : Option OnDisk
  log : List Accepted

inductive Op where
  | reserve (account : EthAddr) (amount cap : Nat)
  | release (account : EthAddr) (amount : Nat)
  | commit (account : EthAddr) (reserved billed : Nat)
  | persist (fault : Option String)
  | credit (account chequebook : EthAddr) (cumulative : Nat) (signature : Bytes 65) (fault : Option String)
  /-- The process dies and comes up again. -/
  | reload (entropy : Bytes 32) (fault : Option String)

namespace Store

def create (path : String) (entropy : Bytes 32) : Store :=
  let fresh := { Ledger.ephemeral entropy with path := some path }
  { mem := fresh, file := some fresh.onDisk, log := [] }

def apply (path : String) (s : Store) : Op → Store
  | .reserve account amount cap => { s with mem := (s.mem.reserve account amount cap).1 }
  | .release account amount => { s with mem := s.mem.release account amount }
  | .commit account reserved billed => { s with mem := s.mem.commit account reserved billed }
  | .persist fault => { s with file := (s.mem.persist fault s.file).1 }
  | .credit account chequebook cumulative signature fault =>
    match Metered.credit s.mem account chequebook cumulative signature fault s.file with
    | (mem, file, .ok amount) =>
      let cheque := { cumulativePlur := cumulative, signature }
      { mem, file, log := s.log ++ [{ account, chequebook, cheque, amount }] }
    | (mem, file, .error _) => { s with mem, file }
  | .reload entropy fault =>
    match Ledger.loadOrCreate path entropy fault s.file with
    | (file, .ok mem) => { s with mem, file }
    | (file, .error _) => { s with file }

/-- The call ends with the memory's state in the file. -/
def saves (s : Store) : Op → Bool
  | .persist fault => fault.isNone
  | .credit account chequebook cumulative signature fault =>
    (Metered.credit s.mem account chequebook cumulative signature fault s.file).2.2.isOk
  | _ => false

def bills (account : EthAddr) : Op → Nat
  | .commit other _ billed => if account = other then billed else 0
  | _ => 0

/-- The call neither restarts the relay nor drives a debt past the range of `u128`. -/
def InRange (s : Store) : Op → Prop
  | .commit account _ billed => Fits 128 (s.mem.owed account + billed)
  | .reload .. => False
  | _ => True

instance (s : Store) (op : Op) : Decidable (s.InRange op) := by
  cases op <;> unfold InRange <;> infer_instance

def lastFrom (log : List Accepted) (account chequebook : EthAddr) : Option HeldCheque :=
  ((log.filter (Accepted.paidBy account chequebook)).getLast?).map (·.cheque)

def lastBy (log : List Accepted) (chequebook : EthAddr) : Option EthAddr :=
  ((log.filter (Accepted.drawnOn chequebook)).getLast?).map (·.account)

theorem create_eq (path : String) (entropy : Bytes 32) :
    Ledger.loadOrCreate path entropy none none =
      ((create path entropy).file, .ok (create path entropy).mem) := rfl

/-- What every reachable store satisfies. -/
structure Sound (path : String) (s : Store) : Prop where
  durable : s.mem.path = some path
  owedFits : ∀ account, Fits 128 (s.mem.owed account)
  bounded : ∀ x ∈ s.log, x.cheque.cumulativePlur ≤ maxCumulativePlur
  held : ∀ account chequebook, s.mem.heldCheque account chequebook = lastFrom s.log account chequebook
  bound : ∀ chequebook, s.mem.book.bound chequebook = lastBy s.log chequebook
  saved : ∃ l : Ledger, s.file = some l.onDisk ∧ l.book.held = s.mem.book.held ∧
    l.book.bound = s.mem.book.bound ∧ ∀ account, Fits 128 (l.owed account)
  ordered : s.log.Pairwise fun older newer => older.chequebook = newer.chequebook →
    older.account = newer.account ∧ older.cheque.cumulativePlur < newer.cheque.cumulativePlur
  amounts : ∀ account chequebook, ((s.log.filter (Accepted.paidBy account chequebook)).map (·.amount)).sum =
    s.mem.lastCumulative account chequebook

def highest (log : List Accepted) (account chequebook : EthAddr) : Nat :=
  ((log.filter (Accepted.paidBy account chequebook)).map (·.cheque.cumulativePlur)).foldr max 0

def credited (log : List Accepted) (account : EthAddr) : Nat :=
  ((log.filter (·.account = account)).map (·.amount)).sum

variable {x : Accepted} {path : String} {s : Store}

theorem le_last {log : List Accepted} (ordered : log.Pairwise fun older newer =>
      older.chequebook = newer.chequebook → older.account = newer.account ∧
        older.cheque.cumulativePlur < newer.cheque.cumulativePlur)
    (member : x ∈ log) : lastBy log x.chequebook = some x.account ∧
      ∃ h, lastFrom log x.account x.chequebook = some h ∧ x.cheque.cumulativePlur ≤ h.cumulativePlur := by
  induction log using List.reverseRecOn with
  | nil => cases member
  | append_singleton rest y ih =>
    obtain ⟨before, _, across⟩ := List.pairwise_append.mp ordered
    rcases List.mem_append.mp member with member | member
    · obtain ⟨account, h, last, le⟩ := ih before member
      by_cases same : y.chequebook = x.chequebook
      · obtain ⟨acct, lt⟩ := across x member y (List.mem_singleton_self _) same.symm
        refine ⟨?_, y.cheque, ?_, lt.le⟩
        · simp [lastBy, Accepted.drawnOn, same, acct]
        · simp [lastFrom, Accepted.paidBy, same, acct]
      · refine ⟨?_, h, ?_, le⟩
        · simpa [lastBy, Accepted.drawnOn, same] using account
        · simpa [lastFrom, Accepted.paidBy, same] using last
    · rw [List.mem_singleton] at member
      subst member
      exact ⟨by simp [lastBy, Accepted.drawnOn], x.cheque, by simp [lastFrom, Accepted.paidBy], Nat.le_refl _⟩

theorem lastFrom_snoc (log : List Accepted) (x : Accepted) :
    lastFrom (log ++ [x]) = Function.update (lastFrom log) x.account
      (Function.update (lastFrom log x.account) x.chequebook (some x.cheque)) := by
  funext account chequebook
  by_cases same : account = x.account
  · subst same
    by_cases book : chequebook = x.chequebook
    · subst book
      simp [lastFrom, Accepted.paidBy]
    · simp [lastFrom, Accepted.paidBy, book, Ne.symm book]
  · simp [lastFrom, Accepted.paidBy, same, Ne.symm same]

theorem lastBy_snoc (log : List Accepted) (x : Accepted) :
    lastBy (log ++ [x]) = Function.update (lastBy log) x.chequebook (some x.account) := by
  funext chequebook
  by_cases same : chequebook = x.chequebook
  · subst same
    simp [lastBy, Accepted.drawnOn]
  · simp [lastBy, Accepted.drawnOn, same, Ne.symm same]

theorem satAdd_fits (a b : Nat) : Fits 128 (satAdd 128 a b) := by
  unfold Fits satAdd
  omega

namespace Sound

variable {path : String} {s : Store}

theorem debts (h : Sound path s) {mem : Ledger} (durable : mem.path = s.mem.path)
    {owed reserved : EthAddr → Nat} (book : mem.book = { s.mem.book with owed, reserved })
    (fits : ∀ account, Fits 128 (owed account)) : Sound path { s with mem } := by
  have held : mem.heldCheque = s.mem.heldCheque := congrArg Book.held book
  have bound : mem.book.bound = s.mem.book.bound := by rw [book]
  have due : mem.owed = owed := congrArg Book.owed book
  constructor
  · exact durable.trans h.durable
  · rw [due]
    exact fits
  · exact h.bounded
  · rw [held]
    exact h.held
  · rw [bound]
    exact h.bound
  · obtain ⟨l, file, same, same', fits⟩ := h.saved
    exact ⟨l, file, same.trans held.symm, same'.trans bound.symm, fits⟩
  · exact h.ordered
  · unfold Ledger.lastCumulative
    rw [held]
    exact h.amounts

theorem credit (h : Sound path s) (account chequebook : EthAddr) (cumulative : Nat) (signature : Bytes 65)
    (fault : Option String) :
    Sound path (s.apply path (.credit account chequebook cumulative signature fault)) := by
  dsimp only [apply]
  rcases Metered.credit_cases h.durable account chequebook cumulative signature fault s.file with
    ⟨mem, e, out, same, durable⟩ | ⟨mem, out, _, durable, small, free, above, within, book⟩
  · rw [out]
    exact debts h durable same h.owedFits
  rw [out]
  have held : mem.heldCheque = _ := congrArg Book.held book
  have bound : mem.book.bound = _ := congrArg Book.bound book
  have fits : ∀ other, Fits 128 (mem.owed other) := by
    intro other
    rw [show mem.owed other = Function.update s.mem.owed account _ other from
      congrFun (congrArg Book.owed book) other]
    by_cases same : other = account
    · subst same
      rw [Function.update_self]
      exact (h.owedFits other).mono (Nat.sub_le ..)
    · rw [Function.update_of_ne same]
      exact h.owedFits other
  have history : s.mem.heldCheque = lastFrom s.log := by
    funext a b
    exact h.held a b
  constructor
  · exact durable.trans h.durable
  · exact fits
  · intro x member
    rcases List.mem_append.mp member with member | member
    · exact h.bounded x member
    · rw [List.mem_singleton.mp member]
      exact small
  · intro a b
    dsimp only
    rw [held, lastFrom_snoc, ← history]
    rfl
  · intro b
    dsimp only
    rw [bound, lastBy_snoc]
    have old : s.mem.book.bound = lastBy s.log := funext h.bound
    unfold Book.accept
    dsimp only
    rw [old]
  · exact ⟨mem, rfl, rfl, rfl, fits⟩
  · refine List.pairwise_append.mpr ⟨h.ordered, List.pairwise_singleton .., ?_⟩
    intro x member y single same
    rw [List.mem_singleton] at single
    subst single
    dsimp only at same ⊢
    obtain ⟨owner, cheque, last, le⟩ := le_last h.ordered member
    have mine : x.account = account := free _ (by rw [← same, h.bound, owner])
    refine ⟨mine, Nat.lt_of_le_of_lt le ?_⟩
    rw [mine, same, ← h.held] at last
    rw [Ledger.lastCumulative, last] at above
    exact above
  · intro a b
    dsimp only
    have last : mem.lastCumulative a b = _ := congrArg (fun book => book.last a b) book
    rw [last, Book.last_accept, List.filter_append, List.map_append, List.sum_append, h.amounts]
    by_cases same : a = account ∧ b = chequebook
    · obtain ⟨rfl, rfl⟩ := same
      rw [if_pos ⟨rfl, rfl⟩, List.filter_cons_of_pos (by simp [Accepted.paidBy])]
      simp only [List.filter_nil, List.map_cons, List.map_nil, List.sum_singleton]
      omega
    · have other : ¬ (account = a ∧ chequebook = b) := fun eq => same ⟨eq.1.symm, eq.2.symm⟩
      rw [if_neg same, List.filter_cons_of_neg (by simpa [Accepted.paidBy] using other)]
      rfl

theorem heldFits (h : Sound path s) {account chequebook : EthAddr} {cheque : HeldCheque}
    (held : s.mem.heldCheque account chequebook = some cheque) : Fits 128 cheque.cumulativePlur := by
  rw [h.held, lastFrom, Option.map_eq_some_iff] at held
  obtain ⟨x, last, rfl⟩ := held
  have member := List.mem_of_mem_filter (List.mem_of_getLast? last)
  exact Nat.lt_of_le_of_lt (h.bounded x member) (by decide)

theorem loaded (h : Sound path s) (entropy : Bytes 32) (fault : Option String) :
    ∃ l mem : Ledger, s.file = some l.onDisk ∧ (∀ account, Fits 128 (l.owed account)) ∧
      Ledger.loadOrCreate path entropy fault s.file = (s.file, .ok mem) ∧ mem.path = some path ∧
      mem.book = { s.mem.book with owed := l.owed, reserved := fun _ => 0 } := by
  obtain ⟨l, file, held, bound, fits⟩ := h.saved
  have storable := Ledger.storable_of_book fits fun account chequebook cheque kept =>
    h.heldFits ((congrFun₂ held account chequebook).symm.trans kept)
  obtain ⟨mem, read, book, _, durable⟩ := l.load_onDisk path storable
  refine ⟨l, mem, file, fits, ?_, durable, ?_⟩
  · rw [file]
    unfold Ledger.loadOrCreate
    dsimp only
    rw [read]
  · rw [book]
    exact Book.ext rfl rfl held bound

theorem create (path : String) (entropy : Bytes 32) : Sound path (Store.create path entropy) where
  durable := rfl
  owedFits _ := Nat.two_pow_pos 128
  bounded _ member := by cases member
  held _ _ := rfl
  bound _ := rfl
  saved := ⟨_, rfl, rfl, rfl, fun _ => Nat.two_pow_pos 128⟩
  ordered := .nil
  amounts _ _ := rfl

theorem step (h : Sound path s) (op : Op) : Sound path (s.apply path op) := by
  cases op with
  | reserve account amount cap =>
    exact debts h rfl (s.mem.book_reserve account amount cap) h.owedFits
  | release account amount =>
    exact debts h (s.mem.path_release account amount) (s.mem.book_release account amount) h.owedFits
  | commit account reserved billed =>
    refine debts h rfl (s.mem.book_commit account reserved billed) fun other => ?_
    by_cases same : other = account
    · subst same
      rw [Function.update_self]
      exact satAdd_fits ..
    · rw [Function.update_of_ne same]
      exact h.owedFits other
  | persist fault =>
    dsimp only [apply]
    unfold Ledger.persist
    rw [h.durable]
    cases fault with
    | none =>
      exact { h with saved := ⟨s.mem, rfl, rfl, rfl, h.owedFits⟩ }
    | some e => exact h
  | credit account chequebook cumulative signature fault => exact h.credit ..
  | reload entropy fault =>
    obtain ⟨l, mem, _, fits, read, durable, book⟩ := h.loaded entropy fault
    dsimp only [apply]
    rw [read]
    exact h.debts (durable.trans h.durable.symm) book fits

end Sound

theorem reached (path : String) (entropy : Bytes 32) (ops : List Op) :
    Sound path (run (apply path) (create path entropy) ops) :=
  run_invariant (Sound path) (apply path) (fun _ op h => h.step op) _ ops (Sound.create path entropy)

section Single
variable {path : String} {s : Store} (h : Sound path s)
include h

theorem Sound.highest_eq (account chequebook : EthAddr) :
    highest s.log account chequebook = s.mem.lastCumulative account chequebook := by
  have member : ∀ n ∈ (s.log.filter (Accepted.paidBy account chequebook)).map (·.cheque.cumulativePlur),
      n ≤ s.mem.lastCumulative account chequebook := by
    intro n inside
    obtain ⟨x, kept, rfl⟩ := List.mem_map.mp inside
    obtain ⟨logged, paid⟩ := List.mem_filter.mp kept
    obtain ⟨rfl, rfl⟩ := of_decide_eq_true paid
    obtain ⟨_, cheque, last, le⟩ := le_last h.ordered logged
    rw [Ledger.lastCumulative, h.held, last]
    exact le
  refine Nat.le_antisymm (List.max_le_of_forall_le _ _ member) ?_
  rw [Ledger.lastCumulative, h.held, lastFrom]
  cases found : (s.log.filter (Accepted.paidBy account chequebook)).getLast? with
  | none => exact Nat.zero_le _
  | some x => exact List.le_max_of_le (List.mem_map_of_mem (List.mem_of_getLast? found)) (Nat.le_refl _)

theorem Sound.refuses {x : Accepted} (logged : x ∈ s.log) (account : EthAddr) {cumulative : Nat}
    (stale : cumulative ≤ x.cheque.cumulativePlur) (signature : Bytes 65) (fault : Option String) :
    ∃ e, (Metered.credit s.mem account x.chequebook cumulative signature fault s.file).2.2 = .error e := by
  rcases Metered.credit_cases h.durable account x.chequebook cumulative signature fault s.file with
    ⟨_, e, out, _⟩ | ⟨_, out, _, _, _, free, above, _⟩
  · exact ⟨e, by rw [out]⟩
  obtain ⟨owner, cheque, last, le⟩ := le_last h.ordered logged
  have mine : x.account = account := free _ ((h.bound _).trans owner)
  rw [Ledger.lastCumulative, h.held, ← mine, last] at above
  exact absurd (stale.trans le) (Nat.not_le.mpr above)

theorem Sound.failed_credit (account chequebook : EthAddr) (cumulative : Nat) (signature : Bytes 65)
    (e : String) : (s.apply path (.credit account chequebook cumulative signature (some e))).mem.book =
      s.mem.book := by
  dsimp only [apply]
  rcases Metered.credit_cases h.durable account chequebook cumulative signature (some e) s.file with
    ⟨mem, _, out, same, _⟩ | ⟨_, _, fine, _⟩
  · rw [out]
    exact same
  · cases fine

theorem Sound.file_of_not_saves {op : Op} (unsaved : s.saves op = false) :
    (s.apply path op).file = s.file := by
  cases op with
  | reserve | release | commit => rfl
  | persist fault =>
    cases fault with
    | none => cases unsaved
    | some e =>
      dsimp only [apply]
      rw [Ledger.persist, h.durable]
  | credit account chequebook cumulative signature fault =>
    dsimp only [apply, saves] at unsaved ⊢
    rcases Metered.credit_cases h.durable account chequebook cumulative signature fault s.file with
      ⟨mem, _, out, _⟩ | ⟨mem, out, _⟩
    · rw [out]
    · rw [out] at unsaved
      cases unsaved
  | reload entropy fault =>
    obtain ⟨_, mem, _, _, read, _⟩ := h.loaded entropy fault
    dsimp only [apply]
    rw [read]

theorem Sound.file_of_saves {op : Op} (saved : s.saves op = true) :
    (s.apply path op).file = some (s.apply path op).mem.onDisk := by
  cases op with
  | reserve | release | commit | reload => cases saved
  | persist fault =>
    cases fault with
    | none =>
      dsimp only [apply]
      rw [Ledger.persist, h.durable]
    | some e => cases saved
  | credit account chequebook cumulative signature fault =>
    dsimp only [apply, saves] at saved ⊢
    rcases Metered.credit_cases h.durable account chequebook cumulative signature fault s.file with
      ⟨mem, _, out, _⟩ | ⟨mem, out, _⟩
    · rw [out] at saved
      cases saved
    · rw [out]

theorem Sound.owed_reload {t : Store} (written : s.file = some t.mem.onDisk) (sound : Sound path t)
    (entropy : Bytes 32) (fault : Option String) :
    (s.apply path (.reload entropy fault)).mem.owed = t.mem.owed := by
  have storable := Ledger.storable_of_book sound.owedFits fun _ _ _ => sound.heldFits
  obtain ⟨mem, read, book, _⟩ := t.mem.load_onDisk path storable
  obtain ⟨_, mem', _, _, out, _⟩ := h.loaded entropy fault
  have same : Ledger.loadOrCreate path entropy fault s.file = (s.file, .ok mem) := by
    rw [written, Ledger.loadOrCreate, read]
  dsimp only [apply]
  rw [same]
  have owed := congrArg Book.owed book
  exact owed

end Single

theorem file_of_unsaved (h : Sound path s) {ops : List Op}
    (unsaved : Along (fun s op => s.saves op = false) (apply path) s ops) :
    (run (apply path) s ops).file = s.file := by
  induction ops generalizing s with
  | nil => rfl
  | cons op rest ih => exact (ih (h.step op) unsaved.2).trans (h.file_of_not_saves unsaved.1)

theorem credited_snoc (log : List Accepted) (x : Accepted) (account : EthAddr) :
    credited (log ++ [x]) account = credited log account + if account = x.account then x.amount else 0 := by
  unfold credited
  by_cases same : account = x.account
  · simp [same]
  · simp [same, Ne.symm same]

theorem Sound.balance_step (h : Sound path s) {op : Op} (inRange : s.InRange op)
    (account : EthAddr) : (s.apply path op).mem.owed account + credited (s.apply path op).log account =
      s.mem.owed account + bills account op + credited s.log account := by
  cases op with
  | reserve other amount cap => simp only [apply, bills, Ledger.owed_reserve, Nat.add_zero]
  | release other amount => simp only [apply, bills, Ledger.owed_release, Nat.add_zero]
  | commit other reserved billed =>
    simp only [apply, bills, Ledger.owed_commit]
    by_cases same : account = other
    · subst same
      rw [Function.update_self, satAdd_of_fits inRange, if_pos rfl]
    · rw [Function.update_of_ne same, if_neg same, Nat.add_zero]
  | persist fault => rfl
  | credit other chequebook cumulative signature fault =>
    dsimp only [apply, bills]
    rcases Metered.credit_cases h.durable other chequebook cumulative signature fault s.file with
      ⟨mem, _, out, same, _⟩ | ⟨mem, out, _, _, _, _, _, within, book⟩
    · rw [out, show mem.owed = s.mem.owed from congrArg Book.owed same, Nat.add_zero]
    · rw [out]
      have owed : mem.owed = Function.update s.mem.owed other
        (s.mem.owed other - (cumulative - s.mem.lastCumulative other chequebook)) := congrArg Book.owed book
      dsimp only
      rw [owed, credited_snoc]
      by_cases same : account = other
      · subst same
        rw [Function.update_self, if_pos rfl]
        dsimp only
        omega
      · rw [Function.update_of_ne same, if_neg same]
        rfl
  | reload => exact inRange.elim

theorem balance (h : Sound path s) {ops : List Op} (inRange : Along InRange (apply path) s ops) (account : EthAddr) :
    (run (apply path) s ops).mem.owed account + credited (run (apply path) s ops).log account =
      s.mem.owed account + (ops.map (bills account)).sum + credited s.log account := by
  induction ops generalizing s with
  | nil => rfl
  | cons op rest ih =>
    have one := h.balance_step inRange.1 account
    have more := ih (h.step op) inRange.2
    rw [run_cons, List.map_cons, List.sum_cons]
    omega

theorem Sound.bound_of_logged (h : Sound path s)
    (logged : x ∈ s.log) : s.mem.binding.lookup x.chequebook = some x.account :=
  (h.bound _).trans (le_last h.ordered logged).1

theorem logged_run (path : String) (s : Store) (logged : x ∈ s.log) (ops : List Op) :
    x ∈ (run (apply path) s ops).log := by
  refine run_invariant (fun t => x ∈ t.log) (apply path) (fun t op member => ?_) s ops logged
  cases op with
  | reserve | release | commit | persist => exact member
  | credit account chequebook cumulative signature fault =>
    dsimp only [apply]
    split
    · exact List.mem_append_left _ member
    · exact member
  | reload entropy fault =>
    dsimp only [apply]
    split <;> exact member

def after (path : String) (entropy : Bytes 32) (ops : List Op) : Store :=
  run (apply path) (create path entropy) ops

/-- What a relay that keeps its ledger at a path guarantees over all its calls and restarts. -/
structure ReplayProof (path : String) (entropy : Bytes 32) : Prop where
  amounts : ∀ ops account chequebook, let s := after path entropy ops
    ((s.log.filter (Accepted.paidBy account chequebook)).map (·.amount)).sum = highest s.log account chequebook
  refuses : ∀ ops, let s := after path entropy ops
    ∀ x ∈ s.log, ∀ account cumulative signature fault, cumulative ≤ x.cheque.cumulativePlur →
      ∃ e, (Metered.credit s.mem account x.chequebook cumulative signature fault s.file).2.2 = .error e
  binding : ∀ ops, ∀ x ∈ (after path entropy ops).log, ∀ more,
    (after path entropy (ops ++ more)).mem.binding.lookup x.chequebook = some x.account
  failed : ∀ ops account chequebook cumulative signature e,
    (after path entropy (ops ++ [.credit account chequebook cumulative signature (some e)])).mem.book =
      (after path entropy ops).mem.book
  balance : ∀ before ops account, let s := after path entropy before
    let t := after path entropy (before ++ ops)
    Along InRange (apply path) s ops → t.mem.owed account + credited t.log account =
      s.mem.owed account + (ops.map (bills account)).sum + credited s.log account
  /-- A crash can always be recovered from, and loses no cheque and no binding. -/
  recovers : ∀ ops seed fault, let s := after path entropy ops
    let t := after path entropy (ops ++ [.reload seed fault])
    (Ledger.loadOrCreate path seed fault s.file).2 = .ok t.mem ∧
      (∀ account chequebook, t.mem.heldCheque account chequebook = lastFrom s.log account chequebook) ∧
      ∀ chequebook, t.mem.binding.lookup chequebook = lastBy s.log chequebook
  /-- The debts after a crash are those of the last call that wrote the file. -/
  owed : ∀ before op ops seed fault, let s := after path entropy before
    s.saves op = true → Along (fun t op => t.saves op = false) (apply path) (s.apply path op) ops →
      (after path entropy (before ++ op :: ops ++ [.reload seed fault])).mem.owed = (s.apply path op).mem.owed
  owedUnsaved : ∀ ops seed fault,
    Along (fun t op => t.saves op = false) (apply path) (create path entropy) ops →
      (after path entropy (ops ++ [.reload seed fault])).mem.owed = fun _ => 0

theorem after_append (path : String) (entropy : Bytes 32) (ops more : List Op) :
    after path entropy (ops ++ more) = run (apply path) (after path entropy ops) more :=
  run_append ..

theorem log_reload (path : String) (s : Store) (entropy : Bytes 32) (fault : Option String) :
    (s.apply path (.reload entropy fault)).log = s.log := by
  dsimp only [apply]
  split <;> rfl

theorem ledger_replay_proof (path : String) (entropy : Bytes 32) : ReplayProof path entropy where
  amounts ops account chequebook :=
    ((reached path entropy ops).amounts account chequebook).trans
      ((reached path entropy ops).highest_eq account chequebook).symm
  refuses ops x logged account _ signature fault stale :=
    (reached path entropy ops).refuses logged account stale signature fault
  binding ops x logged more := by
    refine (reached path entropy (ops ++ more)).bound_of_logged ?_
    rw [run_append]
    exact logged_run path _ logged more
  failed ops account chequebook cumulative signature e := by
    rw [after_append]
    exact (reached path entropy ops).failed_credit account chequebook cumulative signature e
  balance before ops account inRange := by
    rw [after_append]
    exact Store.balance (reached path entropy before) inRange account
  recovers ops seed fault := by
    have sound := reached path entropy ops
    have next := sound.step (.reload seed fault)
    obtain ⟨_, mem, _, _, read, _⟩ := sound.loaded seed fault
    rw [after_append, run_cons, run_nil]
    refine ⟨?_, fun account chequebook => ?_, fun chequebook => ?_⟩
    · dsimp only [apply, after]
      rw [read]
    · rw [← log_reload path _ seed fault]
      exact next.held account chequebook
    · rw [← log_reload path _ seed fault]
      exact next.bound chequebook
  owed before op ops seed fault saved unsaved := by
    have sound := reached path entropy before
    have written := (file_of_unsaved (sound.step op) unsaved).trans (sound.file_of_saves saved)
    have here := run_invariant (Sound path) (apply path) (fun _ op h => h.step op) _ ops (sound.step op)
    rw [after_append, after_append]
    exact here.owed_reload written (sound.step op) seed fault
  owedUnsaved ops seed fault unsaved := by
    have start := Sound.create path entropy
    rw [after_append]
    exact (reached path entropy ops).owed_reload ((file_of_unsaved start unsaved).trans rfl) start seed fault

def someone : EthAddr := Bytes.replicate 20 0

def hugeBills : List Op := [.commit someone 0 (2 ^ 128 - 1), .commit someone 0 1]

/-- The second bill is lost: the debt stays below what was billed, with nothing credited. -/
theorem hugeBills_clamp :
    let s := after "ledger.json" ⟨List.replicate 32 0, rfl⟩ hugeBills
    (create "ledger.json" ⟨List.replicate 32 0, rfl⟩).mem.owed someone = 0 ∧ credited s.log someone = 0 ∧
      (hugeBills.map (bills someone)).sum = 2 ^ 128 ∧ s.mem.owed someone = 2 ^ 128 - 1 := by
  decide +kernel

end Store

end Hoverfly.Relay
