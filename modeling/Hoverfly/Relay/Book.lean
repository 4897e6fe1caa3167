import Mathlib.Logic.Function.Basic
import Hoverfly.Relay.Ledger

/-! What can be observed of a ledger: debts, reservations, held cheques and bindings as functions. -/
namespace Hoverfly.Relay
open Lib

@[ext] structure Book where
  owed : EthAddr → Nat
  reserved : EthAddr → Nat
  held : EthAddr → EthAddr → Option HeldCheque
  bound : EthAddr → Option EthAddr

namespace Book

def empty : Book := { owed := fun _ => 0, reserved := fun _ => 0, held := fun _ _ => none, bound := fun _ => none }

def last (b : Book) (account chequebook : EthAddr) : Nat :=
  ((b.held account chequebook).map (·.cumulativePlur)).getD 0

def setOwed (b : Book) (account : EthAddr) (owed : Nat) : Book :=
  { b with owed := Function.update b.owed account owed }

def setReserved (b : Book) (account : EthAddr) (reserved : Nat) : Book :=
  { b with reserved := Function.update b.reserved account reserved }

def accept (b : Book) (account chequebook : EthAddr) (cheque : HeldCheque) (amount : Nat) : Book :=
  { b.setOwed account (b.owed account - amount) with
    held := Function.update b.held account (Function.update (b.held account) chequebook (some cheque))
    bound := Function.update b.bound chequebook (some account) }

theorem last_accept (b : Book) (account chequebook : EthAddr) (cheque : HeldCheque) (amount : Nat)
    (other drawn : EthAddr) : (b.accept account chequebook cheque amount).last other drawn =
      if other = account ∧ drawn = chequebook then cheque.cumulativePlur else b.last other drawn := by
  unfold last accept
  by_cases mine : other = account
  · subst mine
    by_cases same : drawn = chequebook <;> simp [same]
  · simp [mine]

end Book

namespace Ledger

def book (l : Ledger) : Book where
  owed := l.owed
  reserved := l.reserved
  held := l.heldCheque
  bound := fun chequebook => l.binding.lookup chequebook

variable (l : Ledger) (account : EthAddr)

theorem lookup_putAccount (other : EthAddr) (a : Account) :
    (l.putAccount account a).accounts.lookup other =
      if other = account then some a else l.accounts.lookup other := by
  unfold putAccount
  split
  · rename_i same
    rw [same, AList.lookup_insert]
  · rename_i ne
    exact AList.lookup_insert_ne ne

theorem book_putAccount (a : Account) :
    (l.putAccount account a).book =
      { owed := Function.update l.owed account a.owedPlur
        reserved := Function.update l.reserved account a.reservedPlur
        held := Function.update l.heldCheque account fun chequebook => a.lastCumulative.lookup chequebook
        bound := l.book.bound } := by
  ext1
  · funext other
    by_cases same : other = account <;> simp [book, owed, lookup_putAccount, same]
  · funext other
    by_cases same : other = account <;> simp [book, reserved, lookup_putAccount, same]
  · funext other chequebook
    by_cases same : other = account
    · subst same
      simp [book, heldCheque, lookup_putAccount]
    · simp [book, heldCheque, lookup_putAccount, same]
  · rfl

theorem entry_owed : (l.entry account).owedPlur = l.owed account := by
  unfold entry owed
  cases l.accounts.lookup account <;> rfl

theorem entry_reserved :
    (l.entry account).reservedPlur = l.reserved account := by
  unfold entry reserved
  cases l.accounts.lookup account <;> rfl

theorem entry_held :
    (fun chequebook => (l.entry account).lastCumulative.lookup chequebook) = l.heldCheque account := by
  unfold entry heldCheque
  cases l.accounts.lookup account with
  | none =>
    funext chequebook
    exact AList.lookup_empty chequebook
  | some a => rfl

theorem entry_last (chequebook : EthAddr) :
    (((l.entry account).lastCumulative.lookup chequebook).map (·.cumulativePlur)).getD 0 =
      l.lastCumulative account chequebook := by
  unfold lastCumulative
  rw [← entry_held]

theorem update_entry_reserved :
    Function.update l.reserved account (l.entry account).reservedPlur = l.reserved := by
  rw [entry_reserved, Function.update_eq_self]

theorem book_putEntry : (l.putAccount account (l.entry account)).book = l.book := by
  rw [book_putAccount, entry_owed, entry_reserved, entry_held]
  simp only [Function.update_eq_self]
  rfl

theorem book_reserve (amount cap : Nat) :
    (l.reserve account amount cap).1.book =
      l.book.setReserved account (satAdd 128 (l.reserved account) amount) := by
  unfold reserve
  dsimp only
  rw [book_putAccount]
  dsimp only
  rw [entry_owed, entry_reserved, entry_held]
  simp only [Function.update_eq_self]
  rfl

variable {l : Ledger} {account : EthAddr}

theorem admission_reserve (l : Ledger) {amount : Nat} (cap : Nat)
    (fits : Fits 128 (l.owed account + l.reserved account + amount)) :
    (l.reserve account amount cap).2 =
      { reservedPlur := amount, outstandingPlur := l.owed account + l.reserved account + amount
        capPlur := cap, overCap := l.owed account + l.reserved account + amount > cap } := by
  have sum : satAdd 128 (l.owed account) (satAdd 128 (l.reserved account) amount) =
      l.owed account + l.reserved account + amount := by
    rw [Nat.add_assoc] at fits
    rw [satAdd_of_fits (fits.mono (Nat.le_add_left ..)), satAdd_of_fits fits, Nat.add_assoc]
  simp only [reserve, Account.outstanding, entry_owed, entry_reserved, sum]

theorem lt_of_overCap {amount cap : Nat} (beyond : (l.reserve account amount cap).2.overCap = true) :
    cap < l.owed account + l.reserved account + amount := by
  simp only [reserve, Account.outstanding, entry_owed, entry_reserved, decide_eq_true_eq] at beyond
  have outer := satAdd_le 128 (l.owed account) (satAdd 128 (l.reserved account) amount)
  have inner := satAdd_le 128 (l.reserved account) amount
  omega

variable (l account)

theorem book_commit (reserved billed : Nat) :
    (l.commit account reserved billed).book =
      (l.book.setReserved account (l.reserved account - reserved)).setOwed account
        (satAdd 128 (l.owed account) billed) := by
  unfold commit
  dsimp only
  rw [book_putAccount]
  dsimp only
  rw [entry_owed, entry_reserved, entry_held]
  simp only [Function.update_eq_self]
  rfl

theorem book_release (amount : Nat) :
    (l.release account amount).book = l.book.setReserved account (l.reserved account - amount) := by
  unfold release
  cases found : l.accounts.lookup account with
  | none =>
    have none_ : l.reserved account = 0 := by
      unfold reserved
      rw [found]
      rfl
    rw [none_, Nat.zero_sub]
    unfold Book.setReserved
    rw [show (0 : Nat) = l.book.reserved account from none_.symm, Function.update_eq_self]
  | some a =>
    have here : l.entry account = a := by rw [entry, found, Option.getD_some]
    subst here
    rw [book_putAccount]
    dsimp only
    rw [entry_owed, entry_reserved, entry_held]
    simp only [Function.update_eq_self]
    rfl

theorem owed_reserve (amount cap : Nat) :
    (l.reserve account amount cap).1.owed = l.owed := by
  have owed := congrArg Book.owed (l.book_reserve account amount cap)
  exact owed

theorem owed_release (amount : Nat) :
    (l.release account amount).owed = l.owed := by
  have owed := congrArg Book.owed (l.book_release account amount)
  exact owed

theorem owed_commit (reserved billed : Nat) :
    (l.commit account reserved billed).owed =
      Function.update l.owed account (satAdd 128 (l.owed account) billed) := by
  have owed := congrArg Book.owed (l.book_commit account reserved billed)
  exact owed

theorem lastCumulative_reserve (amount cap : Nat) :
    (l.reserve account amount cap).1.lastCumulative = l.lastCumulative := by
  have last := congrArg Book.last (l.book_reserve account amount cap)
  exact last

theorem lastCumulative_release (amount : Nat) :
    (l.release account amount).lastCumulative = l.lastCumulative := by
  have last := congrArg Book.last (l.book_release account amount)
  exact last

theorem lastCumulative_commit (reserved billed : Nat) :
    (l.commit account reserved billed).lastCumulative = l.lastCumulative := by
  have last := congrArg Book.last (l.book_commit account reserved billed)
  exact last

theorem path_release (amount : Nat) :
    (l.release account amount).path = l.path := by
  unfold release
  cases l.accounts.lookup account <;> rfl

theorem book_bind (chequebook account : EthAddr) :
    ({ l with binding := l.binding.insert chequebook account } : Ledger).book =
      { l.book with bound := Function.update l.book.bound chequebook (some account) } := by
  ext1
  · rfl
  · rfl
  · rfl
  · exact lookup_insert_eq_update ..

theorem book_unbind (chequebook : EthAddr) :
    ({ l with binding := l.binding.erase chequebook } : Ledger).book =
      { l.book with bound := Function.update l.book.bound chequebook none } := by
  ext1
  · rfl
  · rfl
  · rfl
  · exact lookup_erase_eq_update ..

theorem credit_cases (chequebook : EthAddr) (cumulative : Nat) (signature : Bytes 65) :
    (∃ l' e, l.credit account chequebook cumulative signature = (l', .error e) ∧ l'.book = l.book ∧
      l'.path = l.path) ∨
    (∃ l', l.credit account chequebook cumulative signature =
        (l', .ok (cumulative - l.lastCumulative account chequebook)) ∧
      l'.path = l.path ∧ cumulative ≤ maxCumulativePlur ∧
      (∀ a, l.book.bound chequebook = some a → a = account) ∧
      l.lastCumulative account chequebook < cumulative ∧
      cumulative - l.lastCumulative account chequebook ≤ l.owed account ∧
      (l'.accounts.lookup account).isSome ∧
      l'.book = l.book.accept account chequebook { cumulativePlur := cumulative, signature }
        (cumulative - l.lastCumulative account chequebook)) := by
  unfold credit
  by_cases absurd_ : cumulative > maxCumulativePlur
  · rw [if_pos absurd_]
    exact .inl ⟨l, _, rfl, rfl, rfl⟩
  rw [if_neg absurd_]
  by_cases other : (l.binding.lookup chequebook).any (· ≠ account) = true
  · rw [if_pos other]
    exact .inl ⟨l, _, rfl, rfl, rfl⟩
  rw [if_neg other]
  dsimp only
  rw [entry_last, entry_owed]
  by_cases stale : cumulative ≤ l.lastCumulative account chequebook
  · rw [if_pos stale]
    exact .inl ⟨_, _, rfl, book_putEntry l account, rfl⟩
  rw [if_neg stale]
  by_cases beyond : cumulative - l.lastCumulative account chequebook > l.owed account
  · rw [if_pos beyond]
    exact .inl ⟨_, _, rfl, book_putEntry l account, rfl⟩
  rw [if_neg beyond]
  refine .inr ⟨_, rfl, rfl, Nat.le_of_not_lt absurd_, ?_, Nat.lt_of_not_le stale, Nat.le_of_not_lt beyond,
    ?_, ?_⟩
  · intro a found
    rw [show l.binding.lookup chequebook = some a from found] at other
    simpa using other
  · rw [lookup_putAccount, if_pos rfl]
    rfl
  · have same := book_putEntry l account
    refine (book_bind _ chequebook account).trans ?_
    rw [book_putAccount]
    dsimp only
    rw [show (l.putAccount account (l.entry account)).owed = l.owed from congrArg Book.owed same,
      show (l.putAccount account (l.entry account)).reserved = l.reserved from congrArg Book.reserved same,
      show (l.putAccount account (l.entry account)).heldCheque = l.heldCheque from congrArg Book.held same,
      entry_reserved, Function.update_eq_self, lookup_insert_eq_update, entry_held]
    rfl

variable {l account}

theorem overpayment_of_credit {chequebook : EthAddr} {cumulative : Nat} {signature : Bytes 65}
    {got owed : Nat} (refused : (l.credit account chequebook cumulative signature).2 = .error (.overpayment got owed)) :
    l.owed account < cumulative - l.lastCumulative account chequebook := by
  unfold credit at refused
  split at refused
  · cases refused
  split at refused
  · cases refused
  dsimp only at refused
  rw [entry_last, entry_owed] at refused
  split at refused
  · cases refused
  split at refused
  · assumption
  · cases refused

theorem notIncreasing_of_credit {chequebook : EthAddr} {cumulative : Nat} {signature : Bytes 65}
    {got held : Nat} (refused : (l.credit account chequebook cumulative signature).2 = .error (.notIncreasing got held)) :
    cumulative ≤ maxCumulativePlur ∧ cumulative ≤ l.lastCumulative account chequebook := by
  unfold credit at refused
  split at refused
  · cases refused
  split at refused
  · cases refused
  dsimp only at refused
  rw [entry_last] at refused
  split at refused
  · exact ⟨Nat.not_lt.mp ‹_›, ‹_›⟩
  split at refused
  · cases refused
  · cases refused

theorem book_rollbackCredit (known : (l.accounts.lookup account).isSome)
    (chequebook : EthAddr) (prevOwed : Nat) (prevHeld : Option HeldCheque) (hadBinding : Bool) :
    (l.rollbackCredit account chequebook prevOwed prevHeld hadBinding).book =
      { l.book with
        owed := Function.update l.owed account prevOwed
        held := Function.update l.heldCheque account (Function.update (l.heldCheque account) chequebook prevHeld)
        bound := if hadBinding then l.book.bound else Function.update l.book.bound chequebook none } := by
  obtain ⟨a, found⟩ := Option.isSome_iff_exists.mp known
  have here : l.entry account = a := by rw [entry, found, Option.getD_some]
  subst here
  have cheques : (fun cb => (restoreCheque (l.entry account).lastCumulative chequebook prevHeld).lookup cb) =
      Function.update (l.heldCheque account) chequebook prevHeld := by
    rw [← entry_held]
    cases prevHeld with
    | none => exact lookup_erase_eq_update ..
    | some h => exact lookup_insert_eq_update ..
  have restored := book_putAccount l account { l.entry account with
    owedPlur := prevOwed, lastCumulative := restoreCheque (l.entry account).lastCumulative chequebook prevHeld }
  dsimp only at restored
  rw [update_entry_reserved, cheques] at restored
  unfold rollbackCredit
  rw [found]
  dsimp only
  cases hadBinding with
  | true => exact restored
  | false =>
    refine (book_unbind _ chequebook).trans ?_
    rw [restored]
    rfl

theorem path_rollbackCredit (l : Ledger) (account chequebook : EthAddr) (prevOwed : Nat)
    (prevHeld : Option HeldCheque) (hadBinding : Bool) :
    (l.rollbackCredit account chequebook prevOwed prevHeld hadBinding).path = l.path := by
  unfold rollbackCredit
  cases l.accounts.lookup account <;> cases hadBinding <;> rfl

theorem file_of_persist_error (l : Ledger) {fault : Option String} {file file' : Option OnDisk} {e : StoreError}
    (failed : l.persist fault file = (file', .error e)) : file' = file := by
  unfold persist at failed
  cases path : l.path with
  | none =>
    rw [path] at failed
    cases failed
  | some _ =>
    rw [path] at failed
    cases fault with
    | none => cases failed
    | some _ =>
      cases failed
      rfl

def Storable (a : Account) : Prop :=
  Fits 128 a.owedPlur ∧
    ∀ chequebook h, a.lastCumulative.lookup chequebook = some h → Fits 128 h.cumulativePlur

theorem storable_of_book (owed : ∀ account, Fits 128 (l.owed account))
    (held : ∀ account chequebook h, l.heldCheque account chequebook = some h → Fits 128 h.cumulativePlur)
    (account : EthAddr) (a : Account) (found : l.accounts.lookup account = some a) : Storable a := by
  have here : l.entry account = a := by rw [entry, found, Option.getD_some]
  subst here
  refine ⟨?_, fun chequebook h kept => held account chequebook h ?_⟩
  · rw [entry_owed]
    exact owed account
  · rw [← entry_held]
    exact kept

theorem parseAddr_val (a : EthAddr) : parseAddr a.val = .ok a := by
  unfold parseAddr
  rw [dif_pos a.property]

theorem parseU128_of_fits {n : Nat} (fits : Fits 128 n) : parseU128 n = .ok n := if_pos fits

theorem loadCheque_ok (chequebook : EthAddr) (h : HeldCheque) (fits : Fits 128 h.cumulativePlur) :
    loadCheque (chequebook.val, h.cumulativePlur, h.signature.val) = .ok (chequebook, h) := by
  unfold loadCheque
  dsimp only
  rw [parseAddr_val, parseU128_of_fits fits, dif_pos h.signature.property]
  rfl

theorem loadAccount_ok {a : Account} (storable : Storable a) :
    ∃ a', (∀ account, loadAccount (accountOnDisk account a) = .ok (account, a')) ∧
      a'.owedPlur = a.owedPlur ∧ a'.reservedPlur = 0 ∧
      ∀ chequebook, a'.lastCumulative.lookup chequebook = a.lastCumulative.lookup chequebook := by
  obtain ⟨zs, parsed, perm⟩ := mapM_perm loadCheque
    (fun e : Sigma fun _ : EthAddr => HeldCheque => (e.1.val, e.2.cumulativePlur, e.2.signature.val))
    (fun e => (e.1, e.2)) a.lastCumulative.entries (chequesOnDisk a) (List.mergeSort_perm ..)
    (fun e member => loadCheque_ok e.1 e.2 (storable.2 e.1 e.2 (AList.mem_lookup_iff.mpr member)))
  refine ⟨{ owedPlur := a.owedPlur, reservedPlur := 0, lastCumulative := insertAll ∅ zs }, ?_, rfl, rfl, ?_⟩
  · intro account
    unfold loadAccount accountOnDisk
    dsimp only
    rw [parseAddr_val, parsed, parseU128_of_fits storable.1]
    rfl
  · exact lookup_insertAll_entries a.lastCumulative zs perm

theorem reserved_of_loadAccount {entry : OnDiskAccount} {a : Account}
    (parsed : loadAccount entry = .ok (account, a)) : a.reservedPlur = 0 := by
  unfold loadAccount at parsed
  simp only [bind, Except.bind, pure, Except.pure] at parsed
  split at parsed
  · cases parsed
  split at parsed
  · cases parsed
  split at parsed
  · cases parsed
  · cases parsed
    rfl

theorem reserved_load {path : String} {disk : OnDisk} (read : load path disk = .ok l)
    (account : EthAddr) : l.reserved account = 0 := by
  unfold load at read
  split at read
  · cases read
  split at read
  · cases accounts : disk.accounts.mapM loadAccount with
    | error e =>
      rw [accounts] at read
      cases read
    | ok entries =>
      cases binding : disk.binding.mapM loadBinding with
      | error e =>
        rw [accounts, binding] at read
        cases read
      | ok bindings =>
        rw [accounts, binding] at read
        cases read
        unfold reserved
        cases found : (insertAll ∅ entries).lookup account with
        | none => rfl
        | some a =>
          have member := mem_of_lookup_insertAll entries account a found
          obtain ⟨entry, _, parsed⟩ := mem_of_mapM loadAccount disk.accounts entries accounts _ member
          exact reserved_of_loadAccount parsed
  · cases read

theorem load_onDisk (l : Ledger) (path : String)
    (storable : ∀ account a, l.accounts.lookup account = some a → Storable a) :
    ∃ l', load path l.onDisk = .ok l' ∧ l'.book = { l.book with reserved := fun _ => 0 } ∧
      l'.secret = l.secret ∧ l'.path = some path := by
  let kept : Account → Bool := fun a => a.owedPlur > 0 || a.lastCumulative.entries ≠ []
  have pick : ∀ a : Account, ∃ a', Storable a →
      (∀ account, loadAccount (accountOnDisk account a) = .ok (account, a')) ∧
      a'.owedPlur = a.owedPlur ∧ a'.reservedPlur = 0 ∧
      ∀ chequebook, a'.lastCumulative.lookup chequebook = a.lastCumulative.lookup chequebook := by
    intro a
    by_cases fits : Storable a
    · obtain ⟨a', all⟩ := loadAccount_ok fits
      exact ⟨a', fun _ => all⟩
    · exact ⟨a, fun no => absurd no fits⟩
  choose reloaded same using pick
  obtain ⟨accounts, parsed, perm⟩ := mapM_perm loadAccount
    (fun e : Sigma fun _ : EthAddr => Account => accountOnDisk e.1 e.2)
    (fun e => (e.1, reloaded e.2)) (l.accounts.entries.filter fun e => kept e.2) l.onDisk.accounts
    (List.mergeSort_perm ..)
    (fun e member => (same e.2 (storable e.1 e.2
      (AList.mem_lookup_iff.mpr (List.mem_filter.mp member).1))).1 e.1)
  obtain ⟨binding, bound, permBinding⟩ := mapM_perm loadBinding
    (fun e : Sigma fun _ : EthAddr => EthAddr => (e.1.val, e.2.val)) (fun e => (e.1, e.2))
    l.binding.entries l.onDisk.binding (List.mergeSort_perm ..) (fun e _ => by
      unfold loadBinding
      dsimp only
      rw [parseAddr_val, parseAddr_val]
      rfl)
  have found : ∀ account, (insertAll ∅ accounts).lookup account =
      ((l.accounts.lookup account).filter kept).map reloaded :=
    lookup_insertAll_perm l.accounts kept reloaded accounts perm
  have keys := lookup_insertAll_entries l.binding binding permBinding
  refine ⟨⟨insertAll ∅ accounts, insertAll ∅ binding, l.secret, some path⟩, ?_, ?_, rfl, rfl⟩
  · unfold load
    rw [parsed, bound]
    have secret : l.onDisk.secret.length = 32 := l.secret.property
    rw [dif_pos secret]
    rfl
  · have dropped : ∀ a : Account, kept a = false → a.owedPlur = 0 ∧ a.lastCumulative.entries = [] := by
      intro a drop
      simpa [kept] using drop
    ext1
    · funext account
      show Option.getD (Option.map _ ((insertAll ∅ accounts).lookup account)) 0 = l.owed account
      rw [found, owed]
      cases at_ : l.accounts.lookup account with
      | none => rfl
      | some a =>
        cases keep : kept a with
        | false => simp [Option.filter_some, keep, (dropped a keep).1]
        | true => simp [Option.filter_some, keep, (same a (storable account a at_)).2.1]
    · funext account
      show Option.getD (Option.map _ ((insertAll ∅ accounts).lookup account)) 0 = 0
      rw [found]
      cases at_ : l.accounts.lookup account with
      | none => rfl
      | some a =>
        cases keep : kept a with
        | false => simp [Option.filter_some, keep]
        | true => simp [Option.filter_some, keep, (same a (storable account a at_)).2.2.1]
    · funext account chequebook
      show Option.bind ((insertAll ∅ accounts).lookup account) _ = l.heldCheque account chequebook
      rw [found, heldCheque]
      cases at_ : l.accounts.lookup account with
      | none => rfl
      | some a =>
        cases keep : kept a with
        | false =>
          have none_ : a.lastCumulative.lookup chequebook = none := by
            rw [AList.lookup, (dropped a keep).2]
            rfl
          simp [Option.filter_some, keep, none_]
        | true => simp [Option.filter_some, keep, (same a (storable account a at_)).2.2.2]
    · funext chequebook
      exact keys chequebook

theorem file_of_persist_ok {path : String} (durable : l.path = some path) {fault : Option String}
    {file file' : Option OnDisk} (written : l.persist fault file = (file', .ok ())) : file' = some l.onDisk := by
  unfold persist at written
  rw [durable] at written
  cases fault with
  | none =>
    cases written
    rfl
  | some e => cases written

/-- A ledger that was written and is loaded again is the same to every observer, but that
nothing is reserved. -/
theorem persist_reload (l : Ledger) {path : String} (durable : l.path = some path)
    (u128 : ∀ account a, l.accounts.lookup account = some a → Storable a) {fault : Option String}
    {file file' : Option OnDisk} (written : l.persist fault file = (file', .ok ())) (entropy : Bytes 32)
    (fault' : Option String) :
    ∃ l', loadOrCreate path entropy fault' file' = (file', .ok l') ∧ l'.secret = l.secret ∧
      (∀ account, l'.owed account = l.owed account ∧ l'.reserved account = 0) ∧
      (∀ account chequebook, l'.lastCumulative account chequebook = l.lastCumulative account chequebook ∧
        l'.heldCheque account chequebook = l.heldCheque account chequebook) ∧
      ∀ chequebook, l'.binding.lookup chequebook = l.binding.lookup chequebook := by
  obtain ⟨l', read, same, secret, _⟩ := l.load_onDisk path u128
  have held : ∀ account chequebook, l'.heldCheque account chequebook = l.heldCheque account chequebook :=
    fun account chequebook => congrFun (congrFun (congrArg Book.held same) account) chequebook
  rw [file_of_persist_ok durable written]
  refine ⟨l', congrArg (Prod.mk _) read, secret, fun account => ⟨?_, ?_⟩, fun account chequebook => ⟨?_, ?_⟩, ?_⟩
  · exact congrFun (congrArg Book.owed same) account
  · exact congrFun (congrArg Book.reserved same) account
  · rw [lastCumulative, held, lastCumulative]
  · exact held account chequebook
  · exact congrFun (congrArg Book.bound same)

def paid : Account where
  reservedPlur := 5
  lastCumulative := AList.insert (Bytes.replicate 20 9) ⟨700, Bytes.replicate 65 1⟩ ∅

def paidUp : Ledger :=
  { accounts := (AList.insert (Bytes.replicate 20 1) paid ∅).insert (Bytes.replicate 20 2) { reservedPlur := 3 }
    binding := AList.insert (Bytes.replicate 20 9) (Bytes.replicate 20 1) ∅
    secret := Bytes.replicate 32 4
    path := some "ledger.json" }

theorem storable_paidUp (account : EthAddr) (a : Account) (found : paidUp.accounts.lookup account = some a) :
    Storable a := by
  rcases lookup_insert_cases found with ⟨-, rfl⟩ | ⟨-, found⟩
  · exact ⟨by decide, fun _ _ kept => nomatch kept⟩
  rcases lookup_insert_cases found with ⟨-, rfl⟩ | ⟨-, found⟩
  · refine ⟨by decide, fun chequebook h kept => ?_⟩
    rcases lookup_insert_cases kept with ⟨-, rfl⟩ | ⟨-, kept⟩
    · decide
    · exact nomatch kept
  · exact nomatch found

theorem persist_reload_paidUp :
    paidUp.lastCumulative (Bytes.replicate 20 1) (Bytes.replicate 20 9) = 700 ∧
      paidUp.reserved (Bytes.replicate 20 1) = 5 ∧
      ∃ l', loadOrCreate "ledger.json" (Bytes.replicate 32 0) none (paidUp.persist none none).1 =
          ((paidUp.persist none none).1, .ok l') ∧ l'.secret = paidUp.secret ∧
        (∀ account, l'.owed account = paidUp.owed account ∧ l'.reserved account = 0) ∧
        (∀ account chequebook, l'.lastCumulative account chequebook = paidUp.lastCumulative account chequebook ∧
          l'.heldCheque account chequebook = paidUp.heldCheque account chequebook) ∧
        ∀ chequebook, l'.binding.lookup chequebook = paidUp.binding.lookup chequebook :=
  have written : paidUp.persist none none = ((paidUp.persist none none).1, .ok ()) := rfl
  ⟨by decide +kernel, by decide +kernel, persist_reload paidUp rfl storable_paidUp written _ _⟩

end Ledger

theorem Metered.credit_spec (l : Ledger) (account chequebook : EthAddr) (cumulative : Nat)
    (signature : Bytes 65) (fault : Option String) (file : Option OnDisk) :
    (∃ l' e, Metered.credit l account chequebook cumulative signature fault file = (l', file, .error e) ∧
      l'.book = l.book ∧ l'.path = l.path) ∨
    (∃ l' file', Metered.credit l account chequebook cumulative signature fault file =
        (l', file', .ok (cumulative - l.lastCumulative account chequebook)) ∧
      l'.persist fault file = (file', .ok ()) ∧ l'.path = l.path ∧ cumulative ≤ maxCumulativePlur ∧
      (∀ a, l.book.bound chequebook = some a → a = account) ∧
      l.lastCumulative account chequebook < cumulative ∧
      cumulative - l.lastCumulative account chequebook ≤ l.owed account ∧
      l'.book = l.book.accept account chequebook { cumulativePlur := cumulative, signature }
        (cumulative - l.lastCumulative account chequebook)) := by
  unfold Metered.credit
  dsimp only
  rcases l.credit_cases account chequebook cumulative signature with
    ⟨l', e, out, same, kept⟩ | ⟨l', out, kept, small, free, above, within, known, book⟩
  · rw [out]
    exact .inl ⟨l', e, rfl, same, kept⟩
  rw [out]
  dsimp only
  cases written : l'.persist fault file with
  | mk file' answer =>
  cases answer with
  | ok => exact .inr ⟨l', file', rfl, written, kept, small, free, above, within, book⟩
  | error e =>
    have old : file' = file := l'.file_of_persist_error written
    subst old
    refine .inl ⟨_, _, rfl, ?_, by rw [Ledger.path_rollbackCredit, kept]⟩
    rw [Ledger.book_rollbackCredit known]
    have owed : l'.owed = Function.update l.owed account
        (l.owed account - (cumulative - l.lastCumulative account chequebook)) := congrArg Book.owed book
    have held : l'.heldCheque = Function.update l.heldCheque account
        (Function.update (l.heldCheque account) chequebook (some { cumulativePlur := cumulative, signature })) :=
      congrArg Book.held book
    have bound : l'.book.bound = Function.update l.book.bound chequebook (some account) :=
      congrArg Book.bound book
    ext1
    · dsimp only
      rw [owed, Function.update_idem, Function.update_eq_self]
      rfl
    · have reserved := congrArg Book.reserved book
      exact reserved
    · dsimp only
      rw [held, Function.update_self, Function.update_idem, Function.update_idem, Function.update_eq_self,
        Function.update_eq_self]
      rfl
    · dsimp only
      rw [bound, Function.update_idem]
      unfold Ledger.hadBinding
      cases found : l.binding.lookup chequebook with
      | none =>
        have back : Function.update l.book.bound chequebook none = l.book.bound := by
          rw [show (none : Option EthAddr) = l.book.bound chequebook from found.symm, Function.update_eq_self]
        exact back
      | some a =>
        have back : Function.update l.book.bound chequebook (some account) = l.book.bound := by
          rw [← free a found, show some a = l.book.bound chequebook from found.symm, Function.update_eq_self]
        exact back

theorem Metered.overpayment_of_credit {l : Ledger} {account chequebook : EthAddr} {cumulative : Nat}
    {signature : Bytes 65} {fault : Option String} {file : Option OnDisk} {got owed : Nat}
    (refused : (Metered.credit l account chequebook cumulative signature fault file).2.2 =
      .error (.overpayment got owed)) :
    l.owed account < cumulative - l.lastCumulative account chequebook := by
  suffices plain : (l.credit account chequebook cumulative signature).2 = .error (.overpayment got owed) from
    Ledger.overpayment_of_credit plain
  unfold Metered.credit at refused
  cases out : l.credit account chequebook cumulative signature with
  | mk l' answer =>
  rw [out] at refused
  cases answer with
  | error e => exact refused
  | ok accepted =>
    dsimp only at refused
    cases written : l'.persist fault file with
    | mk file' answer' =>
    rw [written] at refused
    cases answer' with
    | error e => cases refused
    | ok => cases refused

theorem Metered.credit_cases {l : Ledger} {path : String} (durable : l.path = some path)
    (account chequebook : EthAddr) (cumulative : Nat) (signature : Bytes 65) (fault : Option String)
    (file : Option OnDisk) :
    (∃ l' e, Metered.credit l account chequebook cumulative signature fault file = (l', file, .error e) ∧
      l'.book = l.book ∧ l'.path = l.path) ∨
    (∃ l', Metered.credit l account chequebook cumulative signature fault file =
        (l', some l'.onDisk, .ok (cumulative - l.lastCumulative account chequebook)) ∧
      fault = none ∧ l'.path = l.path ∧ cumulative ≤ maxCumulativePlur ∧
      (∀ a, l.book.bound chequebook = some a → a = account) ∧
      l.lastCumulative account chequebook < cumulative ∧
      cumulative - l.lastCumulative account chequebook ≤ l.owed account ∧
      l'.book = l.book.accept account chequebook { cumulativePlur := cumulative, signature }
        (cumulative - l.lastCumulative account chequebook)) := by
  rcases Metered.credit_spec l account chequebook cumulative signature fault file with
    refused | ⟨l', file', out, written, kept, rest⟩
  · exact .inl refused
  unfold Ledger.persist at written
  rw [kept, durable] at written
  cases fault with
  | none =>
    cases written
    exact .inr ⟨l', out, rfl, kept, rest⟩
  | some e => cases written

end Hoverfly.Relay
