import Hoverfly.Lib.Map
import Hoverfly.Lib.Word

/-! The relay's payment ledger and its file. Amounts are PLUR in a `u128`. The
file is kept as the values its hex, decimal and JSON text stands for. -/
namespace Hoverfly.Relay
open Lib

abbrev EthAddr := Bytes 20

def maxCumulativePlur : Nat := 10 ^ 30

inductive LedgerError where
  | notIncreasing (got held : Nat)
  | chequebookBound (chequebook : EthAddr)
  | absurd (cumulative : Nat)
  | overpayment (got owed : Nat)
  | store (error : String)
deriving DecidableEq

inductive StoreError where
  | io (error : String)
deriving DecidableEq

structure Admission where
  reservedPlur : Nat
  /-- `owed + reserved` after this reservation. -/
  outstandingPlur : Nat
  capPlur : Nat
  overCap : Bool
deriving DecidableEq

structure HeldCheque where
  cumulativePlur : Nat
  signature : Bytes 65
deriving DecidableEq

structure Account where
  owedPlur : Nat := 0
  /-- Not in the file. -/
  reservedPlur : Nat := 0
  lastCumulative : AList (fun _ : EthAddr => HeldCheque) := ∅

def Account.outstanding (a : Account) : Nat := satAdd 128 a.owedPlur a.reservedPlur

structure Ledger where
  accounts : AList (fun _ : EthAddr => Account)
  binding : AList (fun _ : EthAddr => EthAddr)
  secret : Bytes 32
  path : Option String

structure OnDiskAccount where
  account : List UInt8
  owedPlur : Nat
  /-- Chequebook, cumulative and signature. -/
  lastCumulative : List (List UInt8 × Nat × List UInt8)
deriving DecidableEq

structure OnDisk where
  version : Nat
  secret : List UInt8
  accounts : List OnDiskAccount
  binding : List (List UInt8 × List UInt8)
deriving DecidableEq

def parseAddr (raw : List UInt8) : Except StoreError EthAddr :=
  if h : raw.length = 20 then .ok ⟨raw, h⟩ else .error (.io "address must be 20 bytes")

def parseU128 (n : Nat) : Except StoreError Nat :=
  if n < 2 ^ 128 then .ok n else .error (.io "u128 parse: number too large to fit in target type")

/-- Hex text compares as the bytes do. -/
def bytesLe (a b : List UInt8) : Bool := decide (a ≤ b)

namespace Ledger

def ephemeral (entropy : Bytes 32) : Ledger :=
  { accounts := ∅, binding := ∅, secret := entropy, path := none }

def chequesOnDisk (a : Account) : List (List UInt8 × Nat × List UInt8) :=
  (a.lastCumulative.entries.map fun e => (e.1.val, e.2.cumulativePlur, e.2.signature.val)).mergeSort
    fun a b => bytesLe a.1 b.1

def accountOnDisk (account : EthAddr) (a : Account) : OnDiskAccount :=
  { account := account.val, owedPlur := a.owedPlur, lastCumulative := chequesOnDisk a }

/-- An account with no debt and no cheque is left out. -/
def onDisk (l : Ledger) : OnDisk where
  version := 2
  secret := l.secret.val
  accounts := ((l.accounts.entries.filter fun e => e.2.owedPlur > 0 || e.2.lastCumulative.entries ≠ []).map
    fun e => accountOnDisk e.1 e.2).mergeSort fun a b => bytesLe a.account b.account
  binding := (l.binding.entries.map fun e => (e.1.val, e.2.val)).mergeSort fun a b => bytesLe a.1 b.1

/-- `fault` is what the file system answers to the write or the rename. The rename is
atomic: either the whole new state is in the file or the old one still is. -/
def persist (l : Ledger) (fault : Option String) (file : Option OnDisk) :
    Option OnDisk × Except StoreError Unit :=
  match l.path with
  | none => (file, .ok ())
  | some _ =>
    match fault with
    | some e => (file, .error (.io e))
    | none => (some l.onDisk, .ok ())

/- An entry without a signature is kept, so that its cheque cannot be replayed, with the
signature zeroed, so that it is not cashed. -/
def loadCheque (entry : List UInt8 × Nat × List UInt8) : Except StoreError (EthAddr × HeldCheque) := do
  let signature : Bytes 65 :=
    if h : entry.2.2.length = 65 then ⟨entry.2.2, h⟩ else Bytes.replicate 65 0
  let chequebook ← parseAddr entry.1
  let cumulativePlur ← parseU128 entry.2.1
  return (chequebook, { cumulativePlur, signature })

def loadAccount (entry : OnDiskAccount) : Except StoreError (EthAddr × Account) := do
  let account ← parseAddr entry.account
  let cheques ← entry.lastCumulative.mapM loadCheque
  let owedPlur ← parseU128 entry.owedPlur
  return (account, { owedPlur, reservedPlur := 0, lastCumulative := insertAll ∅ cheques })

def loadBinding (entry : List UInt8 × List UInt8) : Except StoreError (EthAddr × EthAddr) := do
  return (← parseAddr entry.1, ← parseAddr entry.2)

def load (path : String) (disk : OnDisk) : Except StoreError Ledger :=
  if disk.version ≠ 1 ∧ disk.version ≠ 2 then .error (.io s!"unsupported ledger version {disk.version}")
  else if h : disk.secret.length = 32 then do
    let accounts ← disk.accounts.mapM loadAccount
    let binding ← disk.binding.mapM loadBinding
    return { accounts := insertAll ∅ accounts, binding := insertAll ∅ binding,
             secret := ⟨disk.secret, h⟩, path := some path }
  else .error (.io s!"relay secret must be 32 bytes, got {disk.secret.length}")

def loadOrCreate (path : String) (entropy : Bytes 32) (fault : Option String) (file : Option OnDisk) :
    Option OnDisk × Except StoreError Ledger :=
  match file with
  | some disk => (file, load path disk)
  | none =>
    let fresh := { ephemeral entropy with path := some path }
    let (file, written) := fresh.persist fault none
    (file, written.map fun _ => fresh)

def owed (l : Ledger) (account : EthAddr) : Nat := ((l.accounts.lookup account).map (·.owedPlur)).getD 0
def reserved (l : Ledger) (account : EthAddr) : Nat :=
  ((l.accounts.lookup account).map (·.reservedPlur)).getD 0
def outstanding (l : Ledger) (account : EthAddr) : Nat :=
  ((l.accounts.lookup account).map Account.outstanding).getD 0

def heldCheque (l : Ledger) (account chequebook : EthAddr) : Option HeldCheque :=
  (l.accounts.lookup account).bind (·.lastCumulative.lookup chequebook)

def lastCumulative (l : Ledger) (account chequebook : EthAddr) : Nat :=
  ((l.heldCheque account chequebook).map (·.cumulativePlur)).getD 0

def hadBinding (l : Ledger) (chequebook : EthAddr) : Bool := (l.binding.lookup chequebook).isSome

def putAccount (l : Ledger) (account : EthAddr) (a : Account) : Ledger :=
  { l with accounts := l.accounts.insert account a }

def entry (l : Ledger) (account : EthAddr) : Account := (l.accounts.lookup account).getD {}

def restoreCheque (held : AList (fun _ : EthAddr => HeldCheque)) (chequebook : EthAddr) :
    Option HeldCheque → AList (fun _ : EthAddr => HeldCheque)
  | some h => held.insert chequebook h
  | none => held.erase chequebook

def rollbackCredit (l : Ledger) (account chequebook : EthAddr) (prevOwed : Nat)
    (prevHeld : Option HeldCheque) (hadBinding : Bool) : Ledger :=
  let l := match l.accounts.lookup account with
    | none => l
    | some a => l.putAccount account { a with
        owedPlur := prevOwed, lastCumulative := restoreCheque a.lastCumulative chequebook prevHeld }
  if hadBinding then l else { l with binding := l.binding.erase chequebook }

def liveReservations (l : Ledger) : Nat := l.accounts.entries.countP (·.2.reservedPlur > 0)

/-- Always reserves, and reports whether the account went over its line. -/
def reserve (l : Ledger) (account : EthAddr) (amount cap : Nat) : Ledger × Admission :=
  let a := l.entry account
  let a := { a with reservedPlur := satAdd 128 a.reservedPlur amount }
  (l.putAccount account a,
    { reservedPlur := amount, outstandingPlur := a.outstanding, capPlur := cap,
      overCap := a.outstanding > cap })

def release (l : Ledger) (account : EthAddr) (amount : Nat) : Ledger :=
  match l.accounts.lookup account with
  | none => l
  | some a => l.putAccount account { a with reservedPlur := a.reservedPlur - amount }

def commit (l : Ledger) (account : EthAddr) (reserved billed : Nat) : Ledger :=
  let a := l.entry account
  l.putAccount account { a with
    reservedPlur := a.reservedPlur - reserved, owedPlur := satAdd 128 a.owedPlur billed }

def credit (l : Ledger) (account chequebook : EthAddr) (cumulativePlur : Nat) (signature : Bytes 65) :
    Ledger × Except LedgerError Nat :=
  if cumulativePlur > maxCumulativePlur then (l, .error (.absurd cumulativePlur))
  else if (l.binding.lookup chequebook).any (· ≠ account) then (l, .error (.chequebookBound chequebook))
  else
    let a := l.entry account
    let l := l.putAccount account a
    let held := ((a.lastCumulative.lookup chequebook).map (·.cumulativePlur)).getD 0
    if cumulativePlur ≤ held then (l, .error (.notIncreasing cumulativePlur held))
    else
      let delta := cumulativePlur - held
      if delta > a.owedPlur then (l, .error (.overpayment delta a.owedPlur))
      else
        let l := l.putAccount account { a with
          lastCumulative := a.lastCumulative.insert chequebook { cumulativePlur, signature }
          owedPlur := a.owedPlur - delta }
        ({ l with binding := l.binding.insert chequebook account }, .ok delta)

end Ledger

/-- The cheque counts only once it is on disk. -/
def Metered.credit (l : Ledger) (account chequebook : EthAddr) (cumulative : Nat) (signature : Bytes 65)
    (fault : Option String) (file : Option OnDisk) :
    Ledger × Option OnDisk × Except LedgerError Nat :=
  let prevOwed := l.owed account
  let prevHeld := l.heldCheque account chequebook
  let hadBinding := l.hadBinding chequebook
  match l.credit account chequebook cumulative signature with
  | (l, .error e) => (l, file, .error e)
  | (l, .ok accepted) =>
    match l.persist fault file with
    | (file, .error (.io e)) =>
      (l.rollbackCredit account chequebook prevOwed prevHeld hadBinding, file, .error (.store ("io: " ++ e)))
    | (file, .ok ()) => (l, file, .ok accepted)

end Hoverfly.Relay
