import StakeLock.Account
import StakeLock.Config
import StakeLock.Notice
import StakeLock.Table

/-!
# Contract storage

The stored values, and the calls that read and change them. A call that fails
leaves every earlier change in place; discarding them is up to the caller.
-/

namespace StakeLock

/-- The expiration queue is ordered by unlock time, then by address. -/
structure QueueKey where
  time : Nat
  address : Address
deriving DecidableEq

namespace QueueKey

instance : Ord QueueKey := ⟨fun a b => (compare a.time b.time).then (compare a.address b.address)⟩

theorem compare_def (a b : QueueKey) :
    compare a b = (compare a.time b.time).then (compare a.address b.address) := rfl

instance : Std.TransOrd QueueKey :=
  inferInstanceAs (Std.TransCmp (compareLex (compareOn time) (compareOn address)))

instance : Std.LawfulEqOrd QueueKey where
  eq_of_compare {a b} h := by
    cases a; cases b
    simp only [compare_def, Ordering.then_eq_eq, Std.LawfulEqCmp.compare_eq_iff_eq] at h
    rw [h.1, h.2]

end QueueKey

/-- A queued amount, or contents that do not decode to one. -/
inductive QueueEntry where
  | holds (amount : Amount)
  | garbled
deriving DecidableEq

def QueueEntry.read : QueueEntry → Except SystemError Amount
  | holds amount => .ok amount
  | garbled => .error .unreadable

structure Version where
  contract : String
  version : String
deriving DecidableEq

structure Store where
  version : Option Version
  config : Option Config
  accounts : Table Address Account
  nextAccountNumber : Option Nat
  queue : Table QueueKey QueueEntry
  totalLocked : Option Amount
deriving DecidableEq

namespace Store

def empty : Store := ⟨none, none, .empty, none, .empty, none⟩

instance : Inhabited Store := ⟨empty⟩

variable (s : Store)

def account? (address : Address) : Option Account := s.accounts.get? address

def lockup? (address : Address) : Option LockupAccount := (s.account? address).bind Account.lockup?

def lockup (address : Address) : Except LockError LockupAccount :=
  match s.lockup? address with
  | some account => .ok account
  | none => .error (.invalidAccount address.text)

/-- Accounts are stored under their own addresses. -/
def putAccount (account : Account) : Store :=
  { s with accounts := s.accounts.insert account.address account }

def getConfig : Except SystemError Config :=
  match s.config with
  | some config => .ok config
  | none => .error (.notFound "cw_disper_lockup::state::Config")

/-- The aggregate is zero until it is first stored. -/
def total : Amount := s.totalLocked.getD Amount.zero

def queued? (key : QueueKey) : Except SystemError (Option Amount) :=
  match s.queue.get? key with
  | some entry => entry.read.map some
  | none => .ok none

/-- Decodes entries one by one; the first that fails decides. -/
def readEntries : List (QueueKey × QueueEntry) → Except SystemError (List (QueueKey × Amount))
  | [] => .ok []
  | (key, entry) :: rest => do
    let amount ← entry.read
    let amounts ← readEntries rest
    return (key, amount) :: amounts

def dueEntries (seconds : Nat) : Except SystemError (List (QueueKey × Amount)) :=
  readEntries (s.queue.entries.filter fun e => e.1.time ≤ seconds)

/-- The sum over the whole queue, to compare with the aggregate. -/
def queuedTotal : Except SystemError Amount := do
  let entries ← readEntries s.queue.entries
  Amount.sumFrom Amount.zero (entries.map Prod.snd)

end Store

/-- The store during a call, with the notices given so far. -/
structure Journal where
  store : Store
  notices : List Notice

/-- Calls on the store keep what they wrote when they fail. -/
abbrev StoreM := EStateM (Fault LockError) Journal

section

variable {σ α : Type}

def refuse (reason : LockError) : EStateM (Fault LockError) σ α := throw (.refused reason)

def abort : EStateM (Fault LockError) σ α := throw .aborted

/-- Goes on with a checked result. -/
def accept (result : Except LockError α) : EStateM (Fault LockError) σ α :=
  match result with
  | .ok a => pure a
  | .error reason => refuse reason

def acceptSystem (result : Except SystemError α) : EStateM (Fault LockError) σ α :=
  match result with
  | .ok a => pure a
  | .error cause => refuse (.system cause)

/-- Goes on with a result whose absence ends the call. -/
def orAbort (result : Option α) : EStateM (Fault LockError) σ α :=
  match result with
  | some a => pure a
  | none => abort

end

namespace StoreM

def getStore : StoreM Store := return (← get).store

def modifyStore (f : Store → Store) : StoreM Unit :=
  modify fun j => { j with store := f j.store }

def note (notice : Notice) : StoreM Unit :=
  modify fun j => { j with notices := j.notices ++ [notice] }

end StoreM

end StakeLock
