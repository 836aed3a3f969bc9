import StakeLock.Host.Ledger
import StakeLock.Store

/-!
# Queries

Questions about the stored state, with the rules of paging: active locks come
in the order of the queue, after a cursor, before a date, and at most so many.
-/

namespace StakeLock

/-- The lock that a page starts after. -/
structure LockCursor where
  date : String
  address : String
deriving DecidableEq

inductive Query where
  | config
  | totalLocked
  | activeLocks (after : Option LockCursor) (limit : Option Nat) (before : Option String)
  | locks (address : String)
  | locksForAddresses (addresses : List String)
deriving DecidableEq

structure ActiveLock where
  address : Address
  date : Date
  amount : Coin
deriving DecidableEq

structure AccountLocks where
  address : Address
  locks : List Lock
deriving DecidableEq

inductive Answer where
  | config (config : Config)
  | totalLocked (total : Coin)
  | activeLocks (locks : List ActiveLock)
  | locks (locks : AccountLocks)
  | locksForAddresses (accounts : List AccountLocks)
deriving DecidableEq

namespace Query

def defaultLimit : Nat := 100

def maxLimit : Nat := 1000

def unlockTimeOf (text : String) : Except SystemError Nat :=
  ((parseDate text).bind unlockTime).mapError fun reason => .generic reason.message

def cursorKey [AddressRule] (cursor : LockCursor) : Except SystemError QueueKey := do
  let time ← unlockTimeOf cursor.date
  let address ← AddressRule.validate cursor.address
  return ⟨time, address⟩

structure DatedEntry where
  key : QueueKey
  date : Date
  amount : Amount
deriving DecidableEq

/-- Entries that lie beyond the last date are left out, those that do not decode are kept. -/
def datedEntries (entries : List (QueueKey × QueueEntry)) : List (Except SystemError DatedEntry) :=
  entries.filterMap fun e =>
    match e.2.read with
    | .error cause => some (.error cause)
    | .ok amount => (dateOfUnlockTime? e.1.time).map fun date => .ok ⟨e.1, date, amount⟩

/-- An entry that a page may begin after, since its lock has ended. -/
def isPast (now : Timestamp) : Except SystemError DatedEntry → Bool
  | .ok e => !isLocked now e.date
  | .error _ => false

/-- An entry that may still be on a page with an upper bound. -/
def isWithin (before : Option Nat) : Except SystemError DatedEntry → Bool
  | .ok e => before.all fun time => e.key.time < time
  | .error _ => true

/-- The entries of one page, all of which have to decode. -/
def page (s : Store) (now : Timestamp) (after : Option QueueKey) (limit : Nat)
    (before : Option Nat) : Except SystemError (List DatedEntry) :=
  let later := match after with
    | some key => s.queue.entries.filter fun e => compare key e.1 == .lt
    | none => s.queue.entries
  let entries := ((datedEntries later).dropWhile (isPast now)).takeWhile (isWithin before)
  (entries.take limit).mapM id

def accountLocks [AddressRule] (s : Store) (now : Timestamp) (text : String) :
    Except SystemError AccountLocks := do
  let address ← AddressRule.validate text
  match s.lockup? address with
  | some account => return ⟨address, account.schedule.active now⟩
  | none => return ⟨address, []⟩

section

variable {σ : Type} [HostLedger σ] [AddressRule]

def listActive (s : Store) (ledger : σ) (now : Timestamp) (after : Option LockCursor)
    (limit : Option Nat) (before : Option String) : Except SystemError (List ActiveLock) := do
  let limit := min (limit.getD defaultLimit) maxLimit
  let bondDenom ← HostLedger.bondDenom ledger
  let after ← after.mapM cursorKey
  let before ← before.mapM unlockTimeOf
  let entries ← page s now after limit before
  return entries.map fun e => ⟨e.key.address, e.date, ⟨bondDenom, e.amount⟩⟩

def answer (s : Store) (ledger : σ) (now : Timestamp) : Query → Except SystemError Answer
  | config => s.getConfig.map .config
  | totalLocked => do
    let bondDenom ← HostLedger.bondDenom ledger
    return .totalLocked ⟨bondDenom, s.total⟩
  | activeLocks after limit before =>
    (listActive s ledger now after limit before).map .activeLocks
  | locks address => (accountLocks s now address).map .locks
  | locksForAddresses addresses => (addresses.mapM (accountLocks s now)).map .locksForAddresses

end

end Query

end StakeLock
