import StakeLock.Queue

/-!
# Locking

Loading and saving of lockup accounts, and the three ways in which their locks
change. Each of them keeps the schedule, the queue and the aggregate in step
and returns the changed account, which its caller saves.
-/

namespace StakeLock

open StoreM

/-- Account numbers are below `2 ^ 64`; the counter may not reach the bound. -/
def accountNumberBound : Nat := 0x10000000000000000

/-- Registers a base account with the next account number. The account itself is not stored. -/
def newBaseAccount (address : Address) : StoreM BaseAccount := do
  let number := (← getStore).nextAccountNumber.getD 0
  if accountNumberBound ≤ number + 1 then abort
  modifyStore fun s => { s with nextAccountNumber := some (number + 1) }
  return ⟨address, none, number, 0⟩

def saveAccount (account : Account) : StoreM Unit := modifyStore fun s => s.putAccount account

def saveLockup (account : LockupAccount) : StoreM Unit := saveAccount (.lockup account)

def loadLockup (address : Address) : StoreM LockupAccount := do
  accept ((← getStore).lockup address)

/-- The account of an address as a lockup account, newly registered when there is none. -/
def loadOrUpgrade (address : Address) : StoreM LockupAccount := do
  match (← getStore).account? address with
  | some account => return account.upgrade
  | none => return ⟨← newBaseAccount address, Schedule.empty⟩

def addLock (account : LockupAccount) (date : Date) (amount : Amount) : StoreM LockupAccount := do
  let time ← accept (unlockTime date)
  let schedule ← acceptSystem (account.schedule.upsert date amount)
  Queue.add ⟨time, account.address⟩ amount
  Aggregate.increase amount
  note (.lockAdded account.address date amount)
  return { account with schedule := schedule }

/-- Moves the whole lock of one date to another. The aggregate stays as it is. -/
def moveLock (account : LockupAccount) (source target : Date) (amount : Amount) :
    StoreM LockupAccount := do
  let sourceTime ← accept (unlockTime source)
  let targetTime ← accept (unlockTime target)
  let schedule ← accept (account.schedule.shift source target amount)
  Queue.remove ⟨sourceTime, account.address⟩ amount
  Queue.add ⟨targetTime, account.address⟩ amount
  note (.lockMoved account.address source target amount)
  return { account with schedule := schedule }

/-- Takes the queue entry of an expired lock, unless a sweep has already done so. -/
def releaseLock (address : Address) (lock : Lock) : StoreM Unit :=
  match unlockTime? lock.date with
  | none => return
  | some time => do
    match ← Queue.take ⟨time, address⟩ with
    | some amount => Aggregate.decrease amount
    | none => return

/-- Drops the locks before the first one that is still locked, and returns them. -/
def expireLocks (account : LockupAccount) (now : Timestamp) :
    StoreM (List Lock × LockupAccount) := do
  let expired := account.schedule.expired now
  expired.forM (releaseLock account.address)
  if !expired.isEmpty then note (.locksExpired account.address expired.length)
  return (expired, { account with schedule := account.schedule.unexpired now })

end StakeLock
