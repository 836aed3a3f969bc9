import StakeLock.Chain
import StakeLock.Setup

/-!
# Execution of requests

A request is checked as a whole before anything is changed, except that
payments are sent and delegated before their locks are checked against the
delegations.
-/

namespace StakeLock

open ChainM

variable {σ : Type}

def checkBondCoin (bondDenom : String) (coin : Coin) : Except LockError Unit :=
  if coin.amount.isZero then .error (.invalidAmount coin.text)
  else if coin.denom ≠ bondDenom then .error (.invalidDenom coin.denom bondDenom)
  else .ok ()

def LockEntry.check (entry : LockEntry) (config : Config) (bondDenom : String)
    (now : Timestamp) : Except LockError (Date × Amount) := do
  checkBondCoin bondDenom entry.amount
  let date ← parseDate entry.date
  checkUnlockWindow now date config.minMonths config.maxMonths
  return (date, entry.amount.amount)

/-- One whole lock to be moved to a later date. -/
structure Move where
  source : Date
  target : Date
  amount : Amount
deriving DecidableEq

def Extension.check (extension : Extension) (config : Config) (bondDenom : String)
    (now : Timestamp) : Except LockError Move := do
  checkBondCoin bondDenom extension.amount
  let source ← parseDate extension.source
  let target ← parseDate extension.target
  if target ≤ source then throw (.invalidExtension source target)
  if !isLocked now source then throw (.lockExpired source)
  checkMaxHorizon now target config.maxMonths
  return ⟨source, target, extension.amount.amount⟩

/-- A payment whose every part has been checked. -/
structure CheckedPayment where
  recipient : Address
  validator : String
  amount : Amount
  date : Date
deriving DecidableEq

def LockedPayment.check [HostLedger σ] [AddressRule] (payment : LockedPayment)
    (config : Config) (ledger : σ) (now : Timestamp) : Except LockError CheckedPayment := do
  let recipient ← Address.ofText payment.recipient
  if payment.amount.isZero then throw (.invalidAmount payment.amount.text)
  match ← (HostLedger.validator? ledger payment.validator).mapError .system with
  | none => throw (.validatorNotFound payment.validator)
  | some _ =>
    let date ← parseDate payment.date
    checkUnlockWindow now date config.minMonths config.maxMonths
    return ⟨recipient, payment.validator, payment.amount, date⟩

section

variable [HostLedger σ]

/-- Adds locks to an account. What is locked now and the new locks together
must be covered by delegations. -/
def lockDelegated (now : Timestamp) (address : Address) (locks : List (Date × Amount)) :
    ChainM σ Unit := do
  let account ← onStore (loadOrUpgrade address)
  let before ← orAbort (account.schedule.lockedAmount? now)
  let locked ← acceptSystem (before.sumFrom (locks.map Prod.snd))
  let delegated ← ofCheck (totalDelegated (← getLedger) address)
  if delegated < locked then refuse (.lockExceedsDelegations delegated locked)
  let account ← onStore (locks.foldlM (fun account l => addLock account l.1 l.2) account)
  onStore (saveLockup account)

def executeLock (now : Timestamp) (sender : Address) (entries : List LockEntry) :
    ChainM σ Response := do
  let config ← acceptSystem (← getStore).getConfig
  accept (config.checkEntryCount entries.length)
  let bondDenom ← ask HostLedger.bondDenom
  let locks ← accept (entries.mapM fun entry => entry.check config bondDenom now)
  lockDelegated now sender locks
  return ⟨[("action", "lock"), ("from", sender.text)],
    locks.map fun l => .locked sender l.1 ⟨bondDenom, l.2⟩⟩

def moveLocks (sender : Address) (bondDenom : String) :
    LockupAccount → List Move → StoreM (LockupAccount × List Event)
  | account, [] => return (account, [])
  | account, move :: moves => do
    let moved ← moveLock account move.source move.target move.amount
    let (account, events) ← moveLocks sender bondDenom moved moves
    return (account,
      .extended sender move.source move.target ⟨bondDenom, move.amount⟩ :: events)

def Schedule.shiftAll (schedule : Schedule) (moves : List Move) : Except LockError Schedule :=
  moves.foldlM (fun s move => s.shift move.source move.target move.amount) schedule

/-- All moves are tried on a copy of the schedule before the first one is made. -/
def executeExtend (now : Timestamp) (sender : Address) (extensions : List Extension) :
    ChainM σ Response := do
  let config ← acceptSystem (← getStore).getConfig
  accept (config.checkEntryCount extensions.length)
  let bondDenom ← ask HostLedger.bondDenom
  let moves ← accept (extensions.mapM fun extension => extension.check config bondDenom now)
  let account ← onStore (loadLockup sender)
  let _ ← accept (account.schedule.shiftAll moves)
  let (account, events) ← onStore (moveLocks sender bondDenom account moves)
  onStore (saveLockup account)
  return ⟨[("action", "extend"), ("from", sender.text)], events⟩

/-- Sends and delegates the funds of a payment, and locks them. -/
def pay (now : Timestamp) (sender : Address) (bondDenom : String) (payment : CheckedPayment) :
    ChainM σ (List Event) := do
  let funds : Coin := ⟨bondDenom, payment.amount⟩
  onLedger (HostLedger.sendCoins sender payment.recipient [funds])
  let shares ← onLedger (HostLedger.delegate payment.recipient payment.validator payment.amount)
  lockDelegated now payment.recipient [(payment.date, payment.amount)]
  return [.delegated payment.validator payment.recipient funds shares,
    .locked payment.recipient payment.date funds]

def payAll (now : Timestamp) (sender : Address) (bondDenom : String) :
    List CheckedPayment → ChainM σ (List Event)
  | [] => return []
  | payment :: payments => do
    let first ← pay now sender bondDenom payment
    let rest ← payAll now sender bondDenom payments
    return first ++ rest

variable [AddressRule]

def executePay (now : Timestamp) (sender : Address) (payment : LockedPayment) :
    ChainM σ Response := do
  let config ← acceptSystem (← getStore).getConfig
  let bondDenom ← ask HostLedger.bondDenom
  let checked ← accept (payment.check config (← getLedger) now)
  let events ← pay now sender bondDenom checked
  return ⟨[("action", "send_delegate_and_lock"), ("from", sender.text)], events⟩

def executePayMany (now : Timestamp) (sender : Address) (total : Amount)
    (payments : List LockedPayment) : ChainM σ Response := do
  let config ← acceptSystem (← getStore).getConfig
  accept (config.checkEntryCount payments.length)
  let sum ← acceptSystem (Amount.zero.sumFrom (payments.map LockedPayment.amount))
  if sum ≠ total then refuse (.totalMismatch total sum)
  let ledger ← getLedger
  let checked ← accept (payments.mapM fun payment => payment.check config ledger now)
  let bondDenom ← ask HostLedger.bondDenom
  let events ← payAll now sender bondDenom checked
  return ⟨[("action", "multi_send_delegate_and_lock"), ("from", sender.text),
    ("outputs", Nat.repr checked.length)], events⟩

def execute (now : Timestamp) (sender : Address) : Request → ChainM σ Response
  | .lock entries => executeLock now sender entries
  | .extend extensions => executeExtend now sender extensions
  | .pay payment => executePay now sender payment
  | .payMany total payments => executePayMany now sender total payments
  | .updateConfig change => onStore (updateConfig sender change)

end

end StakeLock
