import StakeLock.Chain

/-!
# Hooks of the host

Calls that the host makes before and after every transaction and at the end of
every block. The first one only checks; the other two clear away expired locks,
one in the account of the fee payer, the other in the queue.
-/

namespace StakeLock

open ChainM

inductive Hook where
  | beforeTx (tx : Tx)
  | afterTx (tx : Tx) (simulate success : Bool)
  | endBlock

variable {σ : Type} [HostLedger σ] [AddressRule]

/-- Refuses a transaction that would move locked value which delegations do not cover. -/
def checkTx (block : Block) (tx : Tx) : ChainM σ Unit := do
  let bondDenom ← ask HostLedger.bondDenom
  let ctx : BackingContext σ := ⟨← getStore, ← getLedger, block.time, bondDenom⟩
  match ctx.checkMsgs tx.msgs with
  | .ok () => return
  | .error .aborted => abort
  | .error (.refused reason) =>
    let signer := (tx.msgs.head?.map TxMsg.signer).getD ""
    onStore (StoreM.note (.transactionRejected block.height signer reason))
    refuse reason

/-- The fee payer and its account, when the transaction was run and the payer has a schedule. -/
def lockupPayer? (store : Store) (tx : Tx) (simulate success : Bool) :
    Option (Address × LockupAccount) := do
  if simulate || !success then none
  let address ← (AddressRule.validate (← tx.payer?)).toOption
  return (address, ← store.lockup? address)

/-- Drops the expired locks of the fee payer. Nothing is saved when there are none. -/
def clearPayer (now : Timestamp) (tx : Tx) (simulate success : Bool) : StoreM Response := do
  let attributes := [("action", "post_handle")]
  match lockupPayer? (← StoreM.getStore) tx simulate success with
  | none => return ⟨attributes, []⟩
  | some (address, account) =>
    let (expired, account) ← expireLocks account now
    if expired.isEmpty then return ⟨attributes, []⟩
    saveLockup account
    return ⟨attributes, expired.map fun l => .expired address (.date l.date) l.amount⟩

def releaseEntry (done : Amount × List Event) (key : QueueKey) (amount : Amount) :
    Except LockError (Amount × List Event) := do
  let total ← (done.1.checkedSub amount).mapError .system
  return (total, done.2 ++ [.expired key.address (.ofTime key.time) amount])

/-- Removes the due entries from the queue. The schedules keep their expired
locks, which no longer count. -/
def endBlock (block : Block) : StoreM Response := do
  let total := (← StoreM.getStore).total
  let sweep ← Sweep.run block.time releaseEntry (total, [])
  if let some reason := sweep.halted then refuse reason
  let (total, events) := sweep.gathered
  if 0 < sweep.count then
    Aggregate.put total
    StoreM.note (.locksSwept block.height sweep.count total)
  return ⟨[("action", "end_block"), ("swept", Nat.repr sweep.count)], events⟩

def runHook (block : Block) : Hook → ChainM σ Response
  | .beforeTx tx => do
    checkTx block tx
    return ⟨[("action", "ante_handle")], []⟩
  | .afterTx tx simulate success => onStore (clearPayer block.time tx simulate success)
  | .endBlock => onStore (endBlock block)

end StakeLock
