import StakeLock.Host.Ledger
import StakeLock.Store
import StakeLock.Transaction

/-!
# Backing of locked value

Locked value has to be covered by delegations. What is not covered, the
shortfall, must stay in the account as liquid balance: it may neither be spent
nor be created by undelegating.
-/

namespace StakeLock

structure Backing where
  locked : Amount
  delegated : Amount
deriving DecidableEq

namespace Backing

variable (b : Backing)

def fullyBacked : Bool := b.locked ≤ b.delegated

def shortfall : Amount := b.locked - b.delegated

/-- The part of a balance that is not needed to cover the shortfall. -/
def available (balance : Amount) : Amount := balance - b.shortfall

/-- Undelegating must leave at least the locked value delegated. -/
def allowsUndelegation (amount : Amount) : Bool :=
  match b.delegated.sub? amount with
  | some rest => b.locked ≤ rest
  | none => false

end Backing

section

variable {σ : Type} [HostLedger σ]

/-- The locked value of an account now, and what its address has delegated. -/
def LockupAccount.backing (account : LockupAccount) (ledger : σ) (now : Timestamp) :
    Check Backing := do
  let locked ← Check.orAbort (account.schedule.lockedAmount? now)
  let delegated ← totalDelegated ledger account.address
  return ⟨locked, delegated⟩

/-- The state against which the messages of a transaction are checked, which is
the state before the first of them runs. -/
structure BackingContext (σ : Type) where
  store : Store
  ledger : σ
  now : Timestamp
  bondDenom : String

namespace BackingContext

variable (ctx : BackingContext σ)

variable [AddressRule]

def lockup? (address : String) : Check (Option LockupAccount) := do
  let address ← Check.ofResult (Address.ofText address)
  return ctx.store.lockup? address

/-- A bond coin has to fit into the part of the balance that covers no shortfall. -/
def checkCoin (address : Address) (backing : Backing) (coin : Coin) : Check Unit :=
  if coin.denom = ctx.bondDenom then do
    let balance ← Check.ofSystem (HostLedger.balance ctx.ledger address coin.denom)
    let available := backing.available balance
    if available < coin.amount then
      Check.refuse (.insufficientUnlockedBalance available coin.amount)
  else return

def checkSpend (spender : String) (coins : List Coin) : Check Unit := do
  match ← ctx.lockup? spender with
  | none => return
  | some account =>
    let backing ← account.backing ctx.ledger ctx.now
    if backing.fullyBacked then return
    coins.forM (ctx.checkCoin account.address backing)

def checkUndelegate (delegator : String) (amount : Amount) : Check Unit := do
  match ← ctx.lockup? delegator with
  | none => return
  | some account =>
    let backing ← account.backing ctx.ledger ctx.now
    if backing.allowsUndelegation amount then return
    else Check.refuse (.undelegateBelowLocked backing.delegated amount backing.locked)

def checkDemand : Demand → Check Unit
  | .spend spender coins => ctx.checkSpend spender coins
  | .undelegate delegator amount => ctx.checkUndelegate delegator amount.amount

mutual

/-- Checks the messages that are run for others, or the demands of the message itself. -/
def checkMsg : TxMsg → Check Unit
  | .exec _ msgs => checkMsgs msgs
  | msg => (msg.demands ctx.bondDenom).forM ctx.checkDemand

def checkMsgs : List TxMsg → Check Unit
  | [] => return
  | msg :: msgs => do
    checkMsg msg
    checkMsgs msgs

end

end BackingContext

end

end StakeLock
