import StakeLock.Backing
import StakeLock.Event
import StakeLock.Locking

/-!
# Chain state

Contract storage beside the host ledger. A call on the chain that fails keeps
everything written before the failure, on both sides.
-/

namespace StakeLock

structure Chain (σ : Type) where
  journal : Journal
  ledger : σ

namespace Chain

variable {σ : Type} (c : Chain σ)

def store : Store := c.journal.store

end Chain

structure Block where
  height : Nat
  time : Timestamp
deriving DecidableEq

abbrev ChainM (σ : Type) := EStateM (Fault LockError) (Chain σ)

namespace ChainM

variable {σ α : Type}

def onStore (call : StoreM α) : ChainM σ α := fun c =>
  match call.run c.journal with
  | .ok a journal => .ok a { c with journal := journal }
  | .error fault journal => .error fault { c with journal := journal }

def onLedger (call : HostM σ α) : ChainM σ α := fun c =>
  match call.run c.ledger with
  | .ok a ledger => .ok a { c with ledger := ledger }
  | .error fault ledger => .error (fault.map .system) { c with ledger := ledger }

def getStore : ChainM σ Store := return (← get).store

def getLedger : ChainM σ σ := return (← get).ledger

def ask (question : σ → Except SystemError α) : ChainM σ α := do
  acceptSystem (question (← getLedger))

/-- Goes on with the outcome of a call that only reads. -/
def ofCheck (outcome : Check α) : ChainM σ α :=
  match outcome with
  | .ok a => pure a
  | .error fault => throw fault

end ChainM

end StakeLock
