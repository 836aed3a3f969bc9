import StakeLock.Address
import StakeLock.Schedule

/-!
# Accounts

A base account holds what identifies an account. A lockup account is one with
a lock schedule; upgrading keeps the identity.
-/

namespace StakeLock

structure BaseAccount where
  address : Address
  publicKey : Option (List UInt8)
  number : Nat
  sequence : Nat
deriving DecidableEq

structure LockupAccount where
  base : BaseAccount
  schedule : Schedule
deriving DecidableEq

def LockupAccount.address (a : LockupAccount) : Address := a.base.address

inductive Account where
  | base (account : BaseAccount)
  | lockup (account : LockupAccount)
deriving DecidableEq

namespace Account

def address : Account → Address
  | base account => account.address
  | lockup account => account.address

def identity : Account → BaseAccount
  | base account => account
  | lockup account => account.base

def lockup? : Account → Option LockupAccount
  | base _ => none
  | lockup account => some account

/-- An upgraded account starts with no locks. -/
def upgrade : Account → LockupAccount
  | base account => ⟨account, Schedule.empty⟩
  | lockup account => account

end Account

end StakeLock
