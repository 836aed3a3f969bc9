import StakeLock.Host.Ledger
import StakeLock.Table

/-!
# Books of a ledger

Balances, validators and delegations in ordered tables. The ledgers that keep
such books differ in how they answer when an amount leaves its range.
-/

namespace StakeLock

/-- What an address holds of something: of a denomination, or with a validator. -/
structure Holding where
  holder : Address
  item : String
deriving DecidableEq

namespace Holding

instance : Ord Holding := ⟨fun a b => (compare a.holder b.holder).then (compare a.item b.item)⟩

theorem compare_def (a b : Holding) :
    compare a b = (compare a.holder b.holder).then (compare a.item b.item) := rfl

instance : Std.TransOrd Holding :=
  inferInstanceAs (Std.TransCmp (compareLex (compareOn holder) (compareOn item)))

instance : Std.LawfulEqOrd Holding where
  eq_of_compare {a b} h := by
    cases a; cases b
    simp only [compare_def, Ordering.then_eq_eq, Std.LawfulEqCmp.compare_eq_iff_eq] at h
    rw [h.1, h.2]

end Holding

structure Books where
  denom : String
  balances : Table Holding Amount
  validators : Table String Validator
  delegations : Table Holding Shares
deriving DecidableEq

namespace Books

def empty (denom : String) : Books := ⟨denom, .empty, .empty, .empty⟩

variable (b : Books)

def balance (address : Address) (denom : String) : Amount :=
  (b.balances.get? ⟨address, denom⟩).getD Amount.zero

def setBalance (address : Address) (denom : String) (amount : Amount) : Books :=
  { b with balances := b.balances.insert ⟨address, denom⟩ amount }

def putValidator (name : String) (v : Validator) : Books :=
  { b with validators := b.validators.insert name v }

def setValidator (v : Validator) : Books := b.putValidator v.address v

def shares (delegator : Address) (validator : String) : Shares :=
  (b.delegations.get? ⟨delegator, validator⟩).getD Shares.zero

def setDelegation (delegator : Address) (validator : String) (shares : Shares) : Books :=
  { b with delegations := b.delegations.insert ⟨delegator, validator⟩ shares }

/-- The first delegations of an address in the order of their validators. -/
def delegationsOf (delegator : Address) (limit : Nat) : List Delegation :=
  ((b.delegations.entries.filter fun e => e.1.holder = delegator).take limit).map
    fun e => ⟨e.1.item, e.2⟩

/-- Bonds an amount with the validator of a name, unless an amount leaves its range. -/
def bond? (delegator : Address) (name : String) (v : Validator) (amount : Amount) :
    Option (Shares × Books) := do
  let new ← v.sharesForTokens? amount
  let tokens ← v.tokens.add? amount
  let total ← v.shares.add? new
  let held ← (b.shares delegator name).add? new
  return (new, (b.putValidator name { v with tokens := tokens, shares := total }).setDelegation
    delegator name held)

end Books

end StakeLock
