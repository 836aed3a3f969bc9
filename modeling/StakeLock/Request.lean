import StakeLock.Coin

/-!
# Requests

What an account may ask of the engine. Dates and addresses are texts that the
engine still has to check.
-/

namespace StakeLock

structure LockEntry where
  date : String
  amount : Coin
deriving DecidableEq

structure Extension where
  source : String
  target : String
  amount : Coin
deriving DecidableEq

/-- Funds to be sent, delegated in the name of the recipient, and locked there. -/
structure LockedPayment where
  recipient : String
  validator : String
  amount : Amount
  date : String
deriving DecidableEq

/-- Values of a configuration; those left out keep their old or default value. -/
structure ConfigChange where
  authority : Option String
  minMonths : Option Nat
  maxMonths : Option Nat
  maxEntries : Option Nat
deriving DecidableEq

inductive Request where
  /-- Locks delegated funds of the sender. -/
  | lock (entries : List LockEntry)
  /-- Moves whole locks of the sender to later dates. -/
  | extend (extensions : List Extension)
  | pay (payment : LockedPayment)
  /-- Several payments, whose amounts add up to the total. -/
  | payMany (total : Amount) (payments : List LockedPayment)
  | updateConfig (change : ConfigChange)
deriving DecidableEq

/-- What a request takes from the liquid funds of its sender. -/
def Request.funds? (bondDenom : String) : Request → Option Coin
  | pay payment => some ⟨bondDenom, payment.amount⟩
  | payMany total _ => some ⟨bondDenom, total⟩
  | lock _ | extend _ | updateConfig _ => none

end StakeLock
