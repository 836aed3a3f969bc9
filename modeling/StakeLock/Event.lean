import StakeLock.Address
import StakeLock.Clock
import StakeLock.Coin
import StakeLock.Shares

/-!
# Events

What a successful call announces.
-/

namespace StakeLock

/-- How an expired queue entry names its day: by date, or by its time beyond the last date. -/
inductive ExpiryDay where
  | date (date : Date)
  | seconds (time : Nat)
deriving DecidableEq

namespace ExpiryDay

def ofTime (time : Nat) : ExpiryDay :=
  match dateOfUnlockTime? time with
  | some d => date d
  | none => seconds time

def text : ExpiryDay → String
  | date d => d.text
  | seconds time => Nat.repr time

end ExpiryDay

inductive Event where
  | delegated (validator : String) (delegator : Address) (amount : Coin) (shares : Shares)
  | locked (address : Address) (date : Date) (amount : Coin)
  | extended (address : Address) (source target : Date) (amount : Coin)
  | expired (address : Address) (day : ExpiryDay) (amount : Amount)
deriving DecidableEq

namespace Event

def name : Event → String
  | delegated .. => "delegate"
  | locked .. => "lock"
  | extended .. => "extend_lock"
  | expired .. => "expire_lock"

def attributes : Event → List (String × String)
  | delegated validator delegator amount shares =>
    [("validator", validator), ("delegator", delegator.text), ("amount", amount.text),
      ("new_shares", shares.text)]
  | locked address date amount =>
    [("address", address.text), ("unlock_date", date.text), ("amount", amount.text)]
  | extended address source target amount =>
    [("address", address.text), ("old_unlock_date", source.text), ("unlock_date", target.text),
      ("amount", amount.text)]
  | expired address day amount =>
    [("address", address.text), ("unlock_date", day.text), ("amount", amount.text)]

end Event

structure Response where
  attributes : List (String × String)
  events : List Event
deriving DecidableEq

end StakeLock
