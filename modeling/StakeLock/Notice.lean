import StakeLock.Address

/-!
# Notices

What the engine tells its operator while it works. Notices stay when the call
that gave them fails.
-/

namespace StakeLock

inductive NoticeLevel where
  | debug
  | warn
deriving DecidableEq

inductive Notice where
  | lockAdded (address : Address) (date : Date) (amount : Amount)
  | lockMoved (address : Address) (source target : Date) (amount : Amount)
  | locksExpired (address : Address) (count : Nat)
  | queueOutOfSync (address : Address) (unlockTime : Nat) (amount : Amount)
  | locksSwept (height count : Nat) (total : Amount)
  | transactionRejected (height : Nat) (signer : String) (reason : LockError)
deriving DecidableEq

namespace Notice

def level : Notice → NoticeLevel
  | lockAdded .. | lockMoved .. | locksExpired .. | locksSwept .. => .debug
  | queueOutOfSync .. | transactionRejected .. => .warn

def message : Notice → String
  | lockAdded .. => "lock added"
  | lockMoved .. => "lock moved"
  | locksExpired .. => "locks expired"
  | queueOutOfSync .. => "expiration queue out of sync"
  | locksSwept .. => "expired locks swept"
  | transactionRejected .. => "transaction rejected"

/-- Named values, as texts. -/
def fields : Notice → List (String × String)
  | lockAdded address date amount =>
    [("address", address.text), ("unlock_date", date.text), ("amount", amount.text)]
  | lockMoved address source target amount =>
    [("address", address.text), ("from", source.text), ("to", target.text),
      ("amount", amount.text)]
  | locksExpired address count => [("address", address.text), ("count", Nat.repr count)]
  | queueOutOfSync address unlockTime amount =>
    [("address", address.text), ("unlock_time", Nat.repr unlockTime), ("amount", amount.text)]
  | locksSwept height count total =>
    [("height", Nat.repr height), ("swept", Nat.repr count), ("total", total.text)]
  | transactionRejected height signer reason =>
    [("height", Nat.repr height), ("signer", signer), ("error", reason.message)]

end Notice

end StakeLock
