import StakeLock.Calendar.DayNumber
import StakeLock.Execute
import StakeLock.Host.Checked
import StakeLock.Host.Strict
import StakeLock.Wire.Account
import StakeLock.Wire.Call
import StakeLock.Proofs.Calendar.Months
import StakeLock.Proofs.Outcome
import StakeLock.Proofs.Schedule.Amounts
import StakeLock.Proofs.Schedule.Order
import StakeLock.Proofs.Change
import StakeLock.Proofs.UnlockTime
import StakeLock.Proofs.Outcome.Queue
import StakeLock.Proofs.Outcome.Locking
import StakeLock.Call
import StakeLock.Proofs.Checks
import StakeLock.Proofs.Outcome.Sweep
import StakeLock.Proofs.Outcome.Call
import StakeLock.Proofs.Reachable
import StakeLock.Proofs.Aggregate
import StakeLock.Proofs.Accounts
import StakeLock.Proofs.Irrevocable
import StakeLock.Proofs.Mirror
import StakeLock.Proofs.Worth
import StakeLock.Proofs.Outcome.Strict
import StakeLock.Proofs.Coverage
import StakeLock.Proofs.ByteOrder
import StakeLock.Proofs.Refusal
import StakeLock.Proofs.EndOfBlock
import StakeLock.Proofs.Extension
import StakeLock.Proofs.FullBacking
import StakeLock.Proofs.Nesting
import StakeLock.Proofs.Expiry
import StakeLock.Proofs.Cleanup
import StakeLock.Proofs.Interchange
import StakeLock.Proofs.Listing
import StakeLock.Proofs.Calendar.DateForm
import StakeLock.Proofs.Unseen
import StakeLock.Proofs.Paging
import StakeLock.Proofs.LockedTotal
import StakeLock.Proofs.FanOut
import StakeLock.Proofs.Refused
import StakeLock.Proofs.Capacity
import StakeLock.Proofs.FailedLock
import StakeLock.Proofs.Exchange
import StakeLock.Proofs.RoundTrip
import StakeLock.Proofs.Numbering
import StakeLock.Proofs.Overdue
import StakeLock.Proofs.Announcements
import StakeLock.Proofs.Spending
import StakeLock.Proofs.LockedBound
import StakeLock.Proofs.Owners
import StakeLock.Proofs.Authority
import StakeLock.Proofs.IntegerLaw
import StakeLock.Proofs.UnlockWindow
import StakeLock.Proofs.Boundary
import StakeLock.Proofs.ExtensionBatch
import StakeLock.Proofs.InStep
import StakeLock.Proofs.Horizon
import StakeLock.Proofs.Dilution
import StakeLock.Proofs.UnlockOrder
import StakeLock.Proofs.Schedule.DateMap
