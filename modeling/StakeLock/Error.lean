import StakeLock.Amount
import StakeLock.Calendar.DateText

/-!
# Errors

Every refusal is a value that names its cause. The text shown for it and its
coarse kind are functions of the cause. A call can also be aborted, which no
caller can handle.
-/

namespace StakeLock

/-- Failures of the store, of the arithmetic and of the surrounding ledger. -/
inductive SystemError where
  | generic (text : String)
  | notFound (what : String)
  | addOverflow (left right : Amount)
  | subOverflow (left right : Amount)
  /-- A stored amount that cannot be decoded. -/
  | unreadable
deriving DecidableEq

def SystemError.message : SystemError → String
  | generic text => s!"Generic error: {text}"
  | notFound what => s!"{what} not found"
  | addOverflow left right => s!"Overflow: Cannot Add with {left.text} and {right.text}"
  | subOverflow left right => s!"Overflow: Cannot Sub with {left.text} and {right.text}"
  | unreadable =>
    "Error parsing into type cosmwasm_std::math::uint128::Uint128: Invalid type"

namespace Amount

def checkedAdd (a b : Amount) : Except SystemError Amount :=
  match a.add? b with
  | some sum => .ok sum
  | none => .error (.addOverflow a b)

def checkedSub (a b : Amount) : Except SystemError Amount :=
  match a.sub? b with
  | some rest => .ok rest
  | none => .error (.subOverflow a b)

/-- Adds amounts in order to a first one. -/
def sumFrom (start : Amount) (amounts : List Amount) : Except SystemError Amount :=
  amounts.foldlM checkedAdd start

end Amount

inductive ConfigFault where
  | noHorizon
  | emptyWindow
  | noEntries
deriving DecidableEq

def ConfigFault.message : ConfigFault → String
  | noHorizon => "max_lock_months must be positive"
  | emptyWindow => "min_lock_months exceeds max_lock_months"
  | noEntries => "max_entries_per_msg must be positive"

inductive LockError where
  | system (cause : SystemError)
  | unauthorized
  | invalidAddress (address : String) (cause : SystemError)
  | invalidDate (date : String)
  | unlockTooSoon (months : Nat) (earliest : Date)
  | unlockTooLate (months : Nat) (latest : Date)
  | invalidExtension (source target : Date)
  | lockExpired (date : Date)
  | extensionAmountMismatch (date : Date) (expected requested : Amount)
  | totalMismatch (total outputs : Amount)
  | emptyRequest
  | tooManyEntries (max : Nat)
  | validatorNotFound (address : String)
  | invalidConfig (fault : ConfigFault)
  | invalidAmount (amount : String)
  | invalidDenom (denom expected : String)
  | insufficientUnlockedBalance (available required : Amount)
  | lockExceedsDelegations (delegated locked : Amount)
  | undelegateBelowLocked (delegated amount locked : Amount)
  | lockupNotFound (date : Date)
  | invalidAccount (address : String)
  | queueDesync (address : String) (unlockTime : Nat)
deriving DecidableEq

/-- Coarse classes of errors, shown to clients beside the message. -/
inductive ErrorKind where
  | invalidAddress
  | invalidRequest
  | invalidCoins
  | insufficientUnlockedBalance
  | insufficientDelegations
  | lockupNotFound
  | invalidAccount
  | unauthorized
  | internal
deriving DecidableEq

namespace LockError

def message : LockError → String
  | system cause => cause.message
  | unauthorized => "Unauthorized"
  | invalidAddress address cause => s!"invalid address {address}: {cause.message}"
  | invalidDate date => s!"invalid date format: {date}"
  | unlockTooSoon months earliest =>
    s!"unlock date must be at least {months} months from now (earliest {earliest.text})"
  | unlockTooLate months latest =>
    s!"unlock date cannot be more than {months} months from now (latest {latest.text})"
  | invalidExtension source target =>
    s!"unlock date {target.text} must be after from date {source.text}"
  | lockExpired date => s!"lock for unlock date {date.text} has already expired"
  | extensionAmountMismatch date expected requested =>
    s!"extension amount mismatch for unlock date {date.text}: " ++
      s!"you must extend the entire amount {expected.text}, got {requested.text}"
  | totalMismatch total outputs =>
    s!"total amount {total.text} does not match sum of outputs {outputs.text}"
  | emptyRequest => "Request has no entries"
  | tooManyEntries max => s!"Request exceeds {max} entries"
  | validatorNotFound address => s!"validator not found: {address}"
  | invalidConfig fault => s!"invalid config: {fault.message}"
  | invalidAmount amount => s!"invalid lock amount: {amount}"
  | invalidDenom denom expected => s!"invalid denom: {denom}, expected: {expected}"
  | insufficientUnlockedBalance available required =>
    s!"insufficient unlocked balance: available {available.text}, required {required.text}"
  | lockExceedsDelegations delegated locked =>
    s!"trying to lock more than total delegations: total delegations {delegated.text} < " ++
      s!"locked amount {locked.text}"
  | undelegateBelowLocked delegated amount locked =>
    "unbond would cause new delegated amount to be less than the locked amount: " ++
      s!"{delegated.text} - {amount.text} < {locked.text}"
  | lockupNotFound date => s!"no lockup found for unlock date: {date.text}"
  | invalidAccount address => s!"account is not a lockup account: {address}"
  | queueDesync address unlockTime =>
    s!"expiration queue out of sync for {address} at {unlockTime}"

def kind : LockError → ErrorKind
  | system _ | queueDesync .. => .internal
  | unauthorized => .unauthorized
  | invalidAddress .. => .invalidAddress
  | invalidDate _ | unlockTooSoon .. | unlockTooLate .. | invalidExtension .. | lockExpired _
  | extensionAmountMismatch .. | totalMismatch .. | emptyRequest | tooManyEntries _
  | validatorNotFound _ | invalidConfig _ => .invalidRequest
  | invalidAmount _ | invalidDenom .. => .invalidCoins
  | insufficientUnlockedBalance .. => .insufficientUnlockedBalance
  | lockExceedsDelegations .. | undelegateBelowLocked .. => .insufficientDelegations
  | lockupNotFound _ => .lockupNotFound
  | invalidAccount _ => .invalidAccount

end LockError

/-- How a call fails: it is refused for a reason, or aborted. -/
inductive Fault (ε : Type) where
  | refused (reason : ε)
  | aborted
deriving DecidableEq

def Fault.map {ε ε' : Type} (f : ε → ε') : Fault ε → Fault ε'
  | refused reason => refused (f reason)
  | aborted => aborted

/-- Outcomes of calls that only read. -/
abbrev Check := Except (Fault LockError)

namespace Check

variable {α : Type}

def refuse (reason : LockError) : Check α := .error (.refused reason)

def ofSystem (result : Except SystemError α) : Check α :=
  match result with
  | .ok a => .ok a
  | .error cause => refuse (.system cause)

def ofResult (result : Except LockError α) : Check α :=
  match result with
  | .ok a => .ok a
  | .error reason => refuse reason

def orAbort (result : Option α) : Check α :=
  match result with
  | some a => .ok a
  | none => .error .aborted

end Check

end StakeLock
