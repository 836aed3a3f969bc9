import StakeLock.Error

/-!
# Ledger time and unlock dates

Ledger time counts nanoseconds below `2 ^ 64`; locks end at midnight UTC of their unlock date.
A date is locked while the day of the ledger time lies before it. The unlock
time of a date, its midnight in seconds from 1970, is the key under which the
expiration queue holds its locks.
-/

namespace StakeLock

structure Timestamp where
  nanos : Nat
  nanos_lt : nanos < 0x10000000000000000
deriving DecidableEq

namespace Timestamp

def zero : Timestamp := ⟨0, by decide⟩

instance : Inhabited Timestamp := ⟨zero⟩

instance : LE Timestamp := ⟨fun s t => s.nanos ≤ t.nanos⟩

instance (s t : Timestamp) : Decidable (s ≤ t) := inferInstanceAs (Decidable (s.nanos ≤ t.nanos))

theorem le_def {s t : Timestamp} : s ≤ t ↔ s.nanos ≤ t.nanos := Iff.rfl

def ofNanos? (n : Nat) : Option Timestamp :=
  if h : n < 0x10000000000000000 then some ⟨n, h⟩ else none

def ofSeconds? (n : Nat) : Option Timestamp := ofNanos? (n * 1000000000)

variable (now : Timestamp)

def seconds : Nat := now.nanos / 1000000000

end Timestamp

def secondsPerDay : Nat := 86400

/-- Whole days from 1970-01-01 to a ledger time. -/
def blockDay (now : Timestamp) : Int := (now.seconds / secondsPerDay : Nat)

/-- Every ledger time lies in the supported range of dates. -/
theorem blockDay_bounds (now : Timestamp) : firstDay ≤ blockDay now ∧ blockDay now ≤ lastDay := by
  have := now.nanos_lt
  simp only [firstDay, lastDay, blockDay, Timestamp.seconds, secondsPerDay]
  omega

def blockDate (now : Timestamp) : Date :=
  ⟨blockDay now, (blockDay_bounds now).1, (blockDay_bounds now).2⟩

def isLocked (now : Timestamp) (date : Date) : Bool := blockDay now < date.epochDay

/-- Seconds from 1970 to midnight of a date, which dates before 1970 lack. -/
def unlockTime? (date : Date) : Option Nat :=
  if 0 ≤ date.epochDay then some (date.epochDay.toNat * secondsPerDay) else none

def unlockTime (date : Date) : Except LockError Nat :=
  match unlockTime? date with
  | some time => .ok time
  | none => .error (.invalidDate date.text)

def noon? (date : Date) : Option Timestamp := do
  Timestamp.ofSeconds? ((← unlockTime? date) + 43200)

/-- The date whose day a time in seconds falls on. -/
def dateOfUnlockTime? (seconds : Nat) : Option Date :=
  Date.ofEpochDay? (seconds / secondsPerDay : Nat)

/-- Requests name dates by exactly ten bytes of UTF-8. -/
def parseDate (text : String) : Except LockError Date :=
  if text.utf8ByteSize ≠ 10 then .error (.invalidDate text)
  else match Date.ofText? text with
    | some date => .ok date
    | none => .error (.invalidDate text)

def checkMaxHorizon (now : Timestamp) (date : Date) (maxMonths : Nat) : Except LockError Unit :=
  let latest := (blockDate now).monthsFrom maxMonths
  if latest < date then .error (.unlockTooLate maxMonths latest) else .ok ()

/-- Refuses unlock dates outside the window from the least to the greatest number of months. -/
def checkUnlockWindow (now : Timestamp) (date : Date) (minMonths maxMonths : Nat) :
    Except LockError Unit :=
  let earliest := (blockDate now).monthsFrom minMonths
  if date < earliest then .error (.unlockTooSoon minMonths earliest)
  else checkMaxHorizon now date maxMonths

end StakeLock
