import StakeLock.Calendar.Civil

/-!
# Dates

A date is a day number from 1970-01-01 within the supported range, which runs
from -262143-01-01 to 262142-12-31. Dates are ordered as their day numbers.
-/

namespace StakeLock

open Calendar

/-- Day number of -262143-01-01. -/
def firstDay : Int := -96465292

/-- Day number of 262142-12-31. -/
def lastDay : Int := 95026236

theorem dayNumber_first : (⟨-262143, 1, 1⟩ : Civil).dayNumber = firstDay := by decide

theorem dayNumber_last : (⟨262142, 12, 31⟩ : Civil).dayNumber = lastDay := by decide

structure Date where
  epochDay : Int
  first_le : firstDay ≤ epochDay
  le_last : epochDay ≤ lastDay
deriving DecidableEq

namespace Date

@[ext] theorem ext {d e : Date} (h : d.epochDay = e.epochDay) : d = e := by
  cases d; cases e; cases h; rfl

def last : Date := ⟨lastDay, by decide, by decide⟩

instance : Inhabited Date := ⟨last⟩

instance : LE Date := ⟨fun d e => d.epochDay ≤ e.epochDay⟩

instance : LT Date := ⟨fun d e => d.epochDay < e.epochDay⟩

instance (d e : Date) : Decidable (d ≤ e) := inferInstanceAs (Decidable (d.epochDay ≤ e.epochDay))

instance (d e : Date) : Decidable (d < e) := inferInstanceAs (Decidable (d.epochDay < e.epochDay))

theorem le_def {d e : Date} : d ≤ e ↔ d.epochDay ≤ e.epochDay := Iff.rfl

theorem lt_def {d e : Date} : d < e ↔ d.epochDay < e.epochDay := Iff.rfl

/-- The date of a day number, if it is in the supported range. -/
def ofEpochDay? (n : Int) : Option Date :=
  if h : firstDay ≤ n ∧ n ≤ lastDay then some ⟨n, h.1, h.2⟩ else none

theorem ofEpochDay?_eq_some_iff {n : Int} {d : Date} : ofEpochDay? n = some d ↔ n = d.epochDay := by
  unfold ofEpochDay?
  split
  · constructor
    · intro h; cases h; rfl
    · intro h; subst h; rfl
  · rename_i h
    constructor
    · intro h'; cases h'
    · intro h'; exact absurd ⟨h' ▸ d.first_le, h' ▸ d.le_last⟩ h

def ofCivil? (c : Civil) : Option Date :=
  if c.Valid then ofEpochDay? c.dayNumber else none

def civil (d : Date) : Civil := Civil.ofDayNumber d.epochDay

/-- The date that many months later, or the last date when the calendar ends before it. -/
def monthsFrom (d : Date) (months : Nat) : Date :=
  (ofEpochDay? (d.civil.addMonths months).dayNumber).getD last

end Date

end StakeLock
