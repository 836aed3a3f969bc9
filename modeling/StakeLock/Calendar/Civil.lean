/-!
# Civil calendar

Years, months and days of the proleptic Gregorian calendar, and the count of
days from 1970-01-01. A year is found from a day count by one division and a
correction by at most one, a month by walking along the lengths of the months.
-/

namespace StakeLock.Calendar

def isLeap (year : Int) : Bool := year % 4 == 0 && (year % 100 != 0 || year % 400 == 0)

def monthLengths (leap : Bool) : List Nat :=
  [31, if leap then 29 else 28, 31, 30, 31, 30, 31, 31, 30, 31, 30, 31]

/-- Days from 0001-01-01 to the first day of a year. -/
def daysBeforeYear (year : Int) : Int :=
  365 * (year - 1) + (year - 1) / 4 - (year - 1) / 100 + (year - 1) / 400

/-- The year that a day lies in, counted from 0001-01-01. -/
def yearOfDay (n : Int) : Int :=
  let guess := n * 400 / 146097 + 1
  if n < daysBeforeYear guess then guess - 1
  else if daysBeforeYear (guess + 1) ≤ n then guess + 1
  else guess

theorem daysBeforeYear_yearOfDay_le (n : Int) : daysBeforeYear (yearOfDay n) ≤ n := by
  simp only [yearOfDay]
  split
  · simp only [daysBeforeYear] at *
    omega
  · split
    · assumption
    · omega

theorem lt_daysBeforeYear_yearOfDay_succ (n : Int) : n < daysBeforeYear (yearOfDay n + 1) := by
  simp only [yearOfDay]
  split
  · rename_i h
    simpa using h
  · split
    · simp only [daysBeforeYear] at *
      omega
    · omega

/-- Index of the part that an offset lies in, and the offset within it. -/
def locate : List Nat → Nat → Nat × Nat
  | [], offset => (0, offset)
  | length :: rest, offset =>
    if offset < length then (0, offset)
    else ((locate rest (offset - length)).1 + 1, (locate rest (offset - length)).2)

structure Civil where
  year : Int
  month : Nat
  day : Nat
deriving DecidableEq

namespace Civil

variable (c : Civil)

def lastOfMonth (year : Int) (month : Nat) : Nat :=
  (monthLengths (isLeap year)).getD (month - 1) 0

def Valid : Prop :=
  1 ≤ c.month ∧ c.month ≤ 12 ∧ 1 ≤ c.day ∧ c.day ≤ lastOfMonth c.year c.month

instance : Decidable c.Valid := by
  unfold Valid
  infer_instance

/-- 1970-01-01 counted from 0001-01-01. -/
def epoch : Int := 719162

/-- Days of a year that come before one of its months. -/
def daysBeforeMonth (year : Int) (month : Nat) : Nat :=
  ((monthLengths (isLeap year)).take (month - 1)).foldr (· + ·) 0

/-- Days from 1970-01-01, negative before it. -/
def dayNumber : Int :=
  daysBeforeYear c.year + daysBeforeMonth c.year c.month + c.day - 1 - epoch

def ofDayNumber (n : Int) : Civil :=
  let year := yearOfDay (n + epoch)
  let place := locate (monthLengths (isLeap year)) (n + epoch - daysBeforeYear year).toNat
  ⟨year, place.1 + 1, place.2 + 1⟩

/-- Moves on by whole months; a day that the new month lacks becomes its last one. -/
def addMonths (months : Nat) : Civil :=
  let total := c.month - 1 + months
  let year := c.year + (total / 12 : Nat)
  let month := total % 12 + 1
  ⟨year, month, min c.day (lastOfMonth year month)⟩

end Civil

end StakeLock.Calendar
