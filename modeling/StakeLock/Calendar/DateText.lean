import StakeLock.Calendar.Date
import StakeLock.Text.Blank
import StakeLock.Text.Numeral

/-!
# Date text

The printed form is `YYYY-MM-DD`. Years from 0 to 9999 have four digits and no
sign, all others a sign and at least four digits. Reading is more lenient: it
skips blanks before each number, takes a signed year of any length or an
unsigned one of up to four digits, and months and days of one or two digits.
-/

namespace StakeLock

open Text Calendar

namespace Date

def yearChars (year : Int) : List Char :=
  if year < 0 then '-' :: padded 4 year.natAbs
  else if 9999 < year then '+' :: padded 4 year.natAbs
  else padded 4 year.natAbs

def civilChars (c : Civil) : List Char :=
  yearChars c.year ++ '-' :: padded 2 c.month ++ '-' :: padded 2 c.day

def chars (d : Date) : List Char := civilChars d.civil

def text (d : Date) : String := String.ofList d.chars

/-- A sign and then any number of digits, or up to four digits. -/
def readYear? : List Char → Option (Int × List Char)
  | '-' :: cs => (leading? cs.length cs).map fun r => (-(r.1 : Int), r.2)
  | '+' :: cs => (leading? cs.length cs).map fun r => ((r.1 : Int), r.2)
  | cs => (leading? 4 cs).map fun r => ((r.1 : Int), r.2)

def readDash? : List Char → Option (List Char)
  | '-' :: cs => some cs
  | _ => none

def readCivil? (cs : List Char) : Option Civil := do
  let (year, cs) ← readYear? (cs.dropWhile isBlank)
  let cs ← readDash? cs
  let (month, cs) ← leading? 2 (cs.dropWhile isBlank)
  let cs ← readDash? cs
  let (day, cs) ← leading? 2 (cs.dropWhile isBlank)
  if cs = [] then some ⟨year, month, day⟩ else none

/-- The existing, supported date that a text names. -/
def ofText? (text : String) : Option Date := (readCivil? text.toList).bind ofCivil?

end Date

end StakeLock
