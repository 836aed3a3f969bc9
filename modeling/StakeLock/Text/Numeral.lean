/-!
# Decimal numerals

Reading of unsigned numbers in ASCII digits, and digits filled up to a width.
Leading zeros are accepted everywhere.
-/

namespace StakeLock.Text

def natural? (cs : List Char) : Option Nat :=
  if cs ≠ [] ∧ cs.all Char.isDigit then some (Nat.ofDigitChars 10 cs 0) else none

/-- A run of digits that one plus sign may precede. -/
def unsigned? : List Char → Option Nat
  | '+' :: cs => natural? cs
  | cs => natural? cs

/-- The number that a text begins with, of at most `width` digits, and the rest. -/
def leading? (width : Nat) (cs : List Char) : Option (Nat × List Char) :=
  let digits := (cs.takeWhile Char.isDigit).take width
  if digits = [] then none else some (Nat.ofDigitChars 10 digits 0, cs.drop digits.length)

def padded (width n : Nat) : List Char :=
  let digits := Nat.toDigits 10 n
  List.replicate (width - digits.length) '0' ++ digits

end StakeLock.Text
