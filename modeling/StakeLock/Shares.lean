import StakeLock.Amount

/-!
# Delegation shares

A number of shares is a decimal with eighteen places, held as the amount of
its smallest units.
-/

namespace StakeLock

structure Shares where
  atomics : Amount
deriving DecidableEq

namespace Shares

/-- Smallest units of one share. -/
def one : Nat := 1000000000000000000

def zero : Shares := ⟨Amount.zero⟩

instance : Inhabited Shares := ⟨zero⟩

def isZero (s : Shares) : Bool := s.atomics.isZero

def add? (s t : Shares) : Option Shares := (s.atomics.add? t.atomics).map Shares.mk

def sub? (s t : Shares) : Option Shares := (s.atomics.sub? t.atomics).map Shares.mk

/-- As many whole shares as there are units of an amount. -/
def ofWhole? (a : Amount) : Option Shares := (Amount.ofNat? (a.toNat * one)).map Shares.mk

/-- The truncated product of an amount with a number of shares. -/
def scale? (s : Shares) (a : Amount) : Option Amount :=
  Amount.ofNat? (a.toNat * s.atomics.toNat / one)

/-- The eighteen digits after the point, without the zeros that end them. -/
def fractionDigits (units : Nat) : List Char :=
  let digits := Nat.toDigits 10 units
  let padded := List.replicate (18 - digits.length) '0' ++ digits
  (padded.reverse.dropWhile (· == '0')).reverse

/-- Whole shares, and a point with the fraction if there is one. -/
def text (s : Shares) : String :=
  let whole := s.atomics.toNat / one
  let rest := s.atomics.toNat % one
  if rest = 0 then Nat.repr whole
  else Nat.repr whole ++ "." ++ String.ofList (fractionDigits rest)

end Shares

end StakeLock
