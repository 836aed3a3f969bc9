import StakeLock.Amount

/-!
# Coins
-/

namespace StakeLock

structure Coin where
  denom : String
  amount : Amount
deriving DecidableEq

/-- The digits of the amount, directly followed by the denomination. -/
def Coin.text (c : Coin) : String := c.amount.text ++ c.denom

end StakeLock
