import StakeLock.Account
import StakeLock.Coin
import StakeLock.Shares

/-!
# Host ledger

What the engine asks of the ledger that hosts it: balances and transfers,
validators and delegations. Reading calls leave the ledger as it is; the two
others may change it and still fail.
-/

namespace StakeLock

structure Delegation where
  validator : String
  shares : Shares
deriving DecidableEq

structure Validator where
  address : String
  tokens : Amount
  shares : Shares
deriving DecidableEq

/-- Tokens behind a number of shares, truncated. A validator without shares has none. -/
def Validator.tokensFromShares? (v : Validator) (shares : Shares) : Option Amount :=
  if v.shares.isZero then some Amount.zero
  else shares.atomics.mulDiv? v.tokens v.shares.atomics

/-- Shares for newly delegated tokens: one each for the first ones, then in proportion. -/
def Validator.sharesForTokens? (v : Validator) (amount : Amount) : Option Shares :=
  if v.tokens.isZero then Shares.ofWhole? amount
  else (amount.mulDiv? v.shares.atomics v.tokens).map Shares.mk

abbrev HostM (σ : Type) := EStateM (Fault SystemError) σ

class HostLedger (σ : Type) where
  balance (ledger : σ) (address : Address) (denom : String) : Except SystemError Amount
  bondDenom (ledger : σ) : Except SystemError String
  /-- The delegations of an address, at most `limit` of them. -/
  delegations (ledger : σ) (delegator : Address) (limit : Nat) :
    Except SystemError (List Delegation)
  validator? (ledger : σ) (address : String) : Except SystemError (Option Validator)
  sendCoins (source target : Address) (coins : List Coin) : HostM σ Unit
  /-- Bonds an amount of a delegator and returns the new shares. -/
  delegate (delegator : Address) (validator : String) (amount : Amount) : HostM σ Shares

/-- Most delegations that are counted for one delegator. -/
def maxDelegations : Nat := 1000

section

variable {σ : Type} [HostLedger σ]

def addDelegated (ledger : σ) (total : Amount) (d : Delegation) : Check Amount := do
  match ← Check.ofSystem (HostLedger.validator? ledger d.validator) with
  | none => Check.refuse (.system (.notFound s!"validator {d.validator}"))
  | some v =>
    let tokens ← Check.orAbort (v.tokensFromShares? d.shares)
    Check.ofSystem (total.checkedAdd tokens)

/-- The tokens behind all delegations of an address. -/
def totalDelegated (ledger : σ) (delegator : Address) : Check Amount := do
  let delegations ← Check.ofSystem (HostLedger.delegations ledger delegator maxDelegations)
  delegations.foldlM (addDelegated ledger) Amount.zero

end

end StakeLock
