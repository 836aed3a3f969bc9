import StakeLock.Host.Addresses
import StakeLock.Host.Books

/-!
# A ledger that stops

This ledger refuses payments without funds and delegations to unknown
validators. An amount that leaves its range aborts the call. Its validators can
be slashed, and delegations unbonded.
-/

namespace StakeLock

structure StrictLedger where
  books : Books
deriving DecidableEq

namespace StrictLedger

/-- A ledger whose validators have no tokens yet. -/
def ofValidators (denom : String) (validators : List String) : StrictLedger :=
  ⟨validators.foldl (fun b v => b.setValidator ⟨v, Amount.zero, Shares.zero⟩) (.empty denom)⟩

def refuse {α : Type} (cause : SystemError) : HostM StrictLedger α := throw (.refused cause)

def orAbort {α : Type} (result : Option α) : HostM StrictLedger α :=
  match result with
  | some a => pure a
  | none => throw .aborted

def getBooks : HostM StrictLedger Books := return (← get).books

def setBooks (books : Books) : HostM StrictLedger Unit := set (StrictLedger.mk books)

def sendCoin (source target : Address) (coin : Coin) : HostM StrictLedger Unit := do
  let books ← getBooks
  match (books.balance source coin.denom).sub? coin.amount with
  | none => refuse (.generic s!"insufficient funds: {coin.text}")
  | some rest =>
    let books := books.setBalance source coin.denom rest
    setBooks books
    let sum ← orAbort ((books.balance target coin.denom).add? coin.amount)
    setBooks (books.setBalance target coin.denom sum)

def delegate (delegator : Address) (validator : String) (amount : Amount) :
    HostM StrictLedger Shares := do
  let books ← getBooks
  match books.validators.get? validator with
  | none => refuse (.notFound "validator")
  | some v =>
    let (new, books) ← orAbort (books.bond? delegator validator v amount)
    setBooks books
    return new

/-- Takes a fraction of the tokens of a validator away. -/
def slash (validator : String) (fraction : Shares) : HostM StrictLedger Unit := do
  let books ← getBooks
  let v ← orAbort (books.validators.get? validator)
  let lost ← orAbort (fraction.scale? v.tokens)
  let tokens ← orAbort (v.tokens.sub? lost)
  setBooks (books.putValidator validator { v with tokens := tokens })

/-- Takes tokens of a delegator back from a validator. -/
def unbond (delegator : Address) (validator : String) (amount : Amount) :
    HostM StrictLedger Unit := do
  let books ← getBooks
  let v ← orAbort (books.validators.get? validator)
  let gone ← orAbort ((amount.mulDiv? v.shares.atomics v.tokens).map Shares.mk)
  let tokens ← orAbort (v.tokens.sub? amount)
  let total ← orAbort (v.shares.sub? gone)
  let held ← orAbort (books.delegations.get? ⟨delegator, validator⟩)
  let kept ← orAbort (held.sub? gone)
  setBooks ((books.putValidator validator
    { v with tokens := tokens, shares := total }).setDelegation delegator validator kept)

instance : HostLedger StrictLedger where
  balance ledger address denom := .ok (ledger.books.balance address denom)
  bondDenom ledger := .ok ledger.books.denom
  delegations ledger delegator limit := .ok (ledger.books.delegationsOf delegator limit)
  validator? ledger address := .ok (ledger.books.validators.get? address)
  sendCoins source target coins := coins.forM (sendCoin source target)
  delegate := delegate

end StrictLedger

end StakeLock
