import StakeLock.Host.Books

/-!
# A ledger that reports

This ledger answers every problem with an error, and any of its calls can be
set to fail.
-/

namespace StakeLock

inductive HostCall where
  | balance
  | sendCoins
  | bondDenom
  | delegations
  | validator
  | delegate
deriving DecidableEq

namespace HostCall

def name : HostCall → String
  | balance => "balance"
  | sendCoins => "send_coins"
  | bondDenom => "bond_denom"
  | delegations => "delegations"
  | validator => "validator"
  | delegate => "delegate"

def all : List HostCall := [balance, sendCoins, bondDenom, delegations, validator, delegate]

def ofName? (text : String) : Option HostCall := all.find? fun call => call.name == text

end HostCall

structure CheckedLedger where
  books : Books
  failing : List HostCall
deriving DecidableEq

namespace CheckedLedger

def empty (denom : String) : CheckedLedger := ⟨.empty denom, []⟩

/-- Fails when the call is set to fail. -/
def guardCall (ledger : CheckedLedger) (call : HostCall) : Except SystemError Unit :=
  if call ∈ ledger.failing then .error (.generic s!"{call.name} failed") else .ok ()

def fail {α : Type} (text : String) : HostM CheckedLedger α := throw (.refused (.generic text))

def setBooks (books : Books) : HostM CheckedLedger Unit := modify fun l => { l with books := books }

def guardM (call : HostCall) : HostM CheckedLedger Unit := do
  match (← get).guardCall call with
  | .ok () => return
  | .error cause => throw (.refused cause)

/-- Moves one coin. The source keeps what it paid when the target cannot hold it. -/
def sendCoin (source target : Address) (coin : Coin) : HostM CheckedLedger Unit := do
  let books := (← get).books
  match (books.balance source coin.denom).sub? coin.amount with
  | none => fail "insufficient funds"
  | some rest =>
    let books := books.setBalance source coin.denom rest
    setBooks books
    match (books.balance target coin.denom).add? coin.amount with
    | none => fail "balance overflow"
    | some sum => setBooks (books.setBalance target coin.denom sum)

def delegate (delegator : Address) (validator : String) (amount : Amount) :
    HostM CheckedLedger Shares := do
  guardM .delegate
  let books := (← get).books
  match books.validators.get? validator with
  | none => fail "unknown validator"
  | some v =>
    match books.bond? delegator validator v amount with
    | none => fail "delegation overflow"
    | some (new, books) =>
      setBooks books
      return new

instance : HostLedger CheckedLedger where
  balance ledger address denom := do
    ledger.guardCall .balance
    return ledger.books.balance address denom
  bondDenom ledger := do
    ledger.guardCall .bondDenom
    return ledger.books.denom
  delegations ledger delegator limit := do
    ledger.guardCall .delegations
    return ledger.books.delegationsOf delegator limit
  validator? ledger address := do
    ledger.guardCall .validator
    return ledger.books.validators.get? address
  sendCoins source target coins := do
    guardM .sendCoins
    coins.forM (sendCoin source target)
  delegate := delegate

end CheckedLedger

end StakeLock
