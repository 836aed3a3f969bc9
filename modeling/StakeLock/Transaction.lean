import StakeLock.Clock
import StakeLock.Request

/-!
# Transactions

The messages of a transaction on the host ledger, and what each of them may
take away from an account.
-/

namespace StakeLock

/-- One side of a joint transfer, with the coins that it pays or gets. -/
structure Party where
  address : String
  coins : List Coin
deriving DecidableEq

inductive Authorization where
  | send (limit : List Coin) (allowed : List String)
  | generic (messageType : String)
  | stake (maxTokens : Option Coin) (validators : List String)
deriving DecidableEq

/-- No limit means that all funds may be spent. -/
structure BasicAllowance where
  limit : Option (List Coin)
  expiration : Option Timestamp
deriving DecidableEq

inductive FeeAllowance where
  | basic (allowance : BasicAllowance)
  | periodic (allowance : BasicAllowance) (periodSeconds : Nat) (periodLimit : List Coin)
  | restricted (allowance : FeeAllowance) (messages : List String)
deriving DecidableEq

/-- The overall limit, also of an allowance inside another one. -/
def FeeAllowance.limit : FeeAllowance → Option (List Coin)
  | basic allowance | periodic allowance .. => allowance.limit
  | restricted allowance _ => allowance.limit

inductive TxMsg where
  | send (source target : String) (coins : List Coin)
  | multiSend (inputs outputs : List Party)
  | delegate (delegator validator : String) (amount : Coin)
  | undelegate (delegator validator : String) (amount : Coin)
  /-- Runs messages in the name of their signers. -/
  | exec (grantee : String) (msgs : List TxMsg)
  | grant (granter grantee : String) (authorization : Authorization)
    (expiration : Option Timestamp)
  | deposit (proposal : Nat) (depositor : String) (coins : List Coin)
  | fundPool (depositor : String) (coins : List Coin)
  | grantAllowance (granter grantee : String) (allowance : FeeAllowance)
  | transfer (sourcePort sourceChannel sender receiver : String) (token : Coin)
  | lockup (sender : String) (request : Request)
  | other (typeUrl signer : String)

/-- What a message demands of an account. -/
inductive Demand where
  | spend (spender : String) (coins : List Coin)
  | undelegate (delegator : String) (amount : Coin)
deriving DecidableEq

inductive Outflow where
  | demand (demand : Demand)
  | nested (msgs : List TxMsg)

namespace TxMsg

/-- A joint transfer is signed by its first input, if there is one. -/
def signer : TxMsg → String
  | send source .. => source
  | multiSend inputs _ => (inputs.head?.map Party.address).getD ""
  | delegate delegator .. => delegator
  | undelegate delegator .. => delegator
  | exec grantee _ => grantee
  | grant granter .. => granter
  | deposit _ depositor _ => depositor
  | fundPool depositor _ => depositor
  | grantAllowance granter .. => granter
  | transfer _ _ sender .. => sender
  | lockup sender _ => sender
  | other _ signer => signer

def kind : TxMsg → String
  | send .. => "send"
  | multiSend .. => "multi_send"
  | delegate .. => "delegate"
  | undelegate .. => "undelegate"
  | exec .. => "exec"
  | grant .. => "grant"
  | deposit .. => "deposit"
  | fundPool .. => "fund_community_pool"
  | grantAllowance .. => "grant_allowance"
  | transfer .. => "transfer"
  | lockup .. => "lockup"
  | other .. => "other"

/-- The demands of a message itself. Messages that are run for others have
demands of their own. -/
def demands (bondDenom : String) : TxMsg → List Demand
  | send source _ coins => [.spend source coins]
  | multiSend inputs _ => inputs.map fun i => .spend i.address i.coins
  | undelegate delegator _ amount =>
    if amount.denom = bondDenom then [.undelegate delegator amount] else []
  | grant granter _ (.send limit _) _ => [.spend granter limit]
  | deposit _ depositor coins => [.spend depositor coins]
  | fundPool depositor coins => [.spend depositor coins]
  | grantAllowance granter _ allowance => (allowance.limit.map (.spend granter)).toList
  | transfer _ _ sender _ token => [.spend sender [token]]
  | lockup sender request => ((request.funds? bondDenom).map fun c => .spend sender [c]).toList
  | delegate .. | exec .. | grant .. | other .. => []

/-- Everything to be checked before a message may run, in order. -/
def outflows (bondDenom : String) : TxMsg → List Outflow
  | exec _ msgs => [.nested msgs]
  | msg => (msg.demands bondDenom).map .demand

end TxMsg

structure Tx where
  msgs : List TxMsg
  feePayer : Option String

/-- The fee payer that is named, or else the first signer. -/
def Tx.payer? (tx : Tx) : Option String := tx.feePayer <|> (tx.msgs.head?.map TxMsg.signer)

end StakeLock
