import StakeLock.Transaction
import StakeLock.Wire.Request

/-!
# Transactions on the wire

Messages and allowances may hold others of their kind. Their readers stop at
the depth of the value they read, below which nothing is nested.
-/

namespace StakeLock

open Wire

def Wire.Value.coins? : Value → Option (List Coin) := Value.list? Coin.ofWire?

def Wire.Value.texts? : Value → Option (List String) := Value.list? Value.text?

def Party.ofWire? (v : Value) : Option Party := do
  let fields ← v.strictFields? ["address", "coins"]
  return ⟨← fields.get? "address" Value.text?, ← fields.get? "coins" Value.coins?⟩

def Authorization.ofWire? (v : Value) : Option Authorization := do
  match ← v.choice? with
  | ("send", v) =>
    let fields ← v.strictFields? ["spend_limit", "allow_list"]
    return .send (← fields.get? "spend_limit" Value.coins?)
      (← fields.get? "allow_list" Value.texts?)
  | ("generic", v) =>
    let fields ← v.strictFields? ["msg_type_url"]
    return .generic (← fields.get? "msg_type_url" Value.text?)
  | ("stake", v) =>
    let fields ← v.strictFields? ["max_tokens", "validators"]
    return .stake (← fields.optional? "max_tokens" Coin.ofWire?)
      (← fields.get? "validators" Value.texts?)
  | _ => none

def BasicAllowance.ofWire? (v : Value) : Option BasicAllowance := do
  let fields ← v.strictFields? ["spend_limit", "expiration"]
  return ⟨← fields.optional? "spend_limit" Value.coins?,
    ← fields.optional? "expiration" Value.timestamp?⟩

namespace FeeAllowance

def readWithin : Nat → Value → Option FeeAllowance
  | 0, _ => none
  | depth + 1, v => do
    match ← v.choice? with
    | ("basic", v) => return .basic (← BasicAllowance.ofWire? v)
    | ("periodic", v) =>
      let fields ← v.strictFields? ["basic", "period_seconds", "period_spend_limit"]
      return .periodic (← fields.get? "basic" BasicAllowance.ofWire?)
        (← fields.get? "period_seconds" Value.nat64?)
        (← fields.get? "period_spend_limit" Value.coins?)
    | ("allowed_msg", v) =>
      let fields ← v.strictFields? ["allowance", "allowed_messages"]
      return .restricted (← fields.get? "allowance" (readWithin depth))
        (← fields.get? "allowed_messages" Value.texts?)
    | _ => none

def ofWire? (v : Value) : Option FeeAllowance := readWithin v.depth v

end FeeAllowance

namespace TxMsg

def readWithin : Nat → Value → Option TxMsg
  | 0, _ => none
  | depth + 1, v => do
    match ← v.choice? with
    | ("send", v) =>
      let fields ← v.strictFields? ["from_address", "to_address", "amount"]
      return .send (← fields.get? "from_address" Value.text?)
        (← fields.get? "to_address" Value.text?) (← fields.get? "amount" Value.coins?)
    | ("multi_send", v) =>
      let fields ← v.strictFields? ["inputs", "outputs"]
      return .multiSend (← fields.get? "inputs" (Value.list? Party.ofWire?))
        (← fields.get? "outputs" (Value.list? Party.ofWire?))
    | ("delegate", v) =>
      let fields ← v.strictFields? ["delegator_address", "validator_address", "amount"]
      return .delegate (← fields.get? "delegator_address" Value.text?)
        (← fields.get? "validator_address" Value.text?) (← fields.get? "amount" Coin.ofWire?)
    | ("undelegate", v) =>
      let fields ← v.strictFields? ["delegator_address", "validator_address", "amount"]
      return .undelegate (← fields.get? "delegator_address" Value.text?)
        (← fields.get? "validator_address" Value.text?) (← fields.get? "amount" Coin.ofWire?)
    | ("exec", v) =>
      let fields ← v.strictFields? ["grantee", "msgs"]
      return .exec (← fields.get? "grantee" Value.text?)
        (← fields.get? "msgs" (Value.list? (readWithin depth)))
    | ("grant", v) =>
      let fields ← v.strictFields? ["granter", "grantee", "authorization", "expiration"]
      return .grant (← fields.get? "granter" Value.text?) (← fields.get? "grantee" Value.text?)
        (← fields.get? "authorization" Authorization.ofWire?)
        (← fields.optional? "expiration" Value.timestamp?)
    | ("deposit", v) =>
      let fields ← v.strictFields? ["proposal_id", "depositor", "amount"]
      return .deposit (← fields.get? "proposal_id" Value.nat64?)
        (← fields.get? "depositor" Value.text?) (← fields.get? "amount" Value.coins?)
    | ("fund_community_pool", v) =>
      let fields ← v.strictFields? ["depositor", "amount"]
      return .fundPool (← fields.get? "depositor" Value.text?)
        (← fields.get? "amount" Value.coins?)
    | ("grant_allowance", v) =>
      let fields ← v.strictFields? ["granter", "grantee", "allowance"]
      return .grantAllowance (← fields.get? "granter" Value.text?)
        (← fields.get? "grantee" Value.text?) (← fields.get? "allowance" FeeAllowance.ofWire?)
    | ("transfer", v) =>
      let fields ← v.strictFields?
        ["source_port", "source_channel", "sender", "receiver", "token"]
      return .transfer (← fields.get? "source_port" Value.text?)
        (← fields.get? "source_channel" Value.text?) (← fields.get? "sender" Value.text?)
        (← fields.get? "receiver" Value.text?) (← fields.get? "token" Coin.ofWire?)
    | ("lockup", v) =>
      let fields ← v.strictFields? ["sender", "msg"]
      return .lockup (← fields.get? "sender" Value.text?) (← fields.get? "msg" Request.ofWire?)
    | ("other", v) =>
      let fields ← v.strictFields? ["type_url", "signer"]
      return .other (← fields.get? "type_url" Value.text?) (← fields.get? "signer" Value.text?)
    | _ => none

def ofWire? (v : Value) : Option TxMsg := readWithin v.depth v

end TxMsg

def Tx.ofWire? (v : Value) : Option Tx := do
  let fields ← v.strictFields? ["msgs", "fee_payer"]
  return ⟨← fields.get? "msgs" (Value.list? TxMsg.ofWire?),
    ← fields.optional? "fee_payer" Value.text?⟩

end StakeLock
