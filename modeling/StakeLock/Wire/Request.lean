import StakeLock.Request
import StakeLock.Wire.Value

/-!
# Requests on the wire

Coins ignore fields that they do not know; all other parts of a request refuse them.
-/

namespace StakeLock

open Wire

def Coin.ofWire? (v : Value) : Option Coin := do
  let fields ← v.fields?
  return ⟨← fields.get? "denom" Value.text?, ← fields.get? "amount" Value.amount?⟩

def LockEntry.ofWire? (v : Value) : Option LockEntry := do
  let fields ← v.strictFields? ["unlock_date", "amount"]
  return ⟨← fields.get? "unlock_date" Value.text?, ← fields.get? "amount" Coin.ofWire?⟩

def Extension.ofWire? (v : Value) : Option Extension := do
  let fields ← v.strictFields? ["from_date", "to_date", "amount"]
  return ⟨← fields.get? "from_date" Value.text?, ← fields.get? "to_date" Value.text?,
    ← fields.get? "amount" Coin.ofWire?⟩

def LockedPayment.ofWire? (v : Value) : Option LockedPayment := do
  let fields ← v.strictFields? ["to_address", "validator_address", "amount", "unlock_date"]
  return ⟨← fields.get? "to_address" Value.text?, ← fields.get? "validator_address" Value.text?,
    ← fields.get? "amount" Value.amount?, ← fields.get? "unlock_date" Value.text?⟩

def ConfigChange.ofWire? (v : Value) : Option ConfigChange := do
  let fields ← v.strictFields?
    ["authority", "min_lock_months", "max_lock_months", "max_entries_per_msg"]
  return ⟨← fields.optional? "authority" Value.text?,
    ← fields.optional? "min_lock_months" Value.nat32?,
    ← fields.optional? "max_lock_months" Value.nat32?,
    ← fields.optional? "max_entries_per_msg" Value.nat32?⟩

def Request.ofWire? (v : Value) : Option Request := do
  match ← v.choice? with
  | ("lock", v) =>
    let fields ← v.strictFields? ["locks"]
    return .lock (← fields.get? "locks" (Value.list? LockEntry.ofWire?))
  | ("extend", v) =>
    let fields ← v.strictFields? ["extensions"]
    return .extend (← fields.get? "extensions" (Value.list? Extension.ofWire?))
  | ("send_delegate_and_lock", v) => return .pay (← LockedPayment.ofWire? v)
  | ("multi_send_delegate_and_lock", v) =>
    let fields ← v.strictFields? ["total_amount", "outputs"]
    return .payMany (← fields.get? "total_amount" Value.amount?)
      (← fields.get? "outputs" (Value.list? LockedPayment.ofWire?))
  | ("update_config", v) => return .updateConfig (← ConfigChange.ofWire? v)
  | _ => none

end StakeLock
