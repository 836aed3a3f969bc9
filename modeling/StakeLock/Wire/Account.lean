import StakeLock.Account
import StakeLock.Store
import StakeLock.Text.Base64
import StakeLock.Text.Quoted
import StakeLock.Wire.Value

/-!
# Accounts on the wire

Stored accounts and stored queue entries. Unknown fields are ignored.
-/

namespace StakeLock

open Wire

def Lock.ofWire? (v : Value) : Option Lock := do
  let fields ← v.fields?
  return ⟨← Date.ofText? (← fields.get? "unlock_date" Value.text?),
    ← fields.get? "amount" Value.amount?⟩

def Schedule.ofWire? (v : Value) : Option Schedule := do
  return ⟨← (← v.fields?).get? "locks" (Value.list? Lock.ofWire?)⟩

def Address.ofWire? (v : Value) : Option Address := v.text?.map Address.mk

def BaseAccount.ofWire? (v : Value) : Option BaseAccount := do
  let fields ← v.fields?
  return ⟨← fields.get? "address" Address.ofWire?,
    ← fields.optional? "pub_key" fun v => v.text?.bind Text.Base64.decode?,
    ← fields.get? "account_number" Value.nat64?, ← fields.get? "sequence" Value.nat64?⟩

def LockupAccount.ofWire? (v : Value) : Option LockupAccount := do
  let fields ← v.fields?
  return ⟨← fields.get? "base" BaseAccount.ofWire?, ← fields.get? "locks" Schedule.ofWire?⟩

def Account.ofWire? (v : Value) : Option Account := do
  match ← v.choice? with
  | ("base", v) => return .base (← BaseAccount.ofWire? v)
  | ("lockup", v) => return .lockup (← LockupAccount.ofWire? v)
  | _ => none

/-- The stored form of an entry is the quoted text of an amount. -/
def QueueEntry.ofRaw (raw : String) : QueueEntry :=
  match ((Text.Quoted.decode? raw.toList).bind Text.unsigned?).bind Amount.ofNat? with
  | some amount => .holds amount
  | none => .garbled

end StakeLock
