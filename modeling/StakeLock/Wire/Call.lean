import StakeLock.Hook
import StakeLock.Query
import StakeLock.Wire.Transaction

/-!
# Hooks and queries on the wire
-/

namespace StakeLock

open Wire

def Hook.ofWire? (v : Value) : Option Hook := do
  match ← v.choice? with
  | ("ante_handle", v) =>
    let fields ← v.strictFields? ["tx"]
    return .beforeTx (← fields.get? "tx" Tx.ofWire?)
  | ("post_handle", v) =>
    let fields ← v.strictFields? ["tx", "simulate", "success"]
    return .afterTx (← fields.get? "tx" Tx.ofWire?) (← fields.get? "simulate" Value.bool?)
      (← fields.get? "success" Value.bool?)
  | ("end_block", v) =>
    let _ ← v.strictFields? []
    return .endBlock
  | _ => none

def LockCursor.ofWire? (v : Value) : Option LockCursor := do
  let fields ← v.strictFields? ["unlock_date", "address"]
  return ⟨← fields.get? "unlock_date" Value.text?, ← fields.get? "address" Value.text?⟩

def Query.ofWire? (v : Value) : Option Query := do
  match ← v.choice? with
  | ("config", v) =>
    let _ ← v.strictFields? []
    return .config
  | ("total_locked", v) =>
    let _ ← v.strictFields? []
    return .totalLocked
  | ("active_locks", v) =>
    let fields ← v.strictFields? ["start_after", "limit", "unlock_before"]
    return .activeLocks (← fields.optional? "start_after" LockCursor.ofWire?)
      (← fields.optional? "limit" Value.nat32?) (← fields.optional? "unlock_before" Value.text?)
  | ("locks", v) =>
    let fields ← v.strictFields? ["address"]
    return .locks (← fields.get? "address" Value.text?)
  | ("locks_for_addresses", v) =>
    let fields ← v.strictFields? ["addresses"]
    return .locksForAddresses (← fields.get? "addresses" Value.texts?)
  | _ => none

end StakeLock
