import StakeLock.Amount
import StakeLock.Clock
import StakeLock.Text.Numeral

/-!
# Wire values

The tree of a message as it arrives, and the readers that its parts share. A
reader answers nothing when the value has the wrong form.
-/

namespace StakeLock.Wire

inductive Value where
  | null
  | bool (b : Bool)
  | integer (n : Int)
  /-- A number that is not written as an integer. -/
  | fraction
  | text (s : String)
  | list (items : List Value)
  | object (fields : List (String × Value))
deriving Inhabited

abbrev Fields := List (String × Value)

namespace Value

mutual

/-- A bound on how deeply values are nested. -/
def depth : Value → Nat
  | list items => depthOfList items + 1
  | object fields => depthOfFields fields + 1
  | _ => 1

def depthOfList : List Value → Nat
  | [] => 0
  | v :: vs => max v.depth (depthOfList vs)

def depthOfFields : List (String × Value) → Nat
  | [] => 0
  | (_, v) :: fs => max v.depth (depthOfFields fs)

end

def text? : Value → Option String
  | text s => some s
  | _ => none

def bool? : Value → Option Bool
  | bool b => some b
  | _ => none

/-- A natural number below a bound. -/
def nat? (bound : Nat) : Value → Option Nat
  | integer n => if 0 ≤ n ∧ n < bound then some n.toNat else none
  | _ => none

def nat32? : Value → Option Nat := nat? 0x100000000

def nat64? : Value → Option Nat := nat? 0x10000000000000000

def list? {α : Type} (read : Value → Option α) : Value → Option (List α)
  | list items => items.mapM read
  | _ => none

def fields? : Value → Option Fields
  | object fields => some fields
  | _ => none

/-- The fields of an object that has no others than the known ones. -/
def strictFields? (known : List String) (v : Value) : Option Fields := do
  let fields ← v.fields?
  if fields.all fun f => known.contains f.1 then some fields else none

/-- A choice is an object with the tag as its only field. -/
def choice? : Value → Option (String × Value)
  | object [choice] => some choice
  | _ => none

def amount? (v : Value) : Option Amount := do
  Amount.ofNat? (← Text.unsigned? (← v.text?).toList)

def timestamp? (v : Value) : Option Timestamp := do
  Timestamp.ofNanos? (← Text.unsigned? (← v.text?).toList)

end Value

namespace Fields

variable {α : Type}

def find? (fields : Fields) (name : String) : Option Value := fields.lookup name

def get? (fields : Fields) (name : String) (read : Value → Option α) : Option α := do
  read (← find? fields name)

/-- A field that may be missing or null. -/
def optional? (fields : Fields) (name : String) (read : Value → Option α) : Option (Option α) :=
  match find? fields name with
  | none | some .null => some none
  | some v => (read v).map some

end Fields

end StakeLock.Wire
