import StakeLock.Address

/-!
# Configuration

Who may change the configuration, the window of unlock dates in months from
today, and how many entries one request may carry.
-/

namespace StakeLock

structure Config where
  authority : Address
  minMonths : Nat
  maxMonths : Nat
  maxEntries : Nat
deriving DecidableEq

namespace Config

def defaultMinMonths : Nat := 6

def defaultMaxMonths : Nat := 24

def defaultMaxEntries : Nat := 100

variable (c : Config)

def Valid : Prop := 0 < c.maxMonths ∧ c.minMonths ≤ c.maxMonths ∧ 0 < c.maxEntries

instance : Decidable c.Valid := by
  unfold Valid
  infer_instance

/-- The first rule that a configuration breaks. -/
def check : Except LockError Unit :=
  if c.maxMonths = 0 then .error (.invalidConfig .noHorizon)
  else if c.maxMonths < c.minMonths then .error (.invalidConfig .emptyWindow)
  else if c.maxEntries = 0 then .error (.invalidConfig .noEntries)
  else .ok ()

theorem check_eq_ok_iff : c.check = .ok () ↔ c.Valid := by
  unfold check Valid
  repeat' split
  all_goals simp
  all_goals omega

def checkEntryCount (count : Nat) : Except LockError Unit :=
  if count = 0 then .error .emptyRequest
  else if c.maxEntries < count then .error (.tooManyEntries c.maxEntries)
  else .ok ()

end Config

end StakeLock
