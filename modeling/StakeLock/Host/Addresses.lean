import StakeLock.Address
import StakeLock.Text.Capital

/-!
# Addresses of a test host

A host that takes nearly every text for an address, if it is neither too short nor too long.
-/

namespace StakeLock.Address

def tooShort : SystemError :=
  .generic ("Invalid input: human address too short for this mock implementation " ++
    "(must be >= 3).")

def tooLong : SystemError :=
  .generic ("Invalid input: human address too long for this mock implementation " ++
    "(must be <= 90).")

def notNormalized : SystemError := .generic "Invalid input: address not normalized"

/-- Accepts texts of 3 to 90 UTF-8 bytes without capitals and null characters. -/
def plain (text : String) : Except SystemError Address :=
  if text.utf8ByteSize < 3 then .error tooShort
  else if 90 < text.utf8ByteSize then .error tooLong
  else if text.toList.any (fun c => Text.isCapital c || c == '\x00') then .error notNormalized
  else .ok ⟨text⟩

instance plainRule : AddressRule where
  validate := plain
  text_eq {text address} h := by
    unfold plain at h
    repeat' split at h
    all_goals cases h
    rfl

end StakeLock.Address
