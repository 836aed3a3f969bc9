import StakeLock.Error

/-!
# Addresses

An address is a text. Those in requests are validated before use, by the rule of
the host; those of senders and stored accounts are taken as they are. Addresses
are ordered by code points, which is also the order of their UTF-8 bytes.
-/

namespace StakeLock

@[ext] structure Address where
  text : String
deriving DecidableEq, Inhabited

namespace Address

instance : Ord Address := ⟨fun a b => compare a.text b.text⟩

theorem compare_def (a b : Address) : compare a b = compare a.text b.text := rfl

instance : Std.TransOrd Address :=
  inferInstanceAs (Std.TransCmp (compareOn text))

instance : Std.LawfulEqOrd Address where
  eq_of_compare {a b} h := by
    cases a; cases b
    exact congrArg _ (Std.LawfulEqOrd.eq_of_compare h)

end Address

/-- The rule by which a host takes texts for addresses. -/
class AddressRule where
  validate (text : String) : Except SystemError Address
  text_eq {text : String} {address : Address} : validate text = .ok address → address.text = text

/-- A validated address, or an error with the text that was rejected. -/
def Address.ofText [AddressRule] (text : String) : Except LockError Address :=
  (AddressRule.validate text).mapError (.invalidAddress text)

end StakeLock
