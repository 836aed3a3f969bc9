import StakeLock.Event
import StakeLock.Locking
import StakeLock.Request

/-!
# Setting up and changing the configuration

Whoever sets up the engine may name the authority, which alone may change the
configuration afterwards. A configuration is stored only if it is valid.
-/

namespace StakeLock

def contractVersion : Version := ⟨"crates.io:cw-disper-lockup", "0.1.0"⟩

def setConfig (config : Config) : StoreM Unit :=
  StoreM.modifyStore fun s => { s with config := some config }

variable [AddressRule]

/-- The version is recorded first, also when the configuration is then refused. -/
def instantiate (sender : Address) (setup : ConfigChange) : StoreM Response := do
  StoreM.modifyStore fun s => { s with version := some contractVersion }
  let authority ← match setup.authority with
    | some text => accept (Address.ofText text)
    | none => pure sender
  let config : Config :=
    { authority := authority
      minMonths := setup.minMonths.getD Config.defaultMinMonths
      maxMonths := setup.maxMonths.getD Config.defaultMaxMonths
      maxEntries := setup.maxEntries.getD Config.defaultMaxEntries }
  accept config.check
  setConfig config
  return ⟨[("action", "instantiate"), ("authority", config.authority.text)], []⟩

def updateConfig (sender : Address) (change : ConfigChange) : StoreM Response := do
  let config ← acceptSystem (← StoreM.getStore).getConfig
  if sender ≠ config.authority then refuse .unauthorized
  let authority ← match change.authority with
    | some text => accept (Address.ofText text)
    | none => pure config.authority
  let config : Config :=
    { authority := authority
      minMonths := change.minMonths.getD config.minMonths
      maxMonths := change.maxMonths.getD config.maxMonths
      maxEntries := change.maxEntries.getD config.maxEntries }
  accept config.check
  setConfig config
  return ⟨[("action", "update_config"), ("authority", config.authority.text)], []⟩

end StakeLock
