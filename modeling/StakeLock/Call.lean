import StakeLock.Execute
import StakeLock.Hook

/-!
# Calls

The entry points of the engine: it is set up, executes requests, and runs the
hooks of its host.
-/

namespace StakeLock

inductive Call where
  | setUp (sender : Address) (setup : ConfigChange)
  | request (sender : Address) (request : Request)
  | hook (hook : Hook)

def Call.run {σ : Type} [HostLedger σ] [AddressRule] (block : Block) : Call → ChainM σ Response
  | .setUp sender setup => ChainM.onStore (instantiate sender setup)
  | .request sender req => execute block.time sender req
  | .hook h => runHook block h

end StakeLock
