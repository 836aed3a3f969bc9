import StakeLock.Store

/-!
# Expiration queue

Changes of the queue and of the aggregate, and the sweep that empties the due
part of the queue.
-/

namespace StakeLock

open StoreM

namespace Queue

def load (key : QueueKey) : StoreM (Option Amount) := do
  acceptSystem ((← getStore).queued? key)

def put (key : QueueKey) (amount : Amount) : StoreM Unit :=
  modifyStore fun s => { s with queue := s.queue.insert key (.holds amount) }

def drop (key : QueueKey) : StoreM Unit :=
  modifyStore fun s => { s with queue := s.queue.erase key }

/-- Adds to an entry, which is created when it is missing. -/
def add (key : QueueKey) (amount : Amount) : StoreM Unit := do
  let current ← load key
  let sum ← acceptSystem ((current.getD Amount.zero).checkedAdd amount)
  put key sum

def refuseDesync {α : Type} (key : QueueKey) (amount : Amount) : StoreM α := do
  note (.queueOutOfSync key.address key.time amount)
  refuse (.queueDesync key.address.text key.time)

/-- Takes from an entry, which disappears when nothing is left of it. An entry
that is missing or too small does not match the locks of the account. -/
def remove (key : QueueKey) (amount : Amount) : StoreM Unit := do
  match ← load key with
  | none => refuseDesync key amount
  | some current =>
    match current.sub? amount with
    | none => refuseDesync key amount
    | some rest => if rest.isZero then drop key else put key rest

/-- Removes an entry, if it is still queued, and returns its amount. -/
def take (key : QueueKey) : StoreM (Option Amount) := do
  let amount ← load key
  if amount.isSome then drop key
  return amount

end Queue

namespace Aggregate

def put (total : Amount) : StoreM Unit := modifyStore fun s => { s with totalLocked := some total }

def increase (amount : Amount) : StoreM Unit := do
  put (← acceptSystem ((← getStore).total.checkedAdd amount))

def decrease (amount : Amount) : StoreM Unit := do
  put (← acceptSystem ((← getStore).total.checkedSub amount))

end Aggregate

/-- What a sweep gathered, how many entries it removed, and what stopped it early. -/
structure Sweep (β : Type) where
  gathered : β
  count : Nat
  halted : Option LockError

namespace Sweep

variable {β : Type}

/-- Visits entries in order and removes each one after its visit. A refused
visit leaves its entry and the later ones in the queue. -/
def visitAll (visit : β → QueueKey → Amount → Except LockError β) :
    Sweep β → List (QueueKey × Amount) → StoreM (Sweep β)
  | done, [] => return done
  | done, (key, amount) :: rest =>
    match visit done.gathered key amount with
    | .error reason => return { done with halted := some reason }
    | .ok gathered => do
      Queue.drop key
      visitAll visit { done with gathered := gathered, count := done.count + 1 } rest

/-- Sweeps all entries whose unlock time is at or before the cutoff. They are
all decoded before the first one is visited. -/
def run (cutoff : Timestamp) (visit : β → QueueKey → Amount → Except LockError β) (start : β) :
    StoreM (Sweep β) := do
  let due ← acceptSystem ((← getStore).dueEntries cutoff.seconds)
  visitAll visit ⟨start, 0, none⟩ due

end Sweep

end StakeLock
