import StakeLock.Clock

/-!
# Lock schedules

The locks of one account, which the operations keep strictly increasing by
date and free of zero amounts: locks of one date are merged. A stored schedule
may break this rule, so look-up is a binary search that fixes its answer on
every list.
-/

namespace StakeLock

structure Lock where
  date : Date
  amount : Amount
deriving DecidableEq

structure Schedule where
  locks : List Lock
deriving DecidableEq

namespace Schedule

variable (s : Schedule)

def empty : Schedule := ⟨[]⟩

instance : Inhabited Schedule := ⟨empty⟩

/-- Strictly increasing dates and positive amounts. -/
def Ordered : Prop :=
  s.locks.Pairwise (fun a b => a.date < b.date) ∧ ∀ l ∈ s.locks, l.amount ≠ Amount.zero

def length : Nat := s.locks.length

def isEmpty : Bool := s.locks.isEmpty

/-- Halves a window of positions until one is left. The upper half is kept
unless its first lock comes after the date. -/
def pivotWithin (locks : List Lock) (date : Date) (base size : Nat) : Nat :=
  if size ≤ 1 then base
  else
    let half := size / 2
    match locks[base + half]? with
    | some lock =>
      if date < lock.date then pivotWithin locks date base (size - half)
      else pivotWithin locks date (base + half) (size - half)
    | none => base
termination_by size
decreasing_by all_goals omega

/-- Where the search for a date ends: at its lock, or beside the place for it. -/
def pivot (date : Date) : Nat := pivotWithin s.locks date 0 s.length

/-- The lock of a date, with its position. -/
def find? (date : Date) : Option (Nat × Lock) :=
  match s.locks[s.pivot date]? with
  | some lock => if lock.date = date then some (s.pivot date, lock) else none
  | none => none

/-- Where a lock of a date that has none belongs. -/
def insertionPoint (date : Date) : Nat :=
  match s.locks[s.pivot date]? with
  | some lock => if lock.date < date then s.pivot date + 1 else s.pivot date
  | none => 0

/-- Adds an amount to the lock of a date. A zero amount changes nothing. -/
def upsert (date : Date) (amount : Amount) : Except SystemError Schedule :=
  if amount.isZero then .ok s
  else match s.find? date with
    | some (i, lock) => do
      let sum ← lock.amount.checkedAdd amount
      return ⟨s.locks.set i ⟨lock.date, sum⟩⟩
    | none => .ok ⟨s.locks.insertIdx (s.insertionPoint date) ⟨date, amount⟩⟩

def removeAt (i : Nat) : Schedule := ⟨s.locks.eraseIdx i⟩

def shift (source target : Date) (amount : Amount) : Except LockError Schedule :=
  match s.find? source with
  | none => .error (.lockupNotFound source)
  | some (i, lock) =>
    if lock.amount ≠ amount then
      .error (.extensionAmountMismatch source lock.amount amount)
    else ((s.removeAt i).upsert target amount).mapError .system

/-- Locks whose date is still to come. -/
def active (now : Timestamp) : List Lock := s.locks.filter fun l => isLocked now l.date

/-- The sum of the active locks, if it is an amount. -/
def lockedAmount? (now : Timestamp) : Option Amount :=
  Amount.sum? ((s.active now).map Lock.amount)

/-- The locks before the first active one. -/
def expired (now : Timestamp) : List Lock := s.locks.takeWhile fun l => !isLocked now l.date

/-- What remains when the expired locks are dropped. -/
def unexpired (now : Timestamp) : Schedule :=
  ⟨s.locks.dropWhile fun l => !isLocked now l.date⟩

theorem expired_append_unexpired (now : Timestamp) :
    s.expired now ++ (s.unexpired now).locks = s.locks :=
  List.takeWhile_append_dropWhile

end Schedule

end StakeLock
