import Mathlib.Logic.Relation
import StakeLock.Execute
import StakeLock.Proofs.Schedule.Amounts
import StakeLock.Proofs.Table
import StakeLock.Proofs.UnlockTime

/-!
# Changes of the store

What a call can do to the store, as a relation with one constructor for each
kind of change. Invariants are proved for one change; calls are shown to make
nothing but such changes.
-/

namespace StakeLock

theorem QueueKey.ne_of_address_ne {key : QueueKey} {time : Nat} {address : Address}
    (h : key.address ≠ address) : key ≠ ⟨time, address⟩ := by
  rintro rfl
  exact h rfl

/-- What an entry counts for. -/
def QueueEntry.value : QueueEntry → Nat
  | holds amount => amount.toNat
  | garbled => 0

namespace Store

variable (s : Store)

/-- The queued amount under a key, zero without an entry. -/
def queuedAt (key : QueueKey) : Nat := ((s.queue.get? key).map QueueEntry.value).getD 0

def queuedSum : Nat := s.queue.total QueueEntry.value

/-- The exact sum of the queue over the keys that satisfy a condition. -/
def queuedWhere (p : QueueKey → Bool) : Nat :=
  s.queue.weigh fun key entry => if p key then entry.value else 0

/-- What an account has locked until the dates that satisfy a condition. -/
def lockedWhere (address : Address) (p : Date → Bool) : Nat :=
  match s.lockup? address with
  | some account => account.schedule.amountWhere p
  | none => 0

/-- The exact locked amount of an account, zero unless it is a lockup account. -/
def lockedSum (address : Address) (now : Timestamp) : Nat :=
  match s.lockup? address with
  | some account => account.schedule.lockedSum now
  | none => 0

theorem lockedSum_eq_lockedWhere (address : Address) (now : Timestamp) :
    s.lockedSum address now = s.lockedWhere address (isLocked now) := by
  unfold lockedSum lockedWhere
  cases s.lockup? address with
  | none => rfl
  | some account => exact account.schedule.lockedSum_eq_amountWhere now

def enqueue (key : QueueKey) (amount : Amount) : Store :=
  { s with queue := s.queue.insert key (.holds amount) }

def dequeue (key : QueueKey) : Store := { s with queue := s.queue.erase key }

/-- Leaves the rest of an entry in the queue, if there is any. -/
def leaveQueued (key : QueueKey) (rest : Amount) : Store :=
  if rest.isZero then s.dequeue key else s.enqueue key rest

def setTotal (total : Amount) : Store := { s with totalLocked := some total }

def withQueue (queue : Table QueueKey QueueEntry) (totalLocked : Option Amount) : Store :=
  { s with queue := queue, totalLocked := totalLocked }

/-- Another store differs in nothing but the queue and the aggregate. -/
def Requeued (t : Store) : Prop := ∃ queue totalLocked, t = s.withQueue queue totalLocked

theorem queuedAt_enqueue (key k : QueueKey) (amount : Amount) :
    (s.enqueue key amount).queuedAt k = if k = key then amount.toNat else s.queuedAt k := by
  unfold queuedAt enqueue
  simp only [Table.get?_insert]
  split <;> rfl

theorem queuedAt_dequeue (key k : QueueKey) :
    (s.dequeue key).queuedAt k = if k = key then 0 else s.queuedAt k := by
  unfold queuedAt dequeue
  simp only [Table.get?_erase]
  split <;> rfl

theorem queuedAt_leaveQueued (key k : QueueKey) (rest : Amount) :
    (s.leaveQueued key rest).queuedAt k = if k = key then rest.toNat else s.queuedAt k := by
  unfold leaveQueued
  split
  · rename_i h
    have hz : rest.toNat = 0 := by simpa [Amount.isZero] using h
    rw [queuedAt_dequeue, hz]
  · exact s.queuedAt_enqueue key k rest

theorem get?_enqueue_of_ne {key k : QueueKey} (h : k ≠ key) (amount : Amount) :
    (s.enqueue key amount).queue.get? k = s.queue.get? k :=
  (Table.get?_insert _ _ _ _).trans (if_neg h)

theorem get?_enqueue_self (key : QueueKey) (amount : Amount) :
    (s.enqueue key amount).queue.get? key = some (.holds amount) :=
  (Table.get?_insert _ _ _ _).trans (if_pos rfl)

theorem get?_dequeue_self (key : QueueKey) : (s.dequeue key).queue.get? key = none :=
  (Table.get?_erase _ _ _).trans (if_pos rfl)

theorem get?_leaveQueued_of_ne {key k : QueueKey} (h : k ≠ key) (rest : Amount) :
    (s.leaveQueued key rest).queue.get? k = s.queue.get? k := by
  unfold leaveQueued
  split
  · exact (Table.get?_erase _ _ _).trans (if_neg h)
  · exact s.get?_enqueue_of_ne h rest

theorem value_where (p : QueueKey → Bool) (key : QueueKey) :
    ((s.queue.get? key).map fun entry => if p key then entry.value else 0).getD 0 =
      if p key then s.queuedAt key else 0 := by
  unfold queuedAt
  cases s.queue.get? key <;> simp

theorem queuedWhere_enqueue (p : QueueKey → Bool) (key : QueueKey) (amount : Amount) :
    (s.enqueue key amount).queuedWhere p + (if p key then s.queuedAt key else 0) =
      s.queuedWhere p + if p key then amount.toNat else 0 := by
  rw [← value_where]
  exact s.queue.weigh_insert _ key (.holds amount)

theorem queuedWhere_dequeue (p : QueueKey → Bool) (key : QueueKey) :
    (s.dequeue key).queuedWhere p + (if p key then s.queuedAt key else 0) = s.queuedWhere p := by
  rw [← value_where]
  exact s.queue.weigh_erase _ key

theorem queuedWhere_leaveQueued (p : QueueKey → Bool) (key : QueueKey) (rest : Amount) :
    (s.leaveQueued key rest).queuedWhere p + (if p key then s.queuedAt key else 0) =
      s.queuedWhere p + if p key then rest.toNat else 0 := by
  unfold leaveQueued
  split
  · rename_i h
    have hz : rest.toNat = 0 := by simpa [Amount.isZero] using h
    rw [queuedWhere_dequeue, hz, ite_self, Nat.add_zero]
  · exact s.queuedWhere_enqueue p key rest

theorem queuedSum_enqueue (key : QueueKey) (amount : Amount) :
    (s.enqueue key amount).queuedSum + s.queuedAt key = s.queuedSum + amount.toNat :=
  s.queuedWhere_enqueue (fun _ => true) key amount

theorem queuedSum_dequeue (key : QueueKey) :
    (s.dequeue key).queuedSum + s.queuedAt key = s.queuedSum :=
  s.queuedWhere_dequeue (fun _ => true) key

theorem queuedSum_leaveQueued (key : QueueKey) (rest : Amount) :
    (s.leaveQueued key rest).queuedSum + s.queuedAt key = s.queuedSum + rest.toNat :=
  s.queuedWhere_leaveQueued (fun _ => true) key rest

theorem requeued_self : s.Requeued s := ⟨s.queue, s.totalLocked, rfl⟩

theorem requeued_enqueue (key : QueueKey) (amount : Amount) : s.Requeued (s.enqueue key amount) :=
  ⟨_, s.totalLocked, rfl⟩

theorem requeued_dequeue (key : QueueKey) : s.Requeued (s.dequeue key) := ⟨_, s.totalLocked, rfl⟩

theorem requeued_leaveQueued (key : QueueKey) (rest : Amount) :
    s.Requeued (s.leaveQueued key rest) := by
  unfold leaveQueued
  split
  · exact s.requeued_dequeue key
  · exact s.requeued_enqueue key rest

theorem requeued_setTotal (total : Amount) : s.Requeued (s.setTotal total) := ⟨s.queue, _, rfl⟩

variable {s} in
theorem Requeued.accounts_eq {t : Store} (h : s.Requeued t) : t.accounts = s.accounts := by
  obtain ⟨queue, total, rfl⟩ := h
  rfl

variable {s} in
theorem Requeued.config_eq {t : Store} (h : s.Requeued t) : t.config = s.config := by
  obtain ⟨queue, total, rfl⟩ := h
  rfl

@[simp] theorem total_setTotal (total : Amount) : (s.setTotal total).total = total := rfl

variable {s} in
/-- Equal aggregates are stored alike, unless one of them is not stored at all. -/
theorem totalLocked_eq {t : Store} (hsum : t.total.toNat = s.total.toNat)
    (hwritten : t.totalLocked.isSome ↔ s.totalLocked.isSome) : t.totalLocked = s.totalLocked := by
  have htotal : t.total = s.total := Amount.ext hsum
  unfold Store.total at htotal
  cases ht : t.totalLocked <;> cases hs : s.totalLocked <;> simp_all

@[simp] theorem queuedAt_setTotal (total : Amount) (key : QueueKey) :
    (s.setTotal total).queuedAt key = s.queuedAt key := rfl

@[simp] theorem queuedWhere_setTotal (p : QueueKey → Bool) (total : Amount) :
    (s.setTotal total).queuedWhere p = s.queuedWhere p := rfl

@[simp] theorem queuedSum_setTotal (total : Amount) : (s.setTotal total).queuedSum = s.queuedSum :=
  rfl

variable {s} in
theorem Requeued.trans {t u : Store} (h : s.Requeued t) (h' : t.Requeued u) : s.Requeued u := by
  obtain ⟨queue, total, rfl⟩ := h
  obtain ⟨queue', total', rfl⟩ := h'
  exact ⟨queue', total', rfl⟩

/-- Opening an account for locks: one that exists is upgraded, another one is
registered with the next account number. -/
inductive Opens (address : Address) : LockupAccount → Store → Prop
  | upgraded {account} : s.account? address = some account → Opens address account.upgrade s
  | registered : s.account? address = none →
      s.nextAccountNumber.getD 0 + 1 < accountNumberBound →
      Opens address ⟨⟨address, none, s.nextAccountNumber.getD 0, 0⟩, Schedule.empty⟩
        { s with nextAccountNumber := some (s.nextAccountNumber.getD 0 + 1) }

/-- An address has an account, or a number is left for one. -/
def Openable (address : Address) : Prop :=
  s.account? address ≠ none ∨ s.nextAccountNumber.getD 0 + 1 < accountNumberBound

variable {s} in
theorem Opens.openable {address : Address} {account : LockupAccount} {opened : Store}
    (h : s.Opens address account opened) : s.Openable address := by
  cases h with
  | upgraded h =>
    left
    rw [h]
    exact Option.some_ne_none _
  | registered _ hlt => exact .inr hlt

def due (seconds : Nat) : List (QueueKey × QueueEntry) :=
  s.queue.entries.filter fun e => e.1.time ≤ seconds

end Store

/-- The queue entries of the locks of an account that are still there are taken, one after
another, and taken off the aggregate. -/
inductive Store.Releases (address : Address) : Store → List Lock → Store → Prop
  | nil {s} : Releases address s [] s
  | undated {s t lock locks} : unlockTime? lock.date = none → Releases address s locks t →
      Releases address s (lock :: locks) t
  | absent {s t lock locks time} : unlockTime? lock.date = some time →
      s.queue.get? ⟨time, address⟩ = none → Releases address s locks t →
      Releases address s (lock :: locks) t
  | taken {s t lock locks time amount total} : unlockTime? lock.date = some time →
      s.queue.get? ⟨time, address⟩ = some (.holds amount) →
      s.total.toNat = amount.toNat + total.toNat →
      Releases address ((s.dequeue ⟨time, address⟩).setTotal total) locks t →
      Releases address s (lock :: locks) t

/-- A lockup account under change, beside the store that it is going to be saved in. -/
structure Draft where
  account : LockupAccount
  store : Store

namespace Draft

def saved (d : Draft) : Store := d.store.putAccount (.lockup d.account)

/-- Amounts are added one after another, each to the schedule, to the queue and
to the aggregate. -/
inductive Adds : Draft → List (Date × Amount) → Draft → Prop
  | nil {d} : Adds d [] d
  | cons {account s date amount locks d time schedule queued total} :
      unlockTime? date = some time → account.schedule.upsert date amount = .ok schedule →
      s.queuedAt ⟨time, account.address⟩ + amount.toNat = queued.toNat →
      s.total.toNat + amount.toNat = total.toNat →
      Adds ⟨{ account with schedule := schedule },
        (s.enqueue ⟨time, account.address⟩ queued).setTotal total⟩ locks d →
      Adds ⟨account, s⟩ ((date, amount) :: locks) d

/-- Whole locks are moved one after another, each in the schedule and in the queue. -/
inductive Moves : Draft → List Move → Draft → Prop
  | nil {d} : Moves d [] d
  | cons {account s move moves d sourceTime targetTime schedule rest queued} :
      unlockTime? move.source = some sourceTime → unlockTime? move.target = some targetTime →
      account.schedule.shift move.source move.target move.amount = .ok schedule →
      s.queuedAt ⟨sourceTime, account.address⟩ = move.amount.toNat + rest.toNat →
      (s.leaveQueued ⟨sourceTime, account.address⟩ rest).queuedAt
        ⟨targetTime, account.address⟩ + move.amount.toNat = queued.toNat →
      Moves ⟨{ account with schedule := schedule },
        (s.leaveQueued ⟨sourceTime, account.address⟩ rest).enqueue
          ⟨targetTime, account.address⟩ queued⟩ moves d →
      Moves ⟨account, s⟩ (move :: moves) d

end Draft

/-- One change of the store at a ledger time, in a call that finds a configuration or none. -/
inductive Change (now : Timestamp) (terms : Option Config) : Store → Store → Prop
  | version {s} (v : Version) : Change now terms s { s with version := some v }
  | configure {s} {config : Config} : config.Valid →
      Change now terms s { s with config := some config }
  | register {s : Store} : s.nextAccountNumber.getD 0 + 1 < accountNumberBound →
      Change now terms s { s with nextAccountNumber := some (s.nextAccountNumber.getD 0 + 1) }
  | lock {s opened address account locks d} : s.Opens address account opened →
      (∀ l ∈ locks, Admits terms now l.1 ∧ l.2 ≠ Amount.zero) →
      Draft.Adds ⟨account, opened⟩ locks d → Change now terms s d.saved
  | extend {s address account moves d} : s.lockup? address = some account →
      (∀ m ∈ moves, WithinHorizon terms now m.target ∧ isLocked now m.source ∧
        m.source < m.target ∧ m.amount ≠ Amount.zero) →
      Draft.Moves ⟨account, s⟩ moves d → Change now terms s d.saved
  | clear {s t address account} : s.lockup? address = some account →
      s.Releases account.address (account.schedule.expired now) t →
      Change now terms s
        (Draft.saved ⟨{ account with schedule := account.schedule.unexpired now }, t⟩)
  | sweep {s total} :
      s.total.toNat = ((s.due now.seconds).map fun e => e.2.value).sum + total.toNat →
      Change now terms s (s.withQueue (s.queue.filter fun e => !decide (e.1.time ≤ now.seconds))
        (some total))

abbrev Changes (now : Timestamp) (terms : Option Config) : Store → Store → Prop :=
  Relation.ReflTransGen (Change now terms)

end StakeLock
