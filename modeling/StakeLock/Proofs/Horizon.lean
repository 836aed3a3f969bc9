import StakeLock.Proofs.Accounts
import StakeLock.Proofs.Schedule.Order

/-!
# The horizon

Unlock dates are held against the horizon only when a lock is made or extended. From then on
the horizon moves ahead of them: it does so with every day, and with a configuration that
allows more months. Merging and releasing locks makes no new dates.
-/

namespace StakeLock

namespace Schedule

variable {s t : Schedule} {date source target : Date} {amount : Amount} {p : Date → Prop}

/-- The dates of all locks have a property. -/
def DatesIn (p : Date → Prop) (s : Schedule) : Prop := ∀ l ∈ s.locks, p l.date

theorem datesIn_empty : empty.DatesIn p := fun _ hl => nomatch hl

theorem DatesIn.sublist (h : s.DatesIn p) {locks : List Lock} (hs : locks.Sublist s.locks) :
    DatesIn p ⟨locks⟩ := fun l hl => h l (hs.subset hl)

theorem DatesIn.upsert (h : s.DatesIn p) (hdate : p date)
    (hu : s.upsert date amount = .ok t) : t.DatesIn p := by
  intro l hl
  rcases upsert_cases hu with ⟨-, rfl⟩ | ⟨-, i, _, sum, -, -, rfl⟩ | ⟨-, -, rfl⟩
  · exact h l hl
  · rcases List.mem_or_eq_of_mem_set hl with hold | rfl
    · exact h l hold
    · exact hdate
  · rcases List.eq_or_mem_of_mem_insertIdx hl with rfl | hold
    · exact hdate
    · exact h l hold

theorem DatesIn.shift (h : s.DatesIn p) (htarget : p target)
    (hs : s.shift source target amount = .ok t) : t.DatesIn p := by
  obtain ⟨i, l, -, -, hu⟩ := shift_eq_ok_iff.1 hs
  exact DatesIn.upsert (h.sublist (List.eraseIdx_sublist s.locks i)) htarget hu

theorem DatesIn.unexpired (h : s.DatesIn p) (now : Timestamp) : (s.unexpired now).DatesIn p :=
  h.sublist (List.dropWhile_sublist _)

end Schedule

namespace Store

/-- The dates of all locks have a property, and all entries of the queue are due on such
dates. -/
structure DatesIn (p : Date → Prop) (s : Store) : Prop where
  locked : ∀ {a account}, s.lockup? a = some account → account.schedule.DatesIn p
  queued : ∀ {key entry}, s.queue.get? key = some entry →
    ∃ date, unlockTime? date = some key.time ∧ p date

variable {s t : Store} {p q : Date → Prop} {key : QueueKey} {amount rest : Amount} {date : Date}
variable {address : Address} {account : LockupAccount}

theorem DatesIn.mono (h : s.DatesIn p) (hpq : ∀ date, p date → q date) : s.DatesIn q where
  locked haccount l hl := hpq _ (h.locked haccount l hl)
  queued hget := by
    obtain ⟨date, htime, hdate⟩ := h.queued hget
    exact ⟨date, htime, hpq date hdate⟩

theorem DatesIn.of_eq (h : s.DatesIn p) (haccounts : t.accounts = s.accounts)
    (hqueue : t.queue = s.queue) : t.DatesIn p := by
  constructor
  · intro a account haccount
    unfold lockup? account? at haccount
    rw [haccounts] at haccount
    exact h.locked haccount
  · intro key entry hget
    rw [hqueue] at hget
    exact h.queued hget

theorem DatesIn.enqueue (h : s.DatesIn p) (htime : unlockTime? date = some key.time)
    (hdate : p date) : (s.enqueue key amount).DatesIn p where
  locked := h.locked
  queued {k entry} hget := by
    by_cases hk : k = key
    · rw [hk]
      exact ⟨date, htime, hdate⟩
    · rw [s.get?_enqueue_of_ne hk] at hget
      exact h.queued hget

theorem DatesIn.dequeue (h : s.DatesIn p) : (s.dequeue key).DatesIn p where
  locked := h.locked
  queued {k entry} hget := by
    unfold Store.dequeue at hget
    simp only [Table.get?_erase] at hget
    split at hget
    · cases hget
    · exact h.queued hget

theorem DatesIn.leaveQueued (h : s.DatesIn p) (htime : unlockTime? date = some key.time)
    (hdate : p date) : (s.leaveQueued key rest).DatesIn p := by
  unfold Store.leaveQueued
  split
  · exact h.dequeue
  · exact h.enqueue htime hdate

theorem DatesIn.saved {d : Draft} (h : d.store.DatesIn p)
    (haccount : d.account.schedule.DatesIn p) : d.saved.DatesIn p where
  locked {a other} hother := by
    rw [lockup?_saved] at hother
    split at hother
    · cases hother
      exact haccount
    · exact h.locked hother
  queued := h.queued

theorem Opens.datesIn (h : s.Opens address account t) (hs : s.DatesIn p) :
    t.DatesIn p ∧ account.schedule.DatesIn p := by
  refine ⟨hs.of_eq h.accounts_eq h.queue_eq, ?_⟩
  rcases h.empty_or_lockup? with hempty | hlockup
  · rw [hempty]
    exact Schedule.datesIn_empty
  · exact hs.locked hlockup

theorem Releases.datesIn {locks : List Lock} (h : s.Releases address locks t)
    (hs : s.DatesIn p) : t.DatesIn p := by
  induction h with
  | nil => exact hs
  | undated _ _ ih => exact ih hs
  | absent _ _ _ ih => exact ih hs
  | taken _ _ _ _ ih => exact ih (hs.dequeue.of_eq rfl rfl)

theorem DatesIn.sweep (h : s.DatesIn p) (seconds : Nat) (total : Option Amount) :
    (s.withQueue (s.queue.filter fun e => !decide (e.1.time ≤ seconds)) total).DatesIn p where
  locked := h.locked
  queued {key entry} hget := by
    change (s.queue.filter _).get? key = some entry at hget
    rw [Table.get?_filter] at hget
    exact h.queued (Option.filter_eq_some_iff.1 hget).1

end Store

section

variable {p : Date → Prop} {d d' : Draft}

theorem Draft.Adds.datesIn {locks : List (Date × Amount)} (h : d.Adds locks d')
    (hlocks : ∀ l ∈ locks, p l.1) (hstore : d.store.DatesIn p)
    (haccount : d.account.schedule.DatesIn p) : d'.saved.DatesIn p := by
  induction h with
  | nil => exact hstore.saved haccount
  | cons htime hupsert _ _ _ ih =>
    obtain ⟨hdate, hrest⟩ := List.forall_mem_cons.1 hlocks
    exact ih hrest ((hstore.enqueue htime hdate).of_eq rfl rfl) (haccount.upsert hdate hupsert)

theorem Draft.Moves.datesIn {moves : List Move} (h : d.Moves moves d')
    (hmoves : ∀ m ∈ moves, p m.target) (hstore : d.store.DatesIn p)
    (haccount : d.account.schedule.DatesIn p) : d'.saved.DatesIn p := by
  induction h with
  | nil => exact hstore.saved haccount
  | cons hsource htarget hshift _ _ _ ih =>
    obtain ⟨hdate, hrest⟩ := List.forall_mem_cons.1 hmoves
    have hold := haccount _ (Schedule.mem_of_shift hshift)
    exact ih hrest ((hstore.leaveQueued hsource hold).enqueue htarget hdate)
      (haccount.shift hdate hshift)

end

section

variable {now : Timestamp} {terms : Option Config} {s t : Store}

/-- All new dates of a change are within the horizon that its call finds. -/
theorem Change.datesIn (h : Change now terms s t) (hs : s.DatesIn (WithinHorizon terms now)) :
    t.DatesIn (WithinHorizon terms now) := by
  cases h with
  | version _ => exact hs.of_eq rfl rfl
  | configure _ => exact hs.of_eq rfl rfl
  | register _ => exact hs.of_eq rfl rfl
  | lock hopens hlocks hadds =>
    obtain ⟨hopened, haccount⟩ := hopens.datesIn hs
    exact hadds.datesIn (fun l hl => (hlocks l hl).1.withinHorizon) hopened haccount
  | extend haccount hmoves hdraft =>
    exact hdraft.datesIn (fun m hm => (hmoves m hm).1) hs (hs.locked haccount)
  | clear haccount hreleases =>
    exact (hreleases.datesIn hs).saved ((hs.locked haccount).unexpired now)
  | sweep _ => exact hs.sweep _ _

theorem Changes.datesIn (h : Changes now terms s t) (hs : s.DatesIn (WithinHorizon terms now)) :
    t.DatesIn (WithinHorizon terms now) := by
  induction h with
  | refl => exact hs
  | tail _ hchange ih => exact hchange.datesIn ih

theorem Draft.config_saved (d : Draft) : d.saved.config = d.store.config := rfl

theorem Change.isSome_config (h : Change now terms s t) (hs : s.config.isSome) :
    t.config.isSome := by
  cases h with
  | version _ => exact hs
  | configure _ => rfl
  | register _ => exact hs
  | lock hopens _ hadds =>
    rw [Draft.config_saved, hadds.requeued.config_eq, hopens.config_eq]
    exact hs
  | extend _ _ hmoves =>
    rw [Draft.config_saved, hmoves.requeued.config_eq]
    exact hs
  | clear _ hreleases =>
    rw [Draft.config_saved, hreleases.requeued.config_eq]
    exact hs
  | sweep _ => exact hs

theorem Changes.isSome_config (h : Changes now terms s t) (hs : s.config.isSome) :
    t.config.isSome := by
  induction h with
  | refl => exact hs
  | tail _ hchange ih => exact hchange.isSome_config ih

/-- The dates of a store are within the horizon of its own configuration. -/
def Store.Foreseen (now : Timestamp) (s : Store) : Prop := s.DatesIn (WithinHorizon s.config now)

theorem Store.Foreseen.mono {later : Timestamp} (h : s.Foreseen now) (hnow : now ≤ later) :
    s.Foreseen later :=
  DatesIn.mono h fun _ hdate => hdate.mono hnow fun old hold => ⟨old, hold, Nat.le_refl _⟩

theorem Changes.foreseen (h : Changes now s.config s t) (hs : s.Foreseen now)
    (hkeeps : ∀ old ∈ s.config, ∀ new ∈ t.config, old.maxMonths ≤ new.maxMonths) :
    t.Foreseen now := by
  refine (h.datesIn hs).mono fun date hdate => hdate.mono (Nat.le_refl _) fun old hold => ?_
  have hsome : s.config.isSome := Option.isSome_of_mem hold
  obtain ⟨new, hnew⟩ := Option.isSome_iff_exists.1 (h.isSome_config hsome)
  exact ⟨new, hnew, hkeeps old hold new hnew⟩

end

/-- The configuration that a step leaves allows no fewer months than the one that it found. -/
def Step.KeepsMonths (step : Step) : Prop :=
  ∀ old ∈ step.before.config, ∀ new ∈ step.after.config, old.maxMonths ≤ new.maxMonths

instance (step : Step) : Decidable step.KeepsMonths := by
  unfold Step.KeepsMonths
  infer_instance

namespace Host

/-- Nothing is queued and no account has a schedule in the beginning. Time does not run
backwards, and what a call wrote before an abort or an internal error is discarded. -/
def unlocked : Host :=
  ⟨fun s => s.queue = .empty ∧ ∀ address, s.lockup? address = none, (· ≤ ·), Fault.Ordinary⟩

variable {last now : Timestamp} {steps : List Step} {s : Store}

theorem Runs.foreseen (h : unlocked.Runs last steps s) (hkeeps : ∀ step ∈ steps, step.KeepsMonths) :
    s.Foreseen last := by
  induction h with
  | start hs =>
    obtain ⟨hqueue, hnone⟩ := hs
    constructor
    · intro a account haccount
      rw [hnone a] at haccount
      cases haccount
    · intro key entry hget
      rw [hqueue] at hget
      cases hget
  | pass _ hnext ih => exact (ih hkeeps).mono hnext
  | done _ hnext hrun ih =>
    obtain ⟨hsteps, hlast⟩ := List.forall_mem_append.1 hkeeps
    exact (ends_call.of_ok hrun).foreseen ((ih hsteps).mono hnext)
      (hlast _ (List.mem_singleton_self _))
  | failed _ hnext hrun hkept ih =>
    obtain ⟨hsteps, hlast⟩ := List.forall_mem_append.1 hkeeps
    obtain ⟨m, hm, heq | htorn⟩ := ends_call.of_error hrun
    · rw [heq] at hlast ⊢
      exact hm.foreseen ((ih hsteps).mono hnext) (hlast _ (List.mem_singleton_self _))
    · exact absurd hkept htorn.1

/-- In every run that begins without locks, and in which no call lowers the number of months,
nobody is ever locked beyond the horizon, whoever made the lock: at any time from the last block
on, no lock of an account and no entry of the queue is due after the last date that a new lock
could have. -/
theorem nobody_locked_beyond_horizon (h : unlocked.Runs last steps s)
    (hkeeps : ∀ step ∈ steps, step.KeepsMonths) (hnow : last ≤ now) :
    (∀ a account, s.lockup? a = some account → ∀ lock ∈ account.schedule.locks,
      ∃ config, s.config = some config ∧
        lock.date ≤ (blockDate now).monthsFrom config.maxMonths) ∧
    ∀ key entry, s.queue.get? key = some entry →
      ∃ date config, dateOfUnlockTime? key.time = some date ∧ s.config = some config ∧
        date ≤ (blockDate now).monthsFrom config.maxMonths := by
  have hforeseen : s.Foreseen now := (h.foreseen hkeeps).mono hnow
  constructor
  · intro a account haccount lock hlock
    exact hforeseen.locked haccount lock hlock
  · intro key entry hget
    obtain ⟨date, htime, config, hconfig, hle⟩ := hforeseen.queued hget
    exact ⟨date, config, dateOfUnlockTime?_eq htime, hconfig, hle⟩

end Host

namespace FirstLock

/-- Alice locks until the first of March, and extends that on the next day by two months. Then
she lets locks last for three years. -/
def raised : List (Block × Call) :=
  [(block, call), (⟨2, nextDay⟩, .request alice extension),
    (⟨2, nextDay⟩, .request alice (.updateConfig ⟨none, none, some 36, none⟩))]

end FirstLock

open FirstLock in
/-- The extended lock of alice is within the horizon of three years. -/
theorem first_lock_within_horizon : ∃ steps s account lock, Host.unlocked.Runs nextDay steps s ∧
    (∀ step ∈ steps, step.KeepsMonths) ∧ s.lockup? alice = some account ∧
    account.schedule.locks = [lock] ∧ lock.date.text = "1970-05-01" ∧
    ∀ now, nextDay ≤ now → lock.date ≤ (blockDate now).monthsFrom 36 := by
  have hstart : Host.unlocked.Runs block.time [] start.store := .start ⟨rfl, fun _ => rfl⟩
  have hplay : (Host.play start raised).map (fun played =>
      (decide (∀ step ∈ played.1, step.KeepsMonths),
        (played.2.store.lockup? alice).map fun account =>
          account.schedule.locks.map fun lock => lock.date.text,
        played.2.store.config.map Config.maxMonths)) =
      some (true, some ["1970-05-01"], some 36) := by decide +kernel
  obtain ⟨⟨steps, c⟩, hplayed, heq⟩ := Option.map_eq_some_iff.1 hplay
  have htimes : List.IsChain (fun earlier later : Timestamp => earlier ≤ later)
      (block.time :: raised.map fun call => call.1.time) := by decide
  have hruns := hstart.play htimes hplayed
  simp only [Prod.mk.injEq, decide_eq_true_eq] at heq
  obtain ⟨hkeeps, hlocks, hmonths⟩ := heq
  obtain ⟨account, haccount, hlocks⟩ := Option.map_eq_some_iff.1 hlocks
  obtain ⟨lock, hlock, hdate⟩ := List.map_eq_singleton_iff.1 hlocks
  refine ⟨_, _, account, lock, hruns, hkeeps, haccount, hlock, hdate, fun now hnow => ?_⟩
  obtain ⟨config, hconfig, hle⟩ := (Host.nobody_locked_beyond_horizon hruns hkeeps hnow).1 alice
    account haccount lock (by rw [hlock]; exact List.mem_singleton_self _)
  rw [hconfig, Option.map_some, Option.some.injEq] at hmonths
  rwa [hmonths] at hle

end StakeLock
