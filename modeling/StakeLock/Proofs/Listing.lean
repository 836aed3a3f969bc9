import StakeLock.Proofs.ByteOrder
import StakeLock.Proofs.Expiry
import StakeLock.Proofs.Mirror
import StakeLock.Query

/-!
# Listed locks

A page skips the entries that have expired, and stops at the last date. Since the queue
is in the order of its unlock times, that leaves exactly the entries that are active and
within the bounds, as many of them as the page has room for.
-/

namespace StakeLock

namespace Query

/-- An entry with its date, unless it does not decode or lies beyond the last date. -/
def DatedEntry.ofQueued? (e : QueueKey × QueueEntry) : Option DatedEntry :=
  match e.2 with
  | .holds amount => (dateOfUnlockTime? e.1.time).map fun date => ⟨e.1, date, amount⟩
  | .garbled => none

/-- The lock that the entry stands for, with the address of its account. -/
def DatedEntry.owned (e : DatedEntry) : Address × Lock := (e.key.address, ⟨e.date, e.amount⟩)

/-- The lock of the entry is active, and the entry lies between the bounds. -/
def DatedEntry.isListed (now : Timestamp) (after : Option QueueKey) (before : Option Nat)
    (e : DatedEntry) : Bool :=
  after.all (fun key => compare key e.key == .lt) && isLocked now e.date &&
    before.all fun time => e.key.time < time

end Query

open Query

namespace Store

/-- The entries of the queue that decode, with their dates. -/
def datedQueue (s : Store) : List DatedEntry := s.queue.entries.filterMap DatedEntry.ofQueued?

/-- What the pages after a lock and before a time list together. -/
def listed (s : Store) (now : Timestamp) (after : Option QueueKey) (before : Option Nat) :
    List DatedEntry := s.datedQueue.filter (DatedEntry.isListed now after before)

variable {now later : Timestamp} {s t : Store} {after : Option QueueKey} {before : Option Nat}
variable {e : DatedEntry} {who : Address → Bool} {gone : QueueKey → Bool}

theorem ofQueued?_eq_some_iff {e : QueueKey × QueueEntry} {d : DatedEntry} :
    DatedEntry.ofQueued? e = some d ↔
      e = (d.key, .holds d.amount) ∧ dateOfUnlockTime? d.key.time = some d.date := by
  obtain ⟨key, entry⟩ := e
  obtain ⟨key', date, amount⟩ := d
  cases entry with
  | garbled => simp [DatedEntry.ofQueued?]
  | holds x =>
    simp only [DatedEntry.ofQueued?, Option.map_eq_some_iff, DatedEntry.mk.injEq, Prod.mk.injEq,
      QueueEntry.holds.injEq]
    constructor
    · rintro ⟨_, hdate, rfl, rfl, rfl⟩
      exact ⟨⟨rfl, rfl⟩, hdate⟩
    · rintro ⟨⟨rfl, rfl⟩, hdate⟩
      exact ⟨date, hdate, rfl, rfl, rfl⟩

theorem pairwise_datedQueue (s : Store) :
    s.datedQueue.Pairwise fun a b => compare a.key b.key = .lt := by
  refine s.queue.sorted.filterMap _ fun d d' hlt e he e' he' => ?_
  rw [ofQueued?_eq_some_iff] at he he'
  rw [he.1, he'.1] at hlt
  exact hlt

theorem pairwise_listed (s : Store) (now : Timestamp) (after : Option QueueKey)
    (before : Option Nat) :
    (s.listed now after before).Pairwise fun a b => compare a.key b.key = .lt :=
  s.pairwise_datedQueue.sublist List.filter_sublist

theorem mem_datedQueue : e ∈ s.datedQueue ↔ s.queue.get? e.key = some (.holds e.amount) ∧
    dateOfUnlockTime? e.key.time = some e.date := by
  unfold datedQueue
  rw [List.mem_filterMap, Table.get?_eq_some_iff]
  constructor
  · rintro ⟨d, hd, he⟩
    obtain ⟨rfl, hdate⟩ := ofQueued?_eq_some_iff.1 he
    exact ⟨hd, hdate⟩
  · rintro ⟨hd, hdate⟩
    exact ⟨_, hd, ofQueued?_eq_some_iff.2 ⟨rfl, hdate⟩⟩

theorem Dated.unlockTime?_of_mem (h : s.Dated) (he : e ∈ s.datedQueue) :
    unlockTime? e.date = some e.key.time := by
  obtain ⟨hget, hdate⟩ := mem_datedQueue.1 he
  obtain ⟨date, _, htime, -⟩ := h _ _ hget
  rw [dateOfUnlockTime?_eq htime] at hdate
  cases hdate
  exact htime

theorem Dated.mem_listed (h : s.Dated) : e ∈ s.listed now after before ↔
    s.queue.get? e.key = some (.holds e.amount) ∧ unlockTime? e.date = some e.key.time ∧
      isLocked now e.date ∧ (∀ key ∈ after, compare key e.key = .lt) ∧
      ∀ time ∈ before, e.key.time < time := by
  unfold listed DatedEntry.isListed
  simp only [List.mem_filter, Bool.and_eq_true, Option.all_eq_true, beq_iff_eq, decide_eq_true_eq]
  constructor
  · rintro ⟨he, ⟨hafter, hlocked⟩, hbefore⟩
    exact ⟨(mem_datedQueue.1 he).1, h.unlockTime?_of_mem he, hlocked, hafter, hbefore⟩
  · rintro ⟨hget, htime, hlocked, hafter, hbefore⟩
    exact ⟨mem_datedQueue.2 ⟨hget, dateOfUnlockTime?_eq htime⟩, ⟨hafter, hlocked⟩, hbefore⟩

def Readable (s : Store) : Prop := ∀ key, s.queue.get? key ≠ some .garbled

theorem Readable.exists_holds (h : s.Readable) {key : QueueKey} {entry : QueueEntry}
    (hget : s.queue.get? key = some entry) : ∃ x, entry = .holds x := by
  cases entry with
  | holds x => exact ⟨x, rfl⟩
  | garbled => exact absurd hget (h key)

theorem Dated.readable (h : s.Dated) : s.Readable := by
  intro key hget
  obtain ⟨_, _, -, hentry, -⟩ := h key _ hget
  cases hentry

/-! ## Active locks of an account -/

/-- The active locks of an address, which are none if it has no schedule. -/
def activeLocks (s : Store) (now : Timestamp) (a : Address) : List Lock :=
  ((s.lockup? a).map fun account => account.schedule.active now).getD []

theorem mem_activeLocks {a : Address} {lock : Lock} : lock ∈ s.activeLocks now a ↔
    isLocked now lock.date ∧
      ∃ account, s.lockup? a = some account ∧ lock ∈ account.schedule.locks := by
  unfold activeLocks
  cases s.lockup? a with
  | none => simp
  | some account => simp [Schedule.active, and_comm]

/-- In a mirrored store the active locks of the accounts are listed, up to the bound. -/
theorem Mirrors.mem_owned_iff (h : s.Mirrors now) {a : Address} {lock : Lock} :
    (a, lock) ∈ (s.listed now none before).map DatedEntry.owned ↔ lock ∈ s.activeLocks now a ∧
      ∀ time, unlockTime? lock.date = some time → ∀ bound ∈ before, time < bound := by
  rw [List.mem_map, mem_activeLocks]
  constructor
  · rintro ⟨e, he, heq⟩
    cases heq
    obtain ⟨hget, htime, hlocked, -, hbefore⟩ := h.dated.mem_listed.1 he
    obtain ⟨account, haccount, hlock⟩ := h.mem_of_queued hlocked htime hget
    refine ⟨⟨hlocked, account, lockup?_eq_some_iff.2 haccount, hlock⟩, fun time htime' => ?_⟩
    change unlockTime? e.date = some time at htime'
    rw [htime] at htime'
    cases htime'
    exact hbefore
  · rintro ⟨⟨hlocked, account, haccount, hlock⟩, hbefore⟩
    obtain ⟨time, htime, hget⟩ := h.queued_of_mem hlocked (account?_eq_of_lockup? haccount) hlock
    exact ⟨⟨⟨time, a⟩, lock.date, lock.amount⟩,
      h.dated.mem_listed.2 ⟨hget, htime, hlocked, by simp, hbefore time htime⟩, rfl⟩

/-! ## Pages -/

theorem Readable.datedEntries (h : s.Readable) (p : QueueKey → Bool) :
    Query.datedEntries (s.queue.entries.filter fun e => p e.1) =
      (s.datedQueue.filter fun e => p e.key).map .ok := by
  unfold Query.datedEntries datedQueue
  rw [List.filter_filterMap, List.map_filterMap, List.filterMap_filter]
  apply List.filterMap_congr
  rintro ⟨key, entry⟩ he
  obtain ⟨x, rfl⟩ := h.exists_holds (Table.get?_eq_some_iff.2 he)
  simp only [DatedEntry.ofQueued?, QueueEntry.read]
  cases dateOfUnlockTime? key.time <;> by_cases hp : p key <;> simp [hp, Option.filter]

theorem pairwise_past (s : Store) (now : Timestamp) :
    s.datedQueue.Pairwise fun a b => !isLocked now b.date → !isLocked now a.date := by
  refine s.pairwise_datedQueue.imp_of_mem fun {a b} ha hb hlt hpast => ?_
  have hle : a.date ≤ b.date := dateOfUnlockTime?_mono (mem_datedQueue.1 ha).2
    (mem_datedQueue.1 hb).2 (QueueKey.time_le_of_compare hlt)
  rw [Bool.not_eq_true', Bool.eq_false_iff, ne_eq, isLocked_iff_blockDate_lt] at hpast ⊢
  exact fun hlocked => hpast (Int.lt_of_lt_of_le hlocked hle)

theorem pairwise_within (s : Store) (before : Option Nat) : s.datedQueue.Pairwise fun a b =>
    before.all (fun time => b.key.time < time) → before.all fun time => a.key.time < time := by
  refine s.pairwise_datedQueue.imp fun {a b} hlt hwithin => ?_
  have hle := QueueKey.time_le_of_compare hlt
  cases before with
  | none => rfl
  | some time =>
    simp only [Option.all_some, decide_eq_true_eq] at hwithin ⊢
    omega

theorem page_eq (s : Store) (limit : Nat) : Query.page s now after limit before =
    ((((Query.datedEntries (s.queue.entries.filter fun e =>
      after.all fun key => compare key e.1 == .lt)).dropWhile (isPast now)).takeWhile
        (isWithin before)).take limit).mapM id := by
  cases after with
  | none => simp [Query.page]
  | some key => rfl

theorem mapM_id_map_ok {ε α : Type} (l : List α) :
    (l.map (Except.ok : α → Except ε α)).mapM id = .ok l := by
  rw [mapM_eq_ok_iff, List.forall₂_map_left_iff, List.forall₂_same]
  intro a _
  rfl

/-- Skipping and stopping select the same entries as asking each of them. -/
theorem Readable.page (h : s.Readable) (limit : Nat) :
    Query.page s now after limit before = .ok ((s.listed now after before).take limit) := by
  have hselected : ((s.datedQueue.filter fun e =>
      after.all fun key => compare key e.key == .lt).dropWhile fun e =>
        !isLocked now e.date).takeWhile (fun e => before.all fun time => e.key.time < time) =
      s.listed now after before := by
    rw [dropWhile_eq_filter ((s.pairwise_past now).sublist List.filter_sublist),
      takeWhile_eq_filter ((s.pairwise_within before).sublist
        (List.filter_sublist.trans List.filter_sublist)), List.filter_filter, List.filter_filter]
    apply List.filter_congr
    intro e _
    simp only [DatedEntry.isListed, Bool.not_not]
    ac_rfl
  rw [page_eq, h.datedEntries fun key' => after.all fun key => compare key key' == .lt,
    List.dropWhile_map, List.takeWhile_map, ← List.map_take, mapM_id_map_ok]
  exact congrArg (fun l => Except.ok (List.take limit l)) hselected

theorem accountLocks_eq [AddressRule] (s : Store) (now : Timestamp) (text : String) :
    accountLocks s now text =
      (AddressRule.validate text).map fun a => ⟨a, s.activeLocks now a⟩ := by
  unfold accountLocks activeLocks
  cases AddressRule.validate text with
  | error _ => rfl
  | ok a =>
    simp only [bind, Except.bind, Except.map]
    cases s.lockup? a <;> rfl

end Store

end StakeLock
