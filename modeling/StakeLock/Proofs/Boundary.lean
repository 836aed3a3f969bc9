import StakeLock.Proofs.EndOfBlock
import StakeLock.Proofs.Extension
import StakeLock.Proofs.Listing

/-!
# The boundary of a lock

A date counts as locked by its day, the sweep compares seconds, an account drops its expired
locks up to the first one that is locked, and a page skips entries by the day of their unlock
time. All of them draw the line between the same locks.
-/

namespace StakeLock

section

variable {s : Schedule} {now : Timestamp} {time : Nat} {l : Lock}

theorem Schedule.mem_expired_iff_le (h : s.locks.Pairwise fun a b => a.date < b.date)
    (hl : l ∈ s.locks) (htime : unlockTime? l.date = some time) :
    l ∈ s.expired now ↔ time ≤ now.seconds := by
  rw [mem_expired_iff h, ← seconds_lt_iff_isLocked htime, Nat.not_lt]
  exact and_iff_right hl

theorem Schedule.get?_of_endBlock (h : s.locks.Pairwise fun a b => a.date < b.date)
    (hl : l ∈ s.locks) (htime : unlockTime? l.date = some time) {height : Nat} {j k : Journal}
    {response : Response} (hrun : (endBlock ⟨height, now⟩).run j = .ok response k)
    (a : Address) : k.store.queue.get? ⟨time, a⟩ =
      if l ∈ s.expired now then none else j.store.queue.get? ⟨time, a⟩ := by
  obtain ⟨_, -, -, hswept⟩ := ends_endBlock_swept.of_ok hrun
  rw [hswept.get?]
  exact if_congr (mem_expired_iff_le h hl htime).symm rfl rfl

theorem Schedule.mem_listed_iff (h : s.locks.Pairwise fun a b => a.date < b.date)
    (hl : l ∈ s.locks) {store : Store} {key : QueueKey} {x : Amount}
    (htime : unlockTime? l.date = some key.time)
    (hget : store.queue.get? key = some (.holds x)) {after : Option QueueKey}
    {before : Option Nat} (hafter : ∀ cursor ∈ after, compare cursor key = .lt)
    (hbefore : ∀ bound ∈ before, key.time < bound) :
    ⟨key, l.date, x⟩ ∈ store.listed now after before ↔ l ∉ s.expired now := by
  have hqueued : ⟨key, l.date, x⟩ ∈ store.datedQueue :=
    Store.mem_datedQueue.2 ⟨hget, dateOfUnlockTime?_eq htime⟩
  have hbounds : Query.DatedEntry.isListed now after before ⟨key, l.date, x⟩ =
      isLocked now l.date := by
    unfold Query.DatedEntry.isListed
    have hfirst : after.all (fun cursor => compare cursor key == .lt) = true :=
      (Option.all_eq_true _ _).2 fun cursor hcursor => beq_iff_eq.2 (hafter cursor hcursor)
    have hlast : before.all (fun bound => decide (key.time < bound)) = true :=
      (Option.all_eq_true _ _).2 fun bound hbound => decide_eq_true (hbefore bound hbound)
    rw [hfirst, hlast, Bool.true_and, Bool.and_true]
  unfold Store.listed
  rw [List.mem_filter, hbounds, mem_expired_iff h, not_and, not_not]
  exact ⟨fun hlisted _ => hlisted.2, fun hlocked => ⟨hqueued, hlocked hl⟩⟩

end

/-- At every ledger time a date from 1970 on is locked exactly if its unlock time lies ahead, and
exactly if the day lies before it. The locks of a schedule with increasing dates that an account
drops at that time are therefore those whose keys the end of a block takes off the queue, and the
others are the active locks, are added up to the locked amount, and are not skipped by a page. -/
theorem unlock_boundary_agrees (now : Timestamp) :
    (∀ date : Date, 0 ≤ date.epochDay → ∃ time, unlockTime date = .ok time ∧
      (isLocked now date ↔ now.seconds < time) ∧ (isLocked now date ↔ blockDate now < date)) ∧
    (∀ (height surplus : Nat) (j : Journal), j.store.Balanced surplus →
      ∃ response k, (endBlock ⟨height, now⟩).run j = .ok response k) ∧
    ∀ s : Schedule, s.locks.Pairwise (fun a b => a.date < b.date) →
      (∀ l ∈ s.locks, 0 ≤ l.date.epochDay) →
      (∀ (height : Nat) (j k : Journal) (response : Response),
        (endBlock ⟨height, now⟩).run j = .ok response k → ∀ l ∈ s.locks, ∃ time,
          unlockTime l.date = .ok time ∧ ∀ a : Address, k.store.queue.get? ⟨time, a⟩ =
            if l ∈ s.expired now then none else j.store.queue.get? ⟨time, a⟩) ∧
      s.active now = (s.unexpired now).locks ∧
      s.lockedAmount? now =
        Amount.ofNat? ((s.unexpired now).locks.map fun l => l.amount.toNat).sum ∧
      (∀ l ∈ s.locks, l ∈ (s.unexpired now).locks ↔ l ∉ s.expired now) ∧
      ∀ (store : Store) (after : Option QueueKey) (before : Option Nat), store.Readable →
        ∃ listed : List Query.DatedEntry,
          (∀ limit, Query.page store now after limit before = .ok (listed.take limit)) ∧
          ∀ l ∈ s.locks, ∀ key x, unlockTime l.date = .ok key.time →
            store.queue.get? key = some (.holds x) → (∀ cursor ∈ after, compare cursor key = .lt) →
            (∀ bound ∈ before, key.time < bound) →
            (⟨key, l.date, x⟩ ∈ listed ↔ l ∉ s.expired now) := by
  refine ⟨fun date hdate => ?_, fun height surplus j hj => ?_, fun s h hdates => ?_⟩
  · have htime : unlockTime? date = some _ := if_pos hdate
    exact ⟨_, unlockTime_eq_ok_iff.2 htime, (seconds_lt_iff_isLocked htime).symm,
      isLocked_iff_blockDate_lt⟩
  · obtain ⟨response, k, hrun, -⟩ := (ends_endBlock_of_balanced hj ⟨height, now⟩).exists_ok
    exact ⟨response, k, hrun⟩
  · have hothers := Schedule.locks_unexpired h now
    refine ⟨fun height j k response hrun l hl => ?_, hothers.symm, ?_, fun l hl => ?_,
      fun store after before hstore => ?_⟩
    · have htime : unlockTime? l.date = some _ := if_pos (hdates l hl)
      exact ⟨_, unlockTime_eq_ok_iff.2 htime, Schedule.get?_of_endBlock h hl htime hrun⟩
    · rw [hothers]
      exact s.lockedAmount?_eq now
    · rw [hothers, Schedule.mem_expired_iff h]
      simp [Schedule.active, hl]
    · refine ⟨store.listed now after before, hstore.page, ?_⟩
      intro l hl key x htime hget hafter hbefore
      exact Schedule.mem_listed_iff h hl (unlockTime_eq_ok_iff.1 htime) hget hafter hbefore

namespace FirstLock

/-- The last nanosecond before the first lock ends. -/
def evening : Timestamp := ⟨59 * 86400 * 10 ^ 9 - 1, by decide⟩

def firstKey : QueueKey := ⟨59 * 86400, alice⟩

end FirstLock

open FirstLock in
/-- Up to the last nanosecond of the day before, the first lock stays in the account and in the
queue, and pages list it. At midnight it is dropped, is taken off the queue, and is skipped. -/
theorem first_lock_ends_at_midnight :
    ((∃ response k, (endBlock ⟨2, evening⟩).run chain.journal = .ok response k ∧
        k.store.queue.get? firstKey = some (.holds stake.amount)) ∧
      holder.schedule.active evening = holder.schedule.locks ∧
      ∃ listed : List Query.DatedEntry,
        (∀ limit, Query.page chain.journal.store evening none limit none =
          .ok (listed.take limit)) ∧ ⟨firstKey, firstDate, stake.amount⟩ ∈ listed) ∧
    ((∃ response k, (endBlock dueBlock).run chain.journal = .ok response k ∧
        k.store.queue.get? firstKey = none) ∧
      holder.schedule.active dueBlock.time = [] ∧
      ∃ listed : List Query.DatedEntry,
        (∀ limit, Query.page chain.journal.store dueBlock.time none limit none =
          .ok (listed.take limit)) ∧ ⟨firstKey, firstDate, stake.amount⟩ ∉ listed) := by
  obtain ⟨surplus, hbalanced⟩ := Host.maintains_surplus.reaches reached.anyTotal
  have hmirrors := Host.maintains_mirrors_anyTotal.reaches reached.anyTotal
  have hincreasing : holder.schedule.locks.Pairwise fun a b => a.date < b.date :=
    List.pairwise_singleton _ _
  have hdates : ∀ l ∈ holder.schedule.locks, 0 ≤ l.date.epochDay := by decide
  have hlock : ⟨firstDate, stake.amount⟩ ∈ holder.schedule.locks := List.mem_cons_self ..
  have hqueued : chain.journal.store.queue.get? firstKey = some (.holds stake.amount) := by
    decide +kernel
  have hends : ∀ now, (∃ response k, (endBlock ⟨2, now⟩).run chain.journal = .ok response k ∧
        k.store.queue.get? firstKey = if ⟨firstDate, stake.amount⟩ ∈ holder.schedule.expired now
          then none else some (.holds stake.amount)) ∧
      holder.schedule.active now = (holder.schedule.unexpired now).locks ∧
      ∃ listed : List Query.DatedEntry,
        (∀ limit, Query.page chain.journal.store now none limit none =
          .ok (listed.take limit)) ∧
        (⟨firstKey, firstDate, stake.amount⟩ ∈ listed ↔
          ⟨firstDate, stake.amount⟩ ∉ holder.schedule.expired now) := by
    intro now
    obtain ⟨-, hends, hboundary⟩ := unlock_boundary_agrees now
    obtain ⟨response, k, hrun⟩ := hends 2 surplus chain.journal hbalanced
    obtain ⟨hkeys, hactive, -, -, hpages⟩ := hboundary holder.schedule hincreasing hdates
    obtain ⟨time, htime, hget⟩ := hkeys 2 chain.journal k response hrun _ hlock
    obtain rfl : 59 * 86400 = time := Except.ok.inj htime
    obtain ⟨listed, hpage, hlisted⟩ :=
      hpages chain.journal.store none none hmirrors.dated.readable
    refine ⟨⟨response, k, hrun, ?_⟩, hactive, listed, hpage, ?_⟩
    · rw [← hqueued]
      exact hget alice
    · exact hlisted _ hlock firstKey _ htime hqueued nofun nofun
  constructor
  · have hlater : ⟨firstDate, stake.amount⟩ ∉ holder.schedule.expired evening := by decide
    obtain ⟨⟨response, k, hrun, hkept⟩, hactive, listed, hpage, hlisted⟩ := hends evening
    exact ⟨⟨response, k, hrun, hkept.trans (if_neg hlater)⟩, hactive, listed, hpage,
      hlisted.2 hlater⟩
  · have hpast : ⟨firstDate, stake.amount⟩ ∈ holder.schedule.expired dueBlock.time := by decide
    obtain ⟨⟨response, k, hrun, hgone⟩, hactive, listed, hpage, hlisted⟩ := hends dueBlock.time
    exact ⟨⟨response, k, hrun, hgone.trans (if_pos hpast)⟩, hactive, listed, hpage,
      fun hmem => hlisted.1 hmem hpast⟩

end StakeLock
