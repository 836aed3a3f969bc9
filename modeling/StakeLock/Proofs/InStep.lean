import StakeLock.Proofs.Mirror
import StakeLock.Proofs.Outcome.Locking

/-!
# Schedule, queue and aggregate in step

Adding and moving locks changes the schedule, the queue and the aggregate by the same
amounts, whatever dates and amounts they are given. The schedule takes no empty locks, while
the queue gets an empty entry for one. This is all that can bring them out of step: the
amounts agree even then.
-/

namespace StakeLock

namespace Store

variable {s : Store}

/-- If the aggregate is what adding up the queue gives, then all entries decode, and it is
their exact sum. -/
theorem balanced_of_queuedTotal (h : s.queuedTotal = .ok s.total) : s.Balanced 0 := by
  obtain ⟨amounts, hamounts, hsum⟩ := except_bind_eq_ok_iff.1 h
  have hentries := readEntries_eq_ok hamounts
  constructor
  · intro key hkey
    have hmem : (key, QueueEntry.garbled) ∈ s.queue.entries := Table.mem_entries_iff.2 hkey
    rw [hentries] at hmem
    obtain ⟨_, -, heq⟩ := List.mem_map.1 hmem
    cases heq
  · rw [Amount.sumFrom_eq_ok_iff, List.map_map, Amount.toNat_zero, Nat.zero_add] at hsum
    unfold queuedSum Table.total Entries.total
    rw [hentries, sum_value_entriesOf]
    exact hsum.symm

end Store

namespace Draft

variable {d : Draft} {empty : Date → Prop}

/-- The schedule is ordered, the queue holds what it holds on every date that has an unlock
time, and the aggregate is the sum of the queue. -/
structure InStep (d : Draft) : Prop where
  ordered : d.account.schedule.Ordered
  queued : ∀ {date time} x, unlockTime? date = some time →
    (d.store.queue.get? ⟨time, d.account.address⟩ = some (.holds x) ↔
      ⟨date, x⟩ ∈ d.account.schedule.locks)
  total : d.store.queuedTotal = .ok d.store.total

/-- In step but for empty entries on some dates. -/
structure InStepExcept (empty : Date → Prop) (d : Draft) : Prop where
  ordered : d.account.schedule.Ordered
  queued : ∀ {date time} x, unlockTime? date = some time →
    (d.store.queue.get? ⟨time, d.account.address⟩ = some (.holds x) ↔
      ⟨date, x⟩ ∈ d.account.schedule.locks ∨ x = Amount.zero ∧ empty date)
  total : d.store.queuedTotal = .ok d.store.total

theorem inStep_iff_except : d.InStep ↔ d.InStepExcept fun _ => False := by
  constructor
  · intro h
    refine ⟨h.ordered, fun x htime => ?_, h.total⟩
    rw [and_false, or_false]
    exact h.queued x htime
  · intro h
    refine ⟨h.ordered, fun x htime => ?_, h.total⟩
    rw [h.queued x htime, and_false, or_false]

theorem InStepExcept.inStep_iff (h : d.InStepExcept empty) :
    d.InStep ↔ ∀ date, empty date → unlockTime? date = none := by
  constructor
  · intro hstep date hempty
    cases htime : unlockTime? date with
    | none => rfl
    | some time =>
      have hzero := (h.queued Amount.zero htime).2 (.inr ⟨rfl, hempty⟩)
      exact absurd rfl (h.ordered.2 _ ((hstep.queued _ htime).1 hzero))
  · intro hnone
    refine ⟨h.ordered, fun {date time} x htime => ?_, h.total⟩
    rw [h.queued x htime, or_iff_left]
    rintro ⟨-, hempty⟩
    rw [hnone date hempty] at htime
    cases htime

/-- The schedule is ordered, the queue counts for what it holds on every date, and the
aggregate is the sum of the queue. -/
structure Counts (d : Draft) : Prop where
  ordered : d.account.schedule.Ordered
  counted : ∀ {date time}, unlockTime? date = some time →
    d.store.queuedAt ⟨time, d.account.address⟩ = d.account.schedule.amountOn date
  balanced : d.store.Balanced 0

theorem InStepExcept.counts (h : d.InStepExcept empty) : d.Counts := by
  have hbalanced := Store.balanced_of_queuedTotal h.total
  refine ⟨h.ordered, fun {date time} htime => ?_, hbalanced⟩
  by_cases hzero : d.account.schedule.amountOn date = 0
  · rw [hzero]
    unfold Store.queuedAt
    cases hget : d.store.queue.get? ⟨time, d.account.address⟩ with
    | none => rfl
    | some entry =>
      cases entry with
      | garbled => exact absurd hget (hbalanced.readable _)
      | holds x =>
        rcases (h.queued x htime).1 hget with hmem | ⟨rfl, -⟩
        · exact (h.ordered.amountOn_of_mem hmem).symm.trans hzero
        · rfl
  · obtain ⟨x, hx⟩ := Schedule.exists_mem_of_amountOn_ne_zero hzero
    rw [Store.queuedAt_of_get? ((h.queued x htime).2 (.inl hx))]
    exact (h.ordered.amountOn_of_mem hx).symm

/-- An ordered schedule is determined by its amounts, and so is the queue but for its empty
entries. -/
theorem inStepExcept_iff : d.InStepExcept empty ↔ d.Counts ∧
    ∀ {date time}, unlockTime? date = some time →
      (d.store.queue.get? ⟨time, d.account.address⟩ = some (.holds Amount.zero) ↔ empty date) := by
  constructor
  · intro h
    refine ⟨h.counts, fun {date time} htime => ?_⟩
    rw [h.queued _ htime, or_iff_right fun hmem => h.ordered.2 _ hmem rfl, and_iff_right rfl]
  · rintro ⟨h, hempty⟩
    refine ⟨h.ordered, fun {date time} x htime => ?_, h.balanced.queuedTotal⟩
    by_cases hx : x = Amount.zero
    · subst hx
      rw [hempty htime, and_iff_right rfl, or_iff_right]
      exact fun hmem => h.ordered.2 _ hmem rfl
    · have hread : d.store.queue.get? ⟨time, d.account.address⟩ = some (.holds x) ↔
          d.store.queuedAt ⟨time, d.account.address⟩ = x.toNat :=
        ⟨Store.queuedAt_of_get?, fun hat =>
          Store.get?_of_queuedAt (h.balanced.readable _) hat hx⟩
      rw [hread, h.counted htime, h.ordered.mem_iff]
      simp [hx]

/-- Nothing but an account, its part of the queue and the aggregate is different. -/
structure Confined (d d' : Draft) : Prop where
  base : d'.account.base = d.account.base
  requeued : d.store.Requeued d'.store
  others : ∀ key, key.address ≠ d.account.address → d'.store.queue.get? key = d.store.queue.get? key

/-! ## Steps -/

variable {account : LockupAccount} {s : Store} {schedule : Schedule} {amount queued total : Amount}

theorem Counts.add {date : Date} {time : Nat} (h : Counts ⟨account, s⟩)
    (htime : unlockTime? date = some time)
    (hupsert : account.schedule.upsert date amount = .ok schedule)
    (hqueued : s.queuedAt ⟨time, account.address⟩ + amount.toNat = queued.toNat)
    (htotal : s.total.toNat + amount.toNat = total.toNat) :
    Counts ⟨{ account with schedule := schedule },
      (s.enqueue ⟨time, account.address⟩ queued).setTotal total⟩ where
  ordered := h.ordered.upsert hupsert
  counted {e t} ht := by
    have hold := h.counted ht
    change ((s.enqueue _ queued).setTotal total).queuedAt ⟨t, account.address⟩ =
      schedule.amountOn e
    rw [Store.queuedAt_setTotal, Store.queuedAt_added htime ht hqueued,
      Schedule.amountOn_upsert hupsert]
    exact congrArg (· + _) hold
  balanced := h.balanced.add hqueued htotal

theorem Counts.move {source target : Date} {sourceTime targetTime : Nat} {rest : Amount}
    (h : Counts ⟨account, s⟩) (hsource : unlockTime? source = some sourceTime)
    (htarget : unlockTime? target = some targetTime)
    (hshift : account.schedule.shift source target amount = .ok schedule)
    (hrest : s.queuedAt ⟨sourceTime, account.address⟩ = amount.toNat + rest.toNat)
    (hqueued : (s.leaveQueued ⟨sourceTime, account.address⟩ rest).queuedAt
      ⟨targetTime, account.address⟩ + amount.toNat = queued.toNat) :
    Counts ⟨{ account with schedule := schedule },
      (s.leaveQueued ⟨sourceTime, account.address⟩ rest).enqueue
        ⟨targetTime, account.address⟩ queued⟩ where
  ordered := h.ordered.shift hshift
  counted {e t} ht := by
    have hsum := Schedule.amountOn_shift hshift e
    have hmoved := Store.queuedAt_moved hsource htarget ht hrest hqueued
    have hold := h.counted ht
    change (Store.enqueue _ _ queued).queuedAt ⟨t, account.address⟩ = schedule.amountOn e
    simp only at hold
    omega
  balanced := h.balanced.move hrest hqueued

/-- An amount of zero leaves an empty entry where there is no lock. -/
theorem InStep.add {date : Date} {time : Nat} (h : InStep ⟨account, s⟩)
    (htime : unlockTime? date = some time)
    (hupsert : account.schedule.upsert date amount = .ok schedule)
    (hqueued : s.queuedAt ⟨time, account.address⟩ + amount.toNat = queued.toNat)
    (htotal : s.total.toNat + amount.toNat = total.toNat) :
    InStepExcept
      (fun e => e = date ∧ amount = Amount.zero ∧ ∀ x, ⟨date, x⟩ ∉ account.schedule.locks)
      ⟨{ account with schedule := schedule },
        (s.enqueue ⟨time, account.address⟩ queued).setTotal total⟩ := by
  obtain ⟨hcounts, hempty⟩ := inStepExcept_iff.1 (inStep_iff_except.1 h)
  refine inStepExcept_iff.2 ⟨hcounts.add htime hupsert hqueued htotal, fun {e t} ht => ?_⟩
  change (s.queue.insert _ _).get? ⟨t, account.address⟩ = _ ↔ _
  rw [Table.get?_insert]
  by_cases he : e = date
  · subst he
    cases htime.symm.trans ht
    have hold := hcounts.counted ht
    have hnone : account.schedule.amountOn e = 0 ↔ ∀ x, ⟨e, x⟩ ∉ account.schedule.locks :=
      hcounts.ordered.amountOn_eq_zero_iff
    simp only at hold
    rw [if_pos rfl, ← hnone, ← hold]
    simp only [Option.some.injEq, QueueEntry.holds.injEq, Amount.ext_iff, Amount.toNat_zero,
      true_and]
    omega
  · rw [if_neg (Store.key_ne ht htime he _ _)]
    exact iff_of_false (hempty ht).1 fun h => he h.1

theorem InStep.move {source target : Date} {sourceTime targetTime : Nat} {rest : Amount}
    (h : InStep ⟨account, s⟩) (hsource : unlockTime? source = some sourceTime)
    (htarget : unlockTime? target = some targetTime)
    (hshift : account.schedule.shift source target amount = .ok schedule)
    (hrest : s.queuedAt ⟨sourceTime, account.address⟩ = amount.toNat + rest.toNat)
    (hqueued : (s.leaveQueued ⟨sourceTime, account.address⟩ rest).queuedAt
      ⟨targetTime, account.address⟩ + amount.toNat = queued.toNat) :
    InStep ⟨{ account with schedule := schedule },
      (s.leaveQueued ⟨sourceTime, account.address⟩ rest).enqueue
        ⟨targetTime, account.address⟩ queued⟩ := by
  obtain ⟨hcounts, hempty⟩ := inStepExcept_iff.1 (inStep_iff_except.1 h)
  have hpos : 0 < amount.toNat := Amount.toNat_pos (h.ordered.2 _ (Schedule.mem_of_shift hshift))
  have hrestzero : rest.isZero := by
    have hold := hcounts.counted hsource
    have hall := hcounts.ordered.amountOn_source hshift
    rw [Amount.isZero_iff, Amount.ext_iff, Amount.toNat_zero]
    simp only at hold hall
    omega
  refine inStep_iff_except.2 (inStepExcept_iff.2
    ⟨hcounts.move hsource htarget hshift hrest hqueued, fun {e t} ht => iff_of_false ?_ id⟩)
  change (Store.enqueue _ _ queued).queue.get? ⟨t, account.address⟩ ≠ _
  by_cases he : e = target
  · subst he
    cases htarget.symm.trans ht
    rw [Store.get?_enqueue_self]
    simp only [ne_eq, Option.some.injEq, QueueEntry.holds.injEq]
    exact Amount.ne_zero_of_pos (by omega)
  · rw [Store.get?_enqueue_of_ne _ (Store.key_ne ht htarget he _ _)]
    by_cases hs : e = source
    · subst hs
      cases hsource.symm.trans ht
      unfold Store.leaveQueued
      rw [if_pos hrestzero, Store.get?_dequeue_self]
      nofun
    · rw [Store.get?_leaveQueued_of_ne _ (Store.key_ne ht hsource hs _ _)]
      exact (hempty ht).1

end Draft

/-! ## Calls -/

section

open Draft

variable {j k : Journal} {account a : LockupAccount} {date : Date} {amount : Amount}

theorem addLock_inStep (h : InStep ⟨account, j.store⟩)
    (hrun : (addLock account date amount).run j = .ok a k) :
    Confined ⟨account, j.store⟩ ⟨a, k.store⟩ ∧
      InStepExcept (fun e => e = date ∧ amount = Amount.zero ∧
        ∀ x, ⟨date, x⟩ ∉ account.schedule.locks) ⟨a, k.store⟩ ∧
      (InStep ⟨a, k.store⟩ ↔ amount ≠ Amount.zero ∨ ∃ x, ⟨date, x⟩ ∈ account.schedule.locks) := by
  obtain ⟨time, schedule, queued, total, htime, hupsert, hqueued, htotal, rfl, hk⟩ :=
    ends_addLock.of_ok hrun
  rw [hk]
  have hstep := h.add htime hupsert hqueued htotal
  refine ⟨⟨rfl, (Store.requeued_enqueue _ _ _).trans (Store.requeued_setTotal _ _),
    fun key hkey => Store.get?_enqueue_of_ne _ (QueueKey.ne_of_address_ne hkey) queued⟩, hstep, ?_⟩
  rw [hstep.inStep_iff]
  constructor
  · intro hdates
    by_contra hno
    rw [not_or, not_not, not_exists] at hno
    rw [hdates date ⟨rfl, hno⟩] at htime
    cases htime
  · rintro (hne | ⟨x, hx⟩) e ⟨-, hzero, hnone⟩
    · exact absurd hzero hne
    · exact absurd hx (hnone x)

theorem exists_of_moveLock {source target : Date}
    (hrun : (moveLock account source target amount).run j = .ok a k) :
    ∃ sourceTime targetTime schedule, unlockTime? source = some sourceTime ∧
      unlockTime? target = some targetTime ∧
      account.schedule.shift source target amount = .ok schedule := by
  unfold moveLock at hrun
  obtain ⟨sourceTime, hsource, hrun⟩ := run_accept_bind_eq_ok_iff.1 hrun
  obtain ⟨targetTime, htarget, hrun⟩ := run_accept_bind_eq_ok_iff.1 hrun
  obtain ⟨schedule, hshift, -⟩ := run_accept_bind_eq_ok_iff.1 hrun
  exact ⟨sourceTime, targetTime, schedule, unlockTime_eq_ok_iff.1 hsource,
    unlockTime_eq_ok_iff.1 htarget, hshift⟩

theorem moveLock_inStep {source target : Date} (h : InStep ⟨account, j.store⟩)
    (hrun : (moveLock account source target amount).run j = .ok a k) :
    Confined ⟨account, j.store⟩ ⟨a, k.store⟩ ∧ InStep ⟨a, k.store⟩ := by
  obtain ⟨sourceTime, targetTime, schedule, hsource, htarget, hshift⟩ := exists_of_moveLock hrun
  obtain ⟨rest, queued, hrest, hqueued, rfl, hk⟩ :=
    (@ends_moveLock j account ⟨source, target, amount⟩ _ _ _ hsource htarget hshift).of_ok hrun
  rw [hk]
  refine ⟨⟨rfl, (Store.requeued_leaveQueued _ _ _).trans (Store.requeued_enqueue _ _ _),
    fun key hkey => ?_⟩, h.move hsource htarget hshift hrest hqueued⟩
  exact (Store.get?_enqueue_of_ne _ (QueueKey.ne_of_address_ne hkey) queued).trans
    (Store.get?_leaveQueued_of_ne _ (QueueKey.ne_of_address_ne hkey) rest)

/-- Adding and moving locks keeps an account in step with the queue and the aggregate, and
leaves the entries of all other accounts as they are, with one exception: adding nothing on a
date that has no lock queues an empty entry there. -/
theorem mutations_stay_in_step (h : InStep ⟨account, j.store⟩) :
    (∀ date amount a k, (addLock account date amount).run j = .ok a k →
      Confined ⟨account, j.store⟩ ⟨a, k.store⟩ ∧
      InStepExcept (fun e => e = date ∧ amount = Amount.zero ∧
        ∀ x, ⟨date, x⟩ ∉ account.schedule.locks) ⟨a, k.store⟩ ∧
      (InStep ⟨a, k.store⟩ ↔ amount ≠ Amount.zero ∨ ∃ x, ⟨date, x⟩ ∈ account.schedule.locks)) ∧
    ∀ source target amount a k, (moveLock account source target amount).run j = .ok a k →
      Confined ⟨account, j.store⟩ ⟨a, k.store⟩ ∧ InStep ⟨a, k.store⟩ :=
  ⟨fun _ _ _ _ hrun => addLock_inStep h hrun, fun _ _ _ _ _ hrun => moveLock_inStep h hrun⟩

end

namespace FirstMutations

open FirstLock Draft

def newcomer : LockupAccount := ⟨⟨alice, none, 0, 0⟩, Schedule.empty⟩

def blank : Journal := ⟨Store.empty, []⟩

/-- 1970-02-15. -/
def february : Date := ⟨45, by decide, by decide⟩

theorem blank_inStep : InStep ⟨newcomer, blank.store⟩ :=
  ⟨Schedule.ordered_empty, fun x _ => iff_of_false nofun nofun, by decide +kernel⟩

end FirstMutations

open FirstMutations Draft in
/-- What is added first is in step, and stays so when it is moved to the date that it has. -/
theorem first_mutations_in_step : ∃ a b k l,
    (addLock newcomer february FirstLock.stake.amount).run blank = .ok a k ∧
    (moveLock a february february FirstLock.stake.amount).run k = .ok b l ∧
    InStep ⟨newcomer, blank.store⟩ ∧ InStep ⟨a, k.store⟩ ∧ InStep ⟨b, l.store⟩ := by
  have hrun : succeeds ((addLock newcomer february FirstLock.stake.amount >>= fun a =>
      moveLock a february february FirstLock.stake.amount).run blank) := by decide +kernel
  obtain ⟨b, hok⟩ := exists_ok_of_succeeds hrun
  obtain ⟨a, k, hadd, hmove⟩ := run_bind_eq_ok_iff.1 hok
  have hadded : InStep ⟨a, k.store⟩ :=
    ((mutations_stay_in_step blank_inStep).1 _ _ _ _ hadd).2.2.2 (.inl (by decide))
  have hmoved := ((mutations_stay_in_step hadded).2 _ _ _ _ _ hmove).2
  exact ⟨a, b, k, _, hadd, hmove, blank_inStep, hadded, hmoved⟩

open FirstMutations Draft in
/-- Adding nothing queues an entry that the schedule has no lock for. -/
theorem empty_lock_out_of_step : InStep ⟨newcomer, blank.store⟩ ∧
    ∃ k, (addLock newcomer february Amount.zero).run blank = .ok newcomer k ∧
      k.store.queue.get? ⟨45 * 86400, FirstLock.alice⟩ = some (.holds Amount.zero) ∧
      ¬InStep ⟨newcomer, k.store⟩ := by
  have hqueued : (finalState ((addLock newcomer february Amount.zero).run blank)).store.queue.get?
      ⟨45 * 86400, FirstLock.alice⟩ = some (.holds Amount.zero) := by decide +kernel
  have htime : unlockTime? february = some (45 * 86400) := by decide +kernel
  refine ⟨blank_inStep, _, eq_ok_of_outcome (by decide +kernel), hqueued, fun hstep => ?_⟩
  cases (hstep.queued Amount.zero htime).1 hqueued

end StakeLock
