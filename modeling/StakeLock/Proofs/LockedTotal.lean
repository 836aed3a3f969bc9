import StakeLock.Proofs.Interchange
import StakeLock.Proofs.Listing

/-!
# The aggregate and the accounts

The active locks of all accounts are the entries of the queue that are not due. So the
aggregate, which goes along with the queue, covers all that the accounts have locked, and
once the due entries are swept it is just that.
-/

namespace StakeLock

open Query

namespace Store

def lockupAccounts (s : Store) : List LockupAccount :=
  s.accounts.entries.filterMap fun e => e.2.lockup?

/-- The active locks of all accounts, each with the address of its account. -/
def ownedLocks (s : Store) (now : Timestamp) : List (Address × Lock) :=
  s.lockupAccounts.flatMap fun x => (x.schedule.active now).map fun lock => (x.address, lock)

variable {s : Store} {now : Timestamp} {a : Address} {lock : Lock} {x : LockupAccount}

theorem eq_of_lockup?_entry (h : s.Keyed) {e : Address × Account} (he : e ∈ s.accounts.entries)
    (hx : e.2.lockup? = some x) : e = (x.address, .lockup x) := by
  obtain ⟨a, account⟩ := e
  cases account with
  | base _ => cases hx
  | lockup _ =>
    cases hx
    have haddress : x.address = a := h a _ (Table.get?_eq_some_iff.2 he)
    rw [haddress]

theorem mem_lockupAccounts (h : s.Keyed) :
    x ∈ s.lockupAccounts ↔ s.lockup? x.address = some x := by
  unfold lockupAccounts
  rw [List.mem_filterMap, lockup?_eq_some_iff]
  constructor
  · rintro ⟨e, he, hx⟩
    rw [eq_of_lockup?_entry h he hx] at he
    exact Table.get?_eq_some_iff.2 he
  · intro haccount
    exact ⟨(x.address, .lockup x), Table.get?_eq_some_iff.1 haccount, rfl⟩

theorem pairwise_lockupAccounts (h : s.Keyed) :
    s.lockupAccounts.Pairwise fun x y => x.address ≠ y.address := by
  unfold lockupAccounts
  rw [List.pairwise_filterMap]
  refine s.accounts.sorted.imp_of_mem fun {d e} hd he hlt x hx y hy heq => ?_
  rw [eq_of_lockup?_entry h hd hx, eq_of_lockup?_entry h he hy] at hlt
  simp [KeyLt, heq] at hlt

theorem mem_ownedLocks (h : s.Keyed) :
    (a, lock) ∈ s.ownedLocks now ↔ lock ∈ s.activeLocks now a := by
  unfold ownedLocks Schedule.active
  simp only [mem_activeLocks, List.mem_flatMap, List.mem_map, List.mem_filter]
  constructor
  · rintro ⟨account, haccount, _, ⟨hlock, hlocked⟩, heq⟩
    cases heq
    exact ⟨hlocked, account, (mem_lockupAccounts h).1 haccount, hlock⟩
  · rintro ⟨hlocked, account, haccount, hlock⟩
    have haddress := h.lockup_address haccount
    subst haddress
    exact ⟨account, (mem_lockupAccounts h).2 haccount, lock, ⟨hlock, hlocked⟩, rfl⟩

theorem Mirrors.nodup_ownedLocks (h : s.Mirrors now) : (s.ownedLocks now).Nodup := by
  unfold ownedLocks
  rw [List.nodup_flatMap]
  constructor
  · intro account haccount
    have hordered := h.ordered ((mem_lockupAccounts h.keyed).1 haccount)
    have hlocks : account.schedule.locks.Nodup := by
      refine hordered.1.imp fun {l m} hlt heq => ?_
      rw [heq] at hlt
      exact Int.lt_irrefl _ hlt
    exact (hlocks.filter _).map fun l m heq => (Prod.mk.inj heq).2
  · refine (pairwise_lockupAccounts h.keyed).imp fun {x y} hne => ?_
    rintro ⟨a, lock⟩ hx hy
    obtain ⟨_, -, heq⟩ := List.mem_map.1 hx
    obtain ⟨_, -, heq'⟩ := List.mem_map.1 hy
    exact hne ((Prod.mk.inj heq).1.trans (Prod.mk.inj heq').1.symm)

theorem Dated.nodup_owned (h : s.Dated) (now : Timestamp) :
    ((s.listed now none none).map DatedEntry.owned).Nodup := by
  unfold List.Nodup
  rw [List.pairwise_map]
  refine (s.pairwise_listed now none none).imp_of_mem fun {d e} hd he hlt heq => ?_
  obtain ⟨haddress, hlock⟩ := Prod.mk.inj heq
  obtain ⟨hdate, -⟩ := Lock.mk.inj hlock
  have htime := (h.mem_listed.1 hd).2.1
  rw [hdate, (h.mem_listed.1 he).2.1, Option.some.injEq] at htime
  have hkey : e.key = d.key := congrArg₂ QueueKey.mk htime haddress.symm
  rw [hkey] at hlt
  simp at hlt

/-- The active locks of the accounts are those that are listed, in another order. -/
theorem Mirrors.perm_ownedLocks (h : s.Mirrors now) :
    (s.ownedLocks now).Perm ((s.listed now none none).map DatedEntry.owned) := by
  rw [List.perm_ext_iff_of_nodup h.nodup_ownedLocks (h.dated.nodup_owned now)]
  rintro ⟨a, lock⟩
  rw [mem_ownedLocks h.keyed, h.mem_owned_iff]
  simp

/-! ## Sums -/

theorem sum_ownedLocks (s : Store) (now : Timestamp) :
    ((s.ownedLocks now).map fun p => p.2.amount.toNat).sum =
      (s.lockupAccounts.map fun x => x.schedule.lockedSum now).sum := by
  unfold ownedLocks
  induction s.lockupAccounts with
  | nil => rfl
  | cons x xs ih =>
    rw [List.flatMap_cons, List.map_append, List.sum_append, ih, List.map_cons, List.sum_cons,
      List.map_map]
    rfl

theorem Dated.map_amount_listed (h : s.Dated) (now : Timestamp) :
    (s.listed now none none).map (fun e => e.amount.toNat) =
      (s.queue.entries.filter fun e => !decide (e.1.time ≤ now.seconds)).map
        fun e => e.2.value := by
  unfold listed datedQueue
  rw [List.filter_filterMap, List.map_filterMap, ← List.filterMap_eq_map, List.filterMap_filter]
  apply List.filterMap_congr
  rintro ⟨key, entry⟩ he
  obtain ⟨date, x, htime, rfl, -⟩ := h _ _ (Table.get?_eq_some_iff.2 he)
  have hlocked : now.seconds < key.time ↔ isLocked now date := seconds_lt_iff_isLocked htime
  simp only [DatedEntry.ofQueued?, dateOfUnlockTime?_eq htime, Option.map_some]
  by_cases hdue : key.time ≤ now.seconds
  · have hpassed : isLocked now date = false := by
      rw [Bool.eq_false_iff, ne_eq, ← hlocked]
      exact Nat.not_lt.2 hdue
    simp [hdue, hpassed, DatedEntry.isListed]
  · have hactive : isLocked now date = true := hlocked.1 (Nat.lt_of_not_le hdue)
    simp [hdue, hactive, DatedEntry.isListed, QueueEntry.value]

/-- The queue holds what the accounts have locked, and what is due. -/
theorem Mirrors.sum_lockedSum (h : s.Mirrors now) :
    (s.lockupAccounts.map fun x => x.schedule.lockedSum now).sum +
      ((s.due now.seconds).map fun e => e.2.value).sum = s.queuedSum := by
  have hlisted : (s.lockupAccounts.map fun x => x.schedule.lockedSum now).sum =
      ((s.listed now none none).map fun e => e.amount.toNat).sum := by
    rw [← sum_ownedLocks, (h.perm_ownedLocks.map _).sum_eq, List.map_map]
    rfl
  have hsum := Table.total_filter_add QueueEntry.value (fun e => decide (e.1.time ≤ now.seconds))
    s.queue
  rw [hlisted, h.dated.map_amount_listed]
  exact hsum

end Store

theorem exists_lockedAmounts (now : Timestamp) (accounts : List LockupAccount)
    (h : (accounts.map fun x => x.schedule.lockedSum now).sum < 2 ^ 128) :
    ∃ amounts, (accounts.mapM fun x => x.schedule.lockedAmount? now) = some amounts ∧
      amounts.map Amount.toNat = accounts.map fun x => x.schedule.lockedSum now := by
  induction accounts with
  | nil => exact ⟨[], rfl, rfl⟩
  | cons x xs ih =>
    rw [List.map_cons, List.sum_cons] at h
    obtain ⟨amounts, hamounts, hsums⟩ := ih (by omega)
    obtain ⟨amount, hamount⟩ : ∃ amount : Amount, amount.toNat = x.schedule.lockedSum now :=
      ⟨⟨x.schedule.lockedSum now, by omega⟩, rfl⟩
    have hx : x.schedule.lockedAmount? now = some amount := by
      rw [Schedule.lockedAmount?_eq, Amount.ofNat?_eq_some_iff, hamount]
    refine ⟨amount :: amounts, ?_, ?_⟩
    · rw [List.mapM_cons, hx, hamounts]
      rfl
    · rw [List.map_cons, List.map_cons, hsums, hamount]

/-- In a sound store every account has an amount locked, and the aggregate covers the sum,
to which what is due and the surplus are added. -/
theorem Store.Mirrors.total_eq {now : Timestamp} {s : Store} {surplus : Nat}
    (h : s.Mirrors now) (hs : s.Balanced surplus) : ∃ amounts,
      (s.lockupAccounts.mapM fun x => x.schedule.lockedAmount? now) = some amounts ∧
      s.total.toNat = (amounts.map Amount.toNat).sum +
        ((s.due now.seconds).map fun e => e.2.value).sum + surplus := by
  have hsum := h.sum_lockedSum
  have htotal := hs.sum
  have hlt := s.total.toNat_lt
  obtain ⟨amounts, hamounts, hsums⟩ :=
    exists_lockedAmounts now s.lockupAccounts (by omega)
  refine ⟨amounts, hamounts, ?_⟩
  rw [hsums]
  omega

/-- In a reachable store the locked amounts of all accounts add up to no more than the
aggregate, at the time of the last block and later. When a block has ended, they add up to
just that, unless a total was stored before the first lock. -/
theorem total_is_sum_of_accounts {last : Timestamp} {j : Journal}
    (h : Host.anyTotal.Reaches last j.store) :
    (∀ now, last ≤ now → ∃ amounts,
      (j.store.lockupAccounts.mapM fun x => x.schedule.lockedAmount? now) = some amounts ∧
      (amounts.map Amount.toNat).sum ≤ j.store.total.toNat) ∧
    ∀ block : Block, last ≤ block.time → ∃ r k amounts, (endBlock block).run j = .ok r k ∧
      (k.store.lockupAccounts.mapM fun x => x.schedule.lockedAmount? block.time) = some amounts ∧
      (amounts.map Amount.toNat).sum ≤ k.store.total.toNat ∧
      (Host.orderly.Reaches last j.store →
        k.store.total.toNat = (amounts.map Amount.toNat).sum) := by
  obtain ⟨surplus, hs⟩ := Host.maintains_surplus.reaches h
  constructor
  · intro now hnow
    obtain ⟨amounts, hamounts, htotal⟩ := (h.sound hnow).mirrors.total_eq hs
    exact ⟨amounts, hamounts, by omega⟩
  · intro block hnow
    obtain ⟨r, k, hrun, removed, -, -, hswept⟩ := (ends_endBlock_of_balanced hs block).exists_ok
    have hk : k.store.Mirrors block.time :=
      ((h.sound hnow).changes (ends_endBlock_changes.of_ok hrun)).mirrors
    obtain ⟨amounts, hamounts, htotal⟩ := hk.total_eq (hswept.balanced hs)
    have hdue : k.store.due block.time.seconds = [] := by
      unfold Store.due
      rw [hswept.queue]
      simp [Table.filter]
    rw [hdue, List.map_nil, List.sum_nil] at htotal
    refine ⟨r, k, amounts, hrun, hamounts, by omega, fun hfresh => ?_⟩
    have hbare : j.store.Balanced 0 := Host.maintains_balanced.reaches hfresh.anyOrder
    have hnone : surplus = 0 := Nat.add_left_cancel (hs.sum.symm.trans hbare.sum)
    omega

open FirstLock in
/-- The day after the first lock all accounts together have locked what the aggregate says. -/
theorem first_lock_is_total : ∃ r k amounts, (endBlock ⟨2, nextDay⟩).run chain.journal = .ok r k ∧
    (k.store.lockupAccounts.mapM fun x => x.schedule.lockedAmount? nextDay) = some amounts ∧
    k.store.total.toNat = (amounts.map Amount.toNat).sum := by
  obtain ⟨-, hended⟩ := total_is_sum_of_accounts (j := chain.journal) reached.anyTotal
  obtain ⟨r, k, amounts, hrun, hamounts, -, htotal⟩ := hended ⟨2, nextDay⟩ (by decide)
  exact ⟨r, k, amounts, hrun, hamounts, htotal reached⟩

end StakeLock
