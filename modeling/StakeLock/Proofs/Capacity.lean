import StakeLock.Proofs.Mirror

/-!
# Room for locks

Amounts are bounded, so the aggregate and the locks of one date can be too large for
another lock. While the queue mirrors the schedules, nothing else stands in the way of
adding locks that have passed their checks.
-/

namespace StakeLock

namespace Store

/-- The aggregate, and what an address has locked until any date, have room for locks. -/
structure Fits (s : Store) (address : Address) (locks : List (Date × Amount)) : Prop where
  total : s.total.toNat + (locks.map fun l => l.2.toNat).sum < 2 ^ 128
  dates : ∀ date, s.lockedOn address date +
    (locks.map fun l => if l.1 = date then l.2.toNat else 0).sum < 2 ^ 128

variable {s opened : Store} {address : Address} {account : LockupAccount} {now : Timestamp}
variable {locks : List (Date × Amount)} {j : Journal}

theorem Opens.total_eq (h : s.Opens address account opened) : opened.total = s.total := by
  cases h <;> rfl

theorem fits_of_lockup?_eq_none (hnone : s.lockup? address = none)
    (htotal : s.total.toNat + (locks.map fun l => l.2.toNat).sum < 2 ^ 128) :
    s.Fits address locks := by
  refine ⟨htotal, fun date => ?_⟩
  have hnothing := lockedOn_of_lockup?_eq_none hnone date
  have hle : (locks.map fun l => if l.1 = date then l.2.toNat else 0).sum ≤
      (locks.map fun l => l.2.toNat).sum := by
    apply List.sum_le_sum
    intro l _
    split
    · exact le_rfl
    · exact Nat.zero_le _
  omega

/-- For an account that is being changed, what counts is its own schedule. -/
theorem fits_saved_iff : (Draft.saved ⟨account, s⟩).Fits account.address locks ↔
    s.total.toNat + (locks.map fun l => l.2.toNat).sum < 2 ^ 128 ∧
    ∀ date, account.schedule.amountOn date +
      (locks.map fun l => if l.1 = date then l.2.toNat else 0).sum < 2 ^ 128 := by
  have hown : ∀ date, (Draft.saved ⟨account, s⟩).lockedOn account.address date =
      account.schedule.amountOn date := by
    intro date
    rw [lockedOn_saved]
    exact if_pos rfl
  constructor
  · intro h
    exact ⟨h.total, fun date => hown date ▸ h.dates date⟩
  · rintro ⟨htotal, hdates⟩
    exact ⟨htotal, fun date => (hown date).symm ▸ hdates date⟩

theorem Fits.opens (h : s.Fits address locks) (hopens : s.Opens address account opened) :
    (Draft.saved ⟨account, opened⟩).Fits account.address locks := by
  rw [fits_saved_iff, hopens.total_eq]
  refine ⟨h.total, fun date => ?_⟩
  have hamount : account.schedule.amountOn date = s.lockedOn address date :=
    hopens.amountWhere_eq _
  rw [hamount]
  exact h.dates date

theorem Fits.first {date : Date} {amount : Amount}
    (h : (Draft.saved ⟨account, s⟩).Fits account.address ((date, amount) :: locks)) :
    s.total.toNat + amount.toNat < 2 ^ 128 ∧
      account.schedule.amountOn date + amount.toNat < 2 ^ 128 := by
  obtain ⟨htotal, hdates⟩ := fits_saved_iff.1 h
  have hdate := hdates date
  simp only [List.map_cons, List.sum_cons, if_true] at htotal hdate
  constructor <;> omega

theorem Fits.rest {date : Date} {amount total queued : Amount} {schedule : Schedule} {time : Nat}
    (h : (Draft.saved ⟨account, s⟩).Fits account.address ((date, amount) :: locks))
    (hupsert : account.schedule.upsert date amount = .ok schedule)
    (htotal : s.total.toNat + amount.toNat = total.toNat) :
    (Draft.saved ⟨{ account with schedule := schedule },
      (s.enqueue ⟨time, account.address⟩ queued).setTotal total⟩).Fits account.address locks := by
  obtain ⟨hroom, hdates⟩ := fits_saved_iff.1 h
  refine fits_saved_iff.2 ⟨?_, fun d => ?_⟩
  · rw [List.map_cons, List.sum_cons, ← Nat.add_assoc, htotal] at hroom
    exact hroom
  · have hdate := hdates d
    rw [List.map_cons, List.sum_cons, ← Nat.add_assoc, ← Schedule.amountOn_upsert hupsert] at hdate
    exact hdate

theorem Mirrors.addLock_succeeds {date : Date} {amount : Amount}
    (h : Mirrors now (Draft.saved ⟨account, j.store⟩)) (hdate : blockDate now ≤ date)
    (hfits : (Draft.saved ⟨account, j.store⟩).Fits account.address ((date, amount) :: locks)) :
    succeeds ((addLock account date amount).run j) := by
  obtain ⟨time, htime⟩ := exists_unlockTime_of_blockDate_le hdate
  obtain ⟨htotal, hroom⟩ := hfits.first
  have hordered : account.schedule.Ordered := h.draft_ordered
  obtain ⟨schedule, hupsert⟩ := hordered.exists_upsert hroom
  have hdated : j.store.Dated := h.dated
  refine StakeLock.addLock_succeeds htime hupsert ?_ ?_ htotal
  · intro hgarbled
    obtain ⟨_, x, -, hx, -⟩ := hdated _ _ hgarbled
    cases hx
  · have hle := h.draft_le htime
    simp only at hle
    omega

/-- Locks that there is room for can be added one after another. -/
theorem Mirrors.addLocks_succeeds (h : Mirrors now (Draft.saved ⟨account, j.store⟩))
    (hlocks : ∀ l ∈ locks, blockDate now ≤ l.1 ∧ l.2 ≠ Amount.zero)
    (hfits : (Draft.saved ⟨account, j.store⟩).Fits account.address locks) :
    succeeds ((locks.foldlM (fun account l => addLock account l.1 l.2) account).run j) := by
  induction locks generalizing account j with
  | nil => rfl
  | cons l locks ih =>
    obtain ⟨date, amount⟩ := l
    obtain ⟨hdate, hne⟩ := hlocks _ (List.mem_cons_self ..)
    rw [succeeds_iff, List.foldlM_cons, ends_bind]
    apply (ends_addLock.of_succeeds (h.addLock_succeeds hdate hfits)).mono_ok
    rintro _ k ⟨time, schedule, queued, total, htime, hupsert, hqueued, htotal, rfl, hk⟩
    have hadded : Mirrors now (Draft.saved ⟨{ account with schedule := schedule }, k.store⟩) := by
      rw [hk]
      exact h.add htime hne hupsert hqueued htotal
    have hrest : (Draft.saved ⟨{ account with schedule := schedule }, k.store⟩).Fits
        account.address locks := by
      rw [hk]
      exact hfits.rest hupsert htotal
    exact succeeds_iff.1 (ih hadded (fun l hl => hlocks l (List.mem_cons_of_mem _ hl)) hrest)

theorem Mirrors.addLocks_ne_error (h : s.Mirrors now)
    (hlocks : ∀ l ∈ locks, blockDate now ≤ l.1 ∧ l.2 ≠ Amount.zero) (hfits : s.Fits address locks)
    (hopens : s.Opens address account j.store) {fault : Fault LockError} {k : Journal} :
    (locks.foldlM (fun account l => addLock account l.1 l.2) account).run j ≠ .error fault k := by
  intro hrun
  have hadded := (h.opens hopens).addLocks_succeeds hlocks (hfits.opens hopens)
  rw [hrun] at hadded
  cases hadded

end Store

end StakeLock
