import StakeLock.Proofs.UnlockTime

/-!
# The window of unlock dates

Locks may end on the dates from one number of months after today to another. Going on by
months keeps dates in order, whatever the lengths of the months and where the calendar ends,
so the window is never empty and its ends never move back.
-/

namespace StakeLock

/-- Going on by more months, or from a later date, leads to no earlier date; it never leads
back, and a month at least leads forward from all dates but the last. Hence the window of
unlock dates is just what lies between its ends, is not empty if these are in order, and
moves with the ledger time and the numbers of months in one direction only. Each date in it
has an unlock time, and is still locked if the window opens after a month at least. -/
theorem unlock_window_never_moves_back :
    ((∀ (d e : Date) (m n : Nat), d ≤ e → m ≤ n → d.monthsFrom m ≤ e.monthsFrom n) ∧
      (∀ (d : Date) (m : Nat), d ≤ d.monthsFrom m) ∧
      ∀ (d : Date) (m : Nat), 1 ≤ m → d ≠ Date.last → d < d.monthsFrom m) ∧
    ∀ (now : Timestamp) (config : Config),
      (∀ date, checkUnlockWindow now date config.minMonths config.maxMonths = .ok () ↔
        (blockDate now).monthsFrom config.minMonths ≤ date ∧
          date ≤ (blockDate now).monthsFrom config.maxMonths) ∧
      (config.minMonths ≤ config.maxMonths →
        ∃ date, checkUnlockWindow now date config.minMonths config.maxMonths = .ok ()) ∧
      (∀ (later : Timestamp) (m n : Nat), now ≤ later → m ≤ n →
        (blockDate now).monthsFrom m ≤ (blockDate later).monthsFrom n) ∧
      ∀ date, checkUnlockWindow now date config.minMonths config.maxMonths = .ok () →
        (∃ time, unlockTime date = .ok time) ∧ (1 ≤ config.minMonths → isLocked now date) := by
  have hmono : ∀ (d e : Date) (m n : Nat), d ≤ e → m ≤ n → d.monthsFrom m ≤ e.monthsFrom n :=
    fun d e m n hdate hmonths => Date.monthsFrom_mono hdate hmonths
  refine ⟨⟨hmono, Date.le_monthsFrom, fun d m hm hlast => ?_⟩, fun now config => ?_⟩
  · exact Date.lt_monthsFrom (Date.lt_last hlast) hm
  refine ⟨fun date => checkUnlockWindow_eq_ok_iff, fun hle => ?_, ?_, fun date hwindow => ?_⟩
  · have hends := hmono (blockDate now) (blockDate now) _ _ (Int.le_refl _) hle
    exact ⟨_, checkUnlockWindow_eq_ok_iff.2 ⟨Int.le_refl _, hends⟩⟩
  · intro later m n hlater hmonths
    exact hmono _ _ m n (blockDate_mono hlater) hmonths
  · obtain ⟨time, htime⟩ :=
      exists_unlockTime_of_blockDate_le (blockDate_le_of_checkUnlockWindow hwindow)
    exact ⟨⟨time, unlockTime_eq_ok_iff.2 htime⟩, isLocked_of_checkUnlockWindow hwindow⟩

namespace LateAugust

/-- The last second of 2026-08-31. -/
def now : Timestamp := ⟨(20697 * 86400 - 1) * 10 ^ 9, by decide⟩

/-- 2027-02-28, on which the window opens that begins after half a year. -/
def opening : Date := ⟨20877, by decide, by decide⟩

end LateAugust

open LateAugust in
theorem window_opens_at_end_of_february :
    (blockDate now).monthsFrom 6 = opening ∧ (∃ time, unlockTime opening = .ok time) ∧
    isLocked now opening ∧ opening < opening.monthsFrom 1 ∧
    (∃ date, checkUnlockWindow now date 6 24 = .ok ()) ∧
    ∀ later, now ≤ later → opening ≤ (blockDate later).monthsFrom 6 := by
  have hopens : (blockDate now).monthsFrom 6 = opening := by decide +kernel
  have hchecked : checkUnlockWindow now opening 6 24 = .ok () := by decide +kernel
  obtain ⟨⟨-, -, hforward⟩, hwindow⟩ := unlock_window_never_moves_back
  obtain ⟨-, hsome, hlater, hdates⟩ := hwindow now ⟨⟨"alice"⟩, 6, 24, 100⟩
  obtain ⟨htime, hlocked⟩ := hdates opening hchecked
  refine ⟨hopens, htime, hlocked (by decide), hforward _ 1 (by decide) (by decide),
    hsome (by decide), fun later hle => ?_⟩
  rw [← hopens]
  exact hlater later 6 6 hle (Nat.le_refl _)

end StakeLock
