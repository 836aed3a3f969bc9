import StakeLock.Proofs.UnlockTime

/-!
# Unlock times in order

Dates from 1970-01-01 on and the midnights in seconds correspond one to one, and later dates
have later midnights. A time in seconds belongs to the date whose midnight is the last one
before it.
-/

namespace StakeLock

open Calendar

variable {now : Timestamp} {date : Date} {time : Nat}

theorem unlockTime_eq_ok_iff_dayNumber :
    unlockTime date = .ok time ↔ (time : Int) = date.civil.dayNumber * 86400 := by
  rw [unlockTime_eq_ok_iff, unlockTime?_eq_some_iff, Date.dayNumber_civil]

theorem Date.epochDay_neg_iff : date.epochDay < 0 ↔ date.civil.Before ⟨1970, 1, 1⟩ := by
  have hvalid : (⟨1970, 1, 1⟩ : Civil).Valid := by decide
  have hzero : (⟨1970, 1, 1⟩ : Civil).dayNumber = 0 := by decide
  rw [← Civil.dayNumber_lt_iff date.valid_civil hvalid, hzero, dayNumber_civil]

theorem exists_unlockTime_iff :
    (∃ time, unlockTime date = .ok time) ↔ ¬date.civil.Before ⟨1970, 1, 1⟩ := by
  simp only [unlockTime_eq_ok_iff, unlockTime?_eq_some_iff, ← Date.epochDay_neg_iff]
  constructor
  · rintro ⟨time, htime⟩
    omega
  · intro hnonneg
    exact ⟨(date.epochDay * 86400).toNat, by omega⟩

theorem unlockTime_eq_error_iff {reason : LockError} : unlockTime date = .error reason ↔
    date.civil.Before ⟨1970, 1, 1⟩ ∧ reason = .invalidDate date.text := by
  constructor
  · intro h
    refine ⟨?_, (unlockTime_eq_error h).2⟩
    by_contra hnot
    obtain ⟨time, htime⟩ := exists_unlockTime_iff.2 hnot
    rw [h] at htime
    cases htime
  · rintro ⟨hbefore, rfl⟩
    cases h : unlockTime date with
    | ok time => exact absurd hbefore (exists_unlockTime_iff.1 ⟨time, h⟩)
    | error reason => rw [(unlockTime_eq_error h).2]

theorem unlockTime_lt (h : unlockTime date = .ok time) : time < 2 ^ 64 := by
  have hlast := date.le_last
  rw [unlockTime_eq_ok_iff, unlockTime?_eq_some_iff] at h
  unfold lastDay at hlast
  omega

theorem unlockTime_lt_iff {later : Date} {laterTime : Nat} (h : unlockTime date = .ok time)
    (h' : unlockTime later = .ok laterTime) : time < laterTime ↔ date < later := by
  rw [unlockTime_eq_ok_iff, unlockTime?_eq_some_iff] at h h'
  rw [Date.lt_def]
  omega

/-! ## From seconds to dates -/

variable {seconds : Nat}

/-- A time falls on a date just if the midnight of that date is the last one until then. -/
theorem dateOfUnlockTime?_eq_some_iff :
    dateOfUnlockTime? seconds = some date ↔ unlockTime date = .ok (seconds - seconds % 86400) := by
  unfold dateOfUnlockTime? secondsPerDay
  rw [Date.ofEpochDay?_eq_some_iff, unlockTime_eq_ok_iff, unlockTime?_eq_some_iff]
  omega

theorem dateOfUnlockTime?_eq_none_iff :
    dateOfUnlockTime? seconds = none ↔ Date.last.epochDay < (seconds / 86400 : Nat) := by
  unfold dateOfUnlockTime? Date.ofEpochDay? secondsPerDay
  have hfirst : firstDay ≤ (seconds / 86400 : Nat) := by
    unfold firstDay
    omega
  change _ ↔ lastDay < _
  by_cases hlast : ((seconds / 86400 : Nat) : Int) ≤ lastDay
  · rw [dif_pos ⟨hfirst, hlast⟩]
    exact iff_of_false nofun (Int.not_lt.2 hlast)
  · rw [dif_neg fun h => hlast h.2]
    exact iff_of_true rfl (Int.not_le.1 hlast)

theorem eq_blockDate_iff :
    date = blockDate now ↔ unlockTime date = .ok (now.seconds - now.seconds % 86400) := by
  rw [← dateOfUnlockTime?_eq_some_iff]
  unfold dateOfUnlockTime?
  rw [Date.ofEpochDay?_eq_some_iff, Date.ext_iff]
  exact eq_comm

/-- Dates have unlock times from 1970-01-01 on, which are as many days in seconds as the
calendar counts until then, and follow the order of the dates. Each leads back to its date.
A time in seconds leads to the date whose unlock time it rounds down to, unless its day lies
after the last date, and so does a ledger time, which always has one. -/
theorem unlock_times_follow_dates :
    (∀ date, (∃ time, unlockTime date = .ok time) ↔ ¬date.civil.Before ⟨1970, 1, 1⟩) ∧
    (∀ date reason, unlockTime date = .error reason ↔
      date.civil.Before ⟨1970, 1, 1⟩ ∧ reason = .invalidDate date.text) ∧
    (∀ date time, unlockTime date = .ok time ↔
      time < 2 ^ 64 ∧ (time : Int) = date.civil.dayNumber * 86400) ∧
    (∀ d e : Date, d < e ↔ d.civil.Before e.civil) ∧
    (∀ d e s t, unlockTime d = .ok s → unlockTime e = .ok t → (s < t ↔ d < e)) ∧
    (∀ date time, unlockTime date = .ok time → dateOfUnlockTime? time = some date) ∧
    (∀ seconds date, dateOfUnlockTime? seconds = some date ↔
      unlockTime date = .ok (seconds - seconds % 86400)) ∧
    (∀ seconds, dateOfUnlockTime? seconds = none ↔
      Date.last.epochDay < (seconds / 86400 : Nat)) ∧
    ∀ now date, date = blockDate now ↔
      unlockTime date = .ok (now.seconds - now.seconds % 86400) := by
  refine ⟨fun _ => exists_unlockTime_iff, fun _ _ => unlockTime_eq_error_iff, fun _ _ => ?_,
    fun _ _ => Date.lt_iff_before, fun _ _ _ _ => unlockTime_lt_iff, fun _ _ h => ?_,
    fun _ _ => dateOfUnlockTime?_eq_some_iff, fun _ => dateOfUnlockTime?_eq_none_iff,
    fun _ _ => eq_blockDate_iff⟩
  · rw [← unlockTime_eq_ok_iff_dayNumber]
    exact ⟨fun h => ⟨unlockTime_lt h, h⟩, And.right⟩
  · exact dateOfUnlockTime?_eq (unlockTime_eq_ok_iff.1 h)

/-- 2000-02-29. -/
def leapDay : Date := ⟨11016, by decide, by decide⟩

/-- 2000-03-01. -/
def dayAfterLeapDay : Date := ⟨11017, by decide, by decide⟩

/-- The leap day of 2000 begins at 951782400 seconds and lasts until the next midnight; its
last second falls on it, and after the last of all dates there is none. -/
theorem leap_day_follows_february : unlockTime leapDay = .ok 951782400 ∧
    leapDay.civil.Before ⟨2000, 3, 1⟩ ∧ dateOfUnlockTime? 951782400 = some leapDay ∧
    dateOfUnlockTime? 951868799 = some leapDay ∧
    dateOfUnlockTime? ((95026236 + 1) * 86400) = none := by
  obtain ⟨-, -, hvalue, horder, hmono, hback, hround, hnone, -⟩ := unlock_times_follow_dates
  have hcivil : leapDay.civil = ⟨2000, 2, 29⟩ ∧ dayAfterLeapDay.civil = ⟨2000, 3, 1⟩ := by decide
  have htime : unlockTime leapDay = .ok 951782400 := by
    rw [hvalue, hcivil.1]
    decide
  have hnext : unlockTime dayAfterLeapDay = .ok 951868800 := by
    rw [hvalue, hcivil.2]
    decide
  have hless : leapDay < dayAfterLeapDay := (hmono _ _ _ _ htime hnext).1 (by decide)
  refine ⟨htime, ?_, hback _ _ htime, (hround _ _).2 htime, (hnone _).2 (by decide)⟩
  rw [← hcivil.2]
  exact (horder _ _).1 hless

end StakeLock
