import StakeLock.Proofs.Calendar.Months
import StakeLock.Clock
import StakeLock.Config

/-!
# Unlock times

The unlock time of a date and the question whether the date is locked agree: a
date is locked exactly while its unlock time lies ahead of the ledger time.
-/

namespace StakeLock

variable {now later : Timestamp} {date : Date} {time : Nat}

theorem isLocked_iff : isLocked now date ↔ blockDay now < date.epochDay := by
  unfold isLocked
  rw [decide_eq_true_iff]

theorem blockDay_nonneg (now : Timestamp) : 0 ≤ blockDay now := Int.natCast_nonneg _

theorem blockDay_mono (h : now ≤ later) : blockDay now ≤ blockDay later := by
  rw [Timestamp.le_def] at h
  unfold blockDay Timestamp.seconds secondsPerDay
  omega

theorem isLocked_of_le (h : now ≤ later) (hl : isLocked later date) : isLocked now date := by
  rw [isLocked_iff] at hl ⊢
  exact Int.lt_of_le_of_lt (blockDay_mono h) hl

theorem isLocked_iff_blockDate_lt : isLocked now date ↔ blockDate now < date := isLocked_iff

theorem isLocked_of_lt {source target : Date} (h : source < target) (hs : isLocked now source) :
    isLocked now target := by
  rw [isLocked_iff] at hs ⊢
  exact Int.lt_trans hs h

theorem unlockTime?_eq_some_iff :
    unlockTime? date = some time ↔ (time : Int) = date.epochDay * 86400 := by
  unfold unlockTime? secondsPerDay
  by_cases h : 0 ≤ date.epochDay
  · rw [if_pos h, Option.some.injEq]
    omega
  · rw [if_neg h]
    simp only [reduceCtorEq, false_iff]
    omega

theorem unlockTime?_injective {d e : Date} (hd : unlockTime? d = some time)
    (he : unlockTime? e = some time) : d = e := by
  rw [unlockTime?_eq_some_iff] at hd he
  apply Date.ext
  omega

theorem dateOfUnlockTime?_eq (h : unlockTime? date = some time) :
    dateOfUnlockTime? time = some date := by
  rw [unlockTime?_eq_some_iff] at h
  unfold dateOfUnlockTime? secondsPerDay
  rw [Date.ofEpochDay?_eq_some_iff]
  omega

theorem dateOfUnlockTime?_mono {d e : Date} {s t : Nat} (hd : dateOfUnlockTime? s = some d)
    (he : dateOfUnlockTime? t = some e) (h : s ≤ t) : d ≤ e := by
  unfold dateOfUnlockTime? secondsPerDay at hd he
  rw [Date.ofEpochDay?_eq_some_iff] at hd he
  rw [Date.le_def]
  omega

theorem exists_unlockTime_of_blockDate_le (h : blockDate now ≤ date) :
    ∃ time, unlockTime? date = some time := by
  have h0 : 0 ≤ date.epochDay := Int.le_trans (blockDay_nonneg now) h
  exact ⟨_, if_pos h0⟩

theorem exists_unlockTime_of_isLocked (h : isLocked now date) :
    ∃ time, unlockTime? date = some time :=
  exists_unlockTime_of_blockDate_le (Int.le_of_lt (isLocked_iff.1 h))

/-- A move from a date that is still locked to a later one has both unlock times. -/
theorem exists_unlockTimes {source target : Date} (hlocked : isLocked now source)
    (hlt : source < target) : (∃ time, unlockTime? source = some time) ∧
      ∃ time, unlockTime? target = some time :=
  ⟨exists_unlockTime_of_isLocked hlocked,
    exists_unlockTime_of_isLocked (isLocked_of_lt hlt hlocked)⟩

/-- An unlock time lies ahead exactly while its date is locked. -/
theorem seconds_lt_iff_isLocked (h : unlockTime? date = some time) :
    now.seconds < time ↔ isLocked now date := by
  rw [unlockTime?_eq_some_iff] at h
  rw [isLocked_iff]
  unfold blockDay secondsPerDay
  omega

theorem unlockTime_eq_ok_iff : unlockTime date = .ok time ↔ unlockTime? date = some time := by
  unfold unlockTime
  cases unlockTime? date <;> simp

theorem unlockTime_eq_error {reason : LockError} (h : unlockTime date = .error reason) :
    unlockTime? date = none ∧ reason = .invalidDate date.text := by
  unfold unlockTime at h
  cases hd : unlockTime? date with
  | none =>
    rw [hd] at h
    cases h
    exact ⟨rfl, rfl⟩
  | some time =>
    rw [hd] at h
    cases h

/-! ## The window -/

theorem blockDate_mono (h : now ≤ later) : blockDate now ≤ blockDate later := blockDay_mono h

theorem blockDate_lt_last (now : Timestamp) : blockDate now < Date.last := by
  have hnanos := now.nanos_lt
  rw [Date.lt_def]
  simp only [blockDate, Date.last, lastDay, blockDay, Timestamp.seconds, secondsPerDay]
  omega

theorem checkMaxHorizon_eq_ok_iff {maxMonths : Nat} :
    checkMaxHorizon now date maxMonths = .ok () ↔ date ≤ (blockDate now).monthsFrom maxMonths := by
  unfold checkMaxHorizon
  simp only
  by_cases hlate : (blockDate now).monthsFrom maxMonths < date
  · rw [if_pos hlate]
    exact iff_of_false nofun (Int.not_le.2 hlate)
  · rw [if_neg hlate]
    exact iff_of_true rfl (Int.not_lt.1 hlate)

theorem checkUnlockWindow_eq_ok_iff {minMonths maxMonths : Nat} :
    checkUnlockWindow now date minMonths maxMonths = .ok () ↔
      (blockDate now).monthsFrom minMonths ≤ date ∧
        date ≤ (blockDate now).monthsFrom maxMonths := by
  unfold checkUnlockWindow
  simp only
  by_cases hsoon : date < (blockDate now).monthsFrom minMonths
  · rw [if_pos hsoon]
    exact iff_of_false nofun fun h => Int.not_le.2 hsoon h.1
  · rw [if_neg hsoon, checkMaxHorizon_eq_ok_iff]
    exact (and_iff_right (Int.not_lt.1 hsoon)).symm

theorem blockDate_le_of_checkUnlockWindow {min max : Nat}
    (h : checkUnlockWindow now date min max = .ok ()) : blockDate now ≤ date :=
  Int.le_trans (Date.le_monthsFrom (blockDate now) min) (checkUnlockWindow_eq_ok_iff.1 h).1

theorem isLocked_of_checkUnlockWindow {min max : Nat}
    (h : checkUnlockWindow now date min max = .ok ()) (hmin : 0 < min) : isLocked now date := by
  rw [isLocked_iff]
  exact Int.lt_of_lt_of_le (Date.lt_monthsFrom (blockDate_lt_last now) hmin)
    (checkUnlockWindow_eq_ok_iff.1 h).1

/-- The configuration that a call finds, if there is one, lets locks end on a date. -/
def Admits (terms : Option Config) (now : Timestamp) (date : Date) : Prop :=
  ∃ config ∈ terms, checkUnlockWindow now date config.minMonths config.maxMonths = .ok ()

theorem Admits.blockDate_le {terms : Option Config} (h : Admits terms now date) :
    blockDate now ≤ date := by
  obtain ⟨config, -, hwindow⟩ := h
  exact blockDate_le_of_checkUnlockWindow hwindow

theorem Admits.isLocked {terms : Option Config} (h : Admits terms now date)
    (hmin : ∀ config ∈ terms, 0 < config.minMonths) : isLocked now date := by
  obtain ⟨config, hconfig, hwindow⟩ := h
  exact isLocked_of_checkUnlockWindow hwindow (hmin config hconfig)

/-- The configuration that a call finds, if there is one, reaches as far as a date. -/
def WithinHorizon (terms : Option Config) (now : Timestamp) (date : Date) : Prop :=
  ∃ config ∈ terms, date ≤ (blockDate now).monthsFrom config.maxMonths

theorem Admits.withinHorizon {terms : Option Config} (h : Admits terms now date) :
    WithinHorizon terms now date := by
  obtain ⟨config, hconfig, hwindow⟩ := h
  exact ⟨config, hconfig, (checkUnlockWindow_eq_ok_iff.1 hwindow).2⟩

/-- The horizon moves forward with time, and with the number of months. -/
theorem WithinHorizon.mono {terms others : Option Config} (h : WithinHorizon terms now date)
    (hnow : now ≤ later)
    (hraised : ∀ old ∈ terms, ∃ new ∈ others, old.maxMonths ≤ new.maxMonths) :
    WithinHorizon others later date := by
  obtain ⟨config, hconfig, hle⟩ := h
  obtain ⟨new, hnew, hmonths⟩ := hraised config hconfig
  exact ⟨new, hnew, Int.le_trans hle (Date.monthsFrom_mono (blockDate_mono hnow) hmonths)⟩

end StakeLock
