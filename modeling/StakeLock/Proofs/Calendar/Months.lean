import StakeLock.Calendar.Date
import StakeLock.Calendar.DayNumber
import Mathlib.Tactic.IntervalCases

/-!
# Months on the day line

The months of all years stand in one sequence. Each starts where the one before
it ends, so moving a date on by months never moves it back, and keeps dates in order.
-/

namespace StakeLock.Calendar

/-- Position of a month in the sequence of all months. -/
def Civil.monthIndex (c : Civil) : Int := 12 * c.year + (c.month - 1 : Nat)

def monthLength (k : Int) : Nat := Civil.lastOfMonth (k / 12) ((k % 12).toNat + 1)

def monthStart (k : Int) : Int := Civil.dayNumber ⟨k / 12, (k % 12).toNat + 1, 1⟩

theorem monthLength_pos (k : Int) : 0 < monthLength k := by
  have h : (k % 12).toNat < 12 := by omega
  unfold monthLength Civil.lastOfMonth monthLengths
  rw [Nat.add_sub_cancel]
  generalize (k % 12).toNat = i at h
  interval_cases i <;> simp
  split <;> omega

theorem sum_take_succ_monthLengths (leap : Bool) {i : Nat} (hi : i < 12) :
    ((monthLengths leap).take (i + 1)).sum =
      ((monthLengths leap).take i).sum + (monthLengths leap).getD i 0 := by
  have hl : i < (monthLengths leap).length := hi
  rw [List.take_add_one, List.sum_append, List.getD_eq_getElem?_getD, List.getElem?_eq_getElem hl]
  simp

theorem monthStart_succ (k : Int) : monthStart (k + 1) = monthStart k + monthLength k := by
  unfold monthStart monthLength Civil.lastOfMonth Civil.dayNumber
  simp only [Civil.daysBeforeMonth_eq, Nat.add_sub_cancel]
  by_cases h : k % 12 = 11
  · have hy : (k + 1) / 12 = k / 12 + 1 := by omega
    have hm : ((k + 1) % 12).toNat = 0 := by omega
    have hk : (k % 12).toNat = 11 := by omega
    have hs := sum_take_succ_monthLengths (isLeap (k / 12)) (show 11 < 12 by omega)
    have hall : (monthLengths (isLeap (k / 12))).take (11 + 1) = monthLengths (isLeap (k / 12)) :=
      rfl
    rw [hall] at hs
    rw [hy, hm, hk, daysBeforeYear_succ, hs]
    simp only [List.take_zero, List.sum_nil]
    omega
  · have hy : (k + 1) / 12 = k / 12 := by omega
    have hm : ((k + 1) % 12).toNat = (k % 12).toNat + 1 := by omega
    rw [hy, hm, sum_take_succ_monthLengths _ (show (k % 12).toNat < 12 by omega)]
    omega

theorem monthStart_lt_of_lt {k l : Int} (h : k < l) :
    monthStart k + monthLength k ≤ monthStart l := by
  obtain ⟨n, rfl⟩ : ∃ n : Nat, l = k + 1 + n := ⟨(l - k - 1).toNat, by omega⟩
  clear h
  induction n with
  | zero => rw [Int.natCast_zero, Int.add_zero, monthStart_succ]
  | succ n ih =>
    have hs := monthStart_succ (k + 1 + n)
    rw [Int.natCast_succ, ← Int.add_assoc, hs]
    omega

namespace Civil

variable {c : Civil}

theorem monthIndex_div (h : 1 ≤ c.month ∧ c.month ≤ 12) : c.monthIndex / 12 = c.year := by
  unfold monthIndex
  omega

theorem monthIndex_mod (h : 1 ≤ c.month ∧ c.month ≤ 12) :
    (c.monthIndex % 12).toNat + 1 = c.month := by
  unfold monthIndex
  omega

theorem dayNumber_eq_monthStart (h : 1 ≤ c.month ∧ c.month ≤ 12) :
    c.dayNumber = monthStart c.monthIndex + c.day - 1 := by
  unfold monthStart
  rw [monthIndex_div h, monthIndex_mod h]
  unfold dayNumber
  simp only
  omega

theorem monthLength_monthIndex (h : 1 ≤ c.month ∧ c.month ≤ 12) :
    monthLength c.monthIndex = lastOfMonth c.year c.month := by
  unfold monthLength
  rw [monthIndex_div h, monthIndex_mod h]

theorem month_addMonths (c : Civil) (m : Nat) :
    1 ≤ (c.addMonths m).month ∧ (c.addMonths m).month ≤ 12 := by
  unfold addMonths
  simp only
  omega

theorem monthIndex_addMonths (c : Civil) (m : Nat) :
    (c.addMonths m).monthIndex = c.monthIndex + m := by
  unfold monthIndex addMonths
  simp only
  omega

theorem day_addMonths (c : Civil) (m : Nat) :
    (c.addMonths m).day = min c.day (monthLength (c.monthIndex + m)) := by
  rw [← monthIndex_addMonths, monthLength_monthIndex (month_addMonths c m)]
  rfl

theorem dayNumber_addMonths (c : Civil) (m : Nat) :
    (c.addMonths m).dayNumber =
      monthStart (c.monthIndex + m) + min c.day (monthLength (c.monthIndex + m)) - 1 := by
  rw [dayNumber_eq_monthStart (month_addMonths c m), day_addMonths, monthIndex_addMonths]

theorem day_le_monthLength (h : c.Valid) : c.day ≤ monthLength c.monthIndex := by
  rw [monthLength_monthIndex ⟨h.1, h.2.1⟩]
  exact h.2.2.2

/-- Of two dates the one in the earlier month comes first, and in one month the earlier day. -/
theorem dayNumber_lt_iff_monthIndex {e : Civil} (hc : c.Valid) (he : e.Valid) :
    c.dayNumber < e.dayNumber ↔
      c.monthIndex < e.monthIndex ∨ c.monthIndex = e.monthIndex ∧ c.day < e.day := by
  have hcLast := day_le_monthLength hc
  have heLast := day_le_monthLength he
  have hcFirst := hc.2.2.1
  have heFirst := he.2.2.1
  rw [dayNumber_eq_monthStart ⟨hc.1, hc.2.1⟩, dayNumber_eq_monthStart ⟨he.1, he.2.1⟩]
  rcases Int.lt_trichotomy c.monthIndex e.monthIndex with hlt | heq | hgt
  · have hs := monthStart_lt_of_lt hlt
    omega
  · rw [heq]
    omega
  · have hs := monthStart_lt_of_lt hgt
    omega

theorem monthIndex_mono {e : Civil} (hc : c.Valid) (he : e.Valid)
    (h : c.dayNumber ≤ e.dayNumber) : c.monthIndex ≤ e.monthIndex := by
  by_contra hlt
  exact Int.not_lt.2 h ((dayNumber_lt_iff_monthIndex he hc).2 (.inl (Int.not_le.1 hlt)))

/-- The order of a calendar: by the year, then by the month, then by the day. -/
def Before (c e : Civil) : Prop :=
  c.year < e.year ∨ c.year = e.year ∧ (c.month < e.month ∨ c.month = e.month ∧ c.day < e.day)

instance (c e : Civil) : Decidable (c.Before e) := by
  unfold Before
  infer_instance

theorem dayNumber_lt_iff {e : Civil} (hc : c.Valid) (he : e.Valid) :
    c.dayNumber < e.dayNumber ↔ c.Before e := by
  rw [dayNumber_lt_iff_monthIndex hc he]
  have hmonth := hc.1
  have hmonth' := he.1
  have hlast := hc.2.1
  have hlast' := he.2.1
  unfold Before monthIndex
  omega

/-- A later date goes on to a later one, also where both become the last of their month. -/
theorem dayNumber_addMonths_mono {e : Civil} (hc : c.Valid) (he : e.Valid)
    (h : c.dayNumber ≤ e.dayNumber) {m n : Nat} (hm : m ≤ n) :
    (c.addMonths m).dayNumber ≤ (e.addMonths n).dayNumber := by
  have hk := monthIndex_mono hc he h
  rw [dayNumber_addMonths, dayNumber_addMonths]
  rcases Int.lt_or_eq_of_le (show c.monthIndex + m ≤ e.monthIndex + n by omega) with hlt | heq
  · have hs := monthStart_lt_of_lt hlt
    omega
  · have hsame : c.monthIndex = e.monthIndex := by omega
    rw [dayNumber_eq_monthStart ⟨hc.1, hc.2.1⟩, dayNumber_eq_monthStart ⟨he.1, he.2.1⟩, hsame] at h
    rw [heq]
    omega

theorem dayNumber_lt_addMonths (h : c.Valid) {m : Nat} (hm : 0 < m) :
    c.dayNumber < (c.addMonths m).dayNumber := by
  have hd := day_le_monthLength h
  have hs := monthStart_lt_of_lt (show c.monthIndex < c.monthIndex + m by omega)
  have hl := monthLength_pos (c.monthIndex + m)
  have h1 := h.2.2.1
  rw [dayNumber_addMonths, dayNumber_eq_monthStart ⟨h.1, h.2.1⟩]
  omega

theorem dayNumber_le_addMonths (h : c.Valid) (m : Nat) :
    c.dayNumber ≤ (c.addMonths m).dayNumber := by
  rcases Nat.eq_zero_or_pos m with rfl | hm
  · have hd := day_le_monthLength h
    rw [dayNumber_addMonths, dayNumber_eq_monthStart ⟨h.1, h.2.1⟩, Int.natCast_zero, Int.add_zero]
    omega
  · exact Int.le_of_lt (dayNumber_lt_addMonths h hm)

end Civil

end StakeLock.Calendar

namespace StakeLock.Date

open Calendar

theorem dayNumber_civil (d : Date) : d.civil.dayNumber = d.epochDay :=
  Civil.dayNumber_ofDayNumber d.epochDay

theorem valid_civil (d : Date) : d.civil.Valid := Civil.valid_ofDayNumber d.epochDay

theorem lt_iff_before {d e : Date} : d < e ↔ d.civil.Before e.civil := by
  rw [← Civil.dayNumber_lt_iff d.valid_civil e.valid_civil, dayNumber_civil, dayNumber_civil]
  exact lt_def

theorem epochDay_monthsFrom (d : Date) (m : Nat) :
    (d.monthsFrom m).epochDay = min (d.civil.addMonths m).dayNumber lastDay := by
  have h := Civil.dayNumber_le_addMonths d.valid_civil m
  rw [dayNumber_civil] at h
  have hfirst : firstDay ≤ (d.civil.addMonths m).dayNumber := Int.le_trans d.first_le h
  unfold monthsFrom
  cases hd : ofEpochDay? (d.civil.addMonths m).dayNumber with
  | none =>
    have hlast : lastDay < (d.civil.addMonths m).dayNumber := by
      by_contra hle
      rw [ofEpochDay?, dif_pos ⟨hfirst, Int.not_lt.1 hle⟩] at hd
      cases hd
    exact (Int.min_eq_right (Int.le_of_lt hlast)).symm
  | some e =>
    rw [ofEpochDay?_eq_some_iff] at hd
    rw [Option.getD_some, hd]
    exact (Int.min_eq_left e.le_last).symm

theorem le_monthsFrom (d : Date) (m : Nat) : d ≤ d.monthsFrom m := by
  have h := Civil.dayNumber_le_addMonths d.valid_civil m
  rw [dayNumber_civil] at h
  rw [le_def, epochDay_monthsFrom]
  exact Int.le_min.2 ⟨h, d.le_last⟩

/-- Going on by a month at least leads to a later date, except from the last one. -/
theorem lt_monthsFrom {d : Date} (hd : d < last) {m : Nat} (hm : 0 < m) : d < d.monthsFrom m := by
  have h := Civil.dayNumber_lt_addMonths d.valid_civil hm
  rw [dayNumber_civil] at h
  rw [lt_def, epochDay_monthsFrom]
  exact Int.lt_min.2 ⟨h, hd⟩

theorem lt_last {d : Date} (h : d ≠ last) : d < last :=
  lt_of_le_of_ne d.le_last fun heq => h (Date.ext heq)

theorem monthsFrom_mono {d e : Date} (h : d ≤ e) {m n : Nat} (hm : m ≤ n) :
    d.monthsFrom m ≤ e.monthsFrom n := by
  have hday : d.civil.dayNumber ≤ e.civil.dayNumber := by
    rw [dayNumber_civil, dayNumber_civil]
    exact h
  have hadd := Civil.dayNumber_addMonths_mono d.valid_civil e.valid_civil hday hm
  rw [le_def, epochDay_monthsFrom, epochDay_monthsFrom]
  exact min_le_min_right _ hadd

end StakeLock.Date
