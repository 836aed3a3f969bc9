import Mathlib.Algebra.Order.Ring.Nat
import StakeLock.Calendar.Civil

/-!
# Day numbers and civil dates

The valid civil dates and the day numbers correspond one to one.
-/

namespace StakeLock.Calendar

variable (lengths : List Nat)

theorem sum_take_locate (offset : Nat) :
    (lengths.take (locate lengths offset).1).sum + (locate lengths offset).2 = offset := by
  induction lengths generalizing offset with
  | nil => simp [locate]
  | cons l ls ih =>
    simp only [locate]
    split
    · simp
    · simp only [List.take_succ_cons, List.sum_cons]
      have := ih (offset - l)
      omega

theorem locate_lt {offset : Nat} (h : offset < lengths.sum) :
    (locate lengths offset).1 < lengths.length ∧
      (locate lengths offset).2 < lengths.getD (locate lengths offset).1 0 := by
  induction lengths generalizing offset with
  | nil => simp at h
  | cons l ls ih =>
    simp only [locate]
    split
    · simpa using by assumption
    · simp only [List.sum_cons] at h
      have := ih (show offset - l < ls.sum by omega)
      simpa using this

theorem locate_sum_take_add {i r : Nat} (h : r < lengths.getD i 0) :
    locate lengths ((lengths.take i).sum + r) = (i, r) := by
  induction lengths generalizing i with
  | nil => simp at h
  | cons l ls ih =>
    cases i with
    | zero =>
      have : r < l := by simpa using h
      simp [locate, this]
    | succ i =>
      have hi := ih (show r < ls.getD i 0 by simpa using h)
      have hs : ((l :: ls).take (i + 1)).sum + r = l + ((ls.take i).sum + r) := by
        simp only [List.take_succ_cons, List.sum_cons]
        omega
      rw [hs, locate, if_neg (by omega), Nat.add_sub_cancel_left, hi]

theorem sum_take_add_getD_le (i : Nat) :
    (lengths.take i).sum + lengths.getD i 0 ≤ lengths.sum := by
  induction lengths generalizing i with
  | nil => simp
  | cons l ls ih =>
    cases i with
    | zero => simp
    | succ i =>
      have := ih i
      simp only [List.take_succ_cons, List.sum_cons, List.getD_cons_succ]
      omega

theorem sum_monthLengths (leap : Bool) :
    (monthLengths leap).sum = if leap then 366 else 365 := by
  cases leap <;> rfl

theorem daysBeforeYear_succ (year : Int) :
    daysBeforeYear (year + 1) = daysBeforeYear year + (monthLengths (isLeap year)).sum := by
  rw [sum_monthLengths]
  simp only [isLeap, Bool.and_eq_true, Bool.or_eq_true, bne_iff_ne, ne_eq, beq_iff_eq,
    daysBeforeYear]
  split <;> omega

theorem daysBeforeYear_mono {y z : Int} (h : y ≤ z) : daysBeforeYear y ≤ daysBeforeYear z := by
  simp only [daysBeforeYear]
  omega

theorem yearOfDay_eq {n y : Int} (h : daysBeforeYear y ≤ n) (h' : n < daysBeforeYear (y + 1)) :
    yearOfDay n = y := by
  have h1 := daysBeforeYear_yearOfDay_le n
  have h2 := lt_daysBeforeYear_yearOfDay_succ n
  rcases Int.lt_trichotomy (yearOfDay n) y with hlt | heq | hgt
  · have := daysBeforeYear_mono (show yearOfDay n + 1 ≤ y by omega)
    omega
  · exact heq
  · have := daysBeforeYear_mono (show y + 1 ≤ yearOfDay n by omega)
    omega

namespace Civil

theorem daysBeforeMonth_eq (year : Int) (month : Nat) :
    daysBeforeMonth year month = ((monthLengths (isLeap year)).take (month - 1)).sum :=
  List.sum_eq_foldr.symm

theorem valid_ofDayNumber (n : Int) : (ofDayNumber n).Valid := by
  have h1 := daysBeforeYear_yearOfDay_le (n + epoch)
  have h2 := lt_daysBeforeYear_yearOfDay_succ (n + epoch)
  rw [daysBeforeYear_succ] at h2
  have h3 := locate_lt (monthLengths (isLeap (yearOfDay (n + epoch))))
    (show (n + epoch - daysBeforeYear (yearOfDay (n + epoch))).toNat < _ by omega)
  have h4 : (monthLengths (isLeap (yearOfDay (n + epoch)))).length = 12 := rfl
  simp only [Valid, ofDayNumber, lastOfMonth]
  rw [h4] at h3
  simp only [Nat.add_sub_cancel]
  omega

theorem dayNumber_ofDayNumber (n : Int) : (ofDayNumber n).dayNumber = n := by
  have h1 := daysBeforeYear_yearOfDay_le (n + epoch)
  have h2 := sum_take_locate (monthLengths (isLeap (yearOfDay (n + epoch))))
    (n + epoch - daysBeforeYear (yearOfDay (n + epoch))).toNat
  simp only [dayNumber, daysBeforeMonth_eq, ofDayNumber, Nat.add_sub_cancel]
  omega

theorem ofDayNumber_dayNumber {c : Civil} (h : c.Valid) : ofDayNumber c.dayNumber = c := by
  obtain ⟨year, month, day⟩ := c
  obtain ⟨h1, h2, h3, h4⟩ := h
  simp only [lastOfMonth] at h1 h2 h3 h4
  have hl := locate_sum_take_add (monthLengths (isLeap year))
    (show day - 1 < (monthLengths (isLeap year)).getD (month - 1) 0 by omega)
  have hs := sum_take_add_getD_le (monthLengths (isLeap year)) (month - 1)
  have hy : yearOfDay (dayNumber ⟨year, month, day⟩ + epoch) = year := by
    apply yearOfDay_eq
    · simp only [dayNumber, daysBeforeMonth_eq]
      omega
    · rw [daysBeforeYear_succ]
      simp only [dayNumber, daysBeforeMonth_eq]
      omega
  simp only [ofDayNumber, hy]
  have ho : (dayNumber ⟨year, month, day⟩ + epoch - daysBeforeYear year).toNat =
      ((monthLengths (isLeap year)).take (month - 1)).sum + (day - 1) := by
    simp only [dayNumber, daysBeforeMonth_eq]
    omega
  rw [ho, hl]
  simp only [mk.injEq, true_and]
  omega

end Civil

end StakeLock.Calendar
