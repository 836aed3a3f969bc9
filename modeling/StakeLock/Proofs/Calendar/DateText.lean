import Mathlib.Data.String.Basic
import StakeLock.Clock
import StakeLock.Proofs.Calendar.Months

/-!
# Printed dates are read back

A number that is filled up with zeros to a width is read back, whatever follows it. So a
date whose year has at most four digits is read back from its printed form. All other dates
are printed with a sign, which makes their text too long to be read.
-/

namespace StakeLock

namespace Text

variable {width n : Nat} {digits rest : List Char} {c : Char}

theorem isDigit_of_mem_padded (h : c ∈ padded width n) : c.isDigit := by
  unfold padded at h
  rcases List.mem_append.1 h with hzero | hdigit
  · rw [List.eq_of_mem_replicate hzero]
    rfl
  · exact Nat.isDigit_of_mem_toDigits (by decide) (by decide) hdigit

theorem length_padded (hwidth : 0 < width) (h : n < 10 ^ width) :
    (padded width n).length = width := by
  have hlength := (Nat.length_toDigits_le_iff (by decide : 1 < 10) hwidth).2 h
  unfold padded
  rw [List.length_append, List.length_replicate]
  omega

theorem le_length_padded (width n : Nat) : width ≤ (padded width n).length := by
  unfold padded
  rw [List.length_append, List.length_replicate]
  omega

theorem ofDigitChars_padded (width n : Nat) : Nat.ofDigitChars 10 (padded width n) 0 = n := by
  unfold padded
  rw [Nat.ofDigitChars_append, Nat.ofDigitChars_replicate_zero, Nat.mul_zero,
    Nat.ofDigitChars_ten_toDigits]

/-- Digits of the full width are read, and nothing beyond them. -/
theorem leading?_append (hwidth : 0 < width) (hlength : digits.length = width)
    (hdigits : ∀ c ∈ digits, c.isDigit) :
    leading? width (digits ++ rest) = some (Nat.ofDigitChars 10 digits 0, rest) := by
  have hread : ((digits ++ rest).takeWhile Char.isDigit).take width = digits := by
    rw [List.takeWhile_append_of_pos hdigits, ← hlength, List.take_left]
  have hne : digits ≠ [] := by
    rw [← List.length_pos_iff]
    omega
  unfold leading?
  simp [hread, hne]

theorem leading?_padded (hwidth : 0 < width) (h : n < 10 ^ width) (rest : List Char) :
    leading? width (padded width n ++ rest) = some (n, rest) := by
  rw [leading?_append hwidth (length_padded hwidth h) fun c hc => isDigit_of_mem_padded hc,
    ofDigitChars_padded]

theorem not_isBlank_of_isDigit (h : c.isDigit) : ¬isBlank c := by
  have hbounds : 48 ≤ c.toNat ∧ c.toNat ≤ 57 := Char.isDigit_iff_toNat.1 h
  simp only [isBlank, blankRanges, List.any_cons, List.any_nil, Bool.or_false, Bool.or_eq_true,
    Bool.and_eq_true, decide_eq_true_eq]
  omega

theorem exists_padded_eq_cons (width n : Nat) :
    ∃ c cs, padded width n = c :: cs ∧ c.isDigit := by
  cases hpadded : padded width n with
  | nil => simp [padded, Nat.toDigits_ne_nil] at hpadded
  | cons c cs =>
    have hc : c ∈ padded width n := by simp [hpadded]
    exact ⟨c, cs, rfl, isDigit_of_mem_padded hc⟩

theorem dropWhile_isBlank_padded (width n : Nat) (rest : List Char) :
    (padded width n ++ rest).dropWhile isBlank = padded width n ++ rest := by
  obtain ⟨c, cs, hpadded, hc⟩ := exists_padded_eq_cons width n
  simp [hpadded, not_isBlank_of_isDigit hc]

theorem utf8Len_of_ascii {cs : List Char} (h : ∀ c ∈ cs, c.utf8Size = 1) :
    String.utf8Len cs = cs.length := by
  induction cs with
  | nil => rfl
  | cons c cs ih =>
    obtain ⟨hc, hcs⟩ := List.forall_mem_cons.1 h
    rw [String.utf8Len_cons, ih hcs, hc, List.length_cons]

theorem length_le_utf8Len (cs : List Char) : cs.length ≤ String.utf8Len cs := by
  induction cs with
  | nil => exact Nat.le_refl _
  | cons c cs ih =>
    rw [String.utf8Len_cons, List.length_cons]
    exact Nat.add_le_add ih c.utf8Size_pos

theorem utf8Size_of_isDigit (h : c.isDigit) : c.utf8Size = 1 := by
  have hbounds : 48 ≤ c.toNat ∧ c.toNat ≤ 57 := Char.isDigit_iff_toNat.1 h
  rw [Char.utf8Size_eq_one_iff, UInt32.le_iff_toNat_le]
  change c.toNat ≤ 127
  omega

theorem utf8Len_digits (h : ∀ c ∈ digits, c.isDigit) : String.utf8Len digits = digits.length :=
  utf8Len_of_ascii fun c hc => utf8Size_of_isDigit (h c hc)

theorem utf8Len_padded (hwidth : 0 < width) (h : n < 10 ^ width) :
    String.utf8Len (padded width n) = width := by
  rw [utf8Len_digits fun c hc => isDigit_of_mem_padded hc, length_padded hwidth h]

end Text

namespace Date

open Text Calendar

variable {c : Civil} {d : Date}

theorem civilChars_eq (hfirst : 0 ≤ c.year) (hlast : c.year ≤ 9999) : civilChars c =
    padded 4 c.year.natAbs ++ '-' :: (padded 2 c.month ++ '-' :: padded 2 c.day) := by
  unfold civilChars yearChars
  rw [if_neg (Int.not_lt.2 hfirst), if_neg (Int.not_lt.2 hlast)]
  simp

theorem readYear?_padded (hfirst : 0 ≤ c.year) (hlast : c.year ≤ 9999) (rest : List Char) :
    readYear? (padded 4 c.year.natAbs ++ rest) = some (c.year, rest) := by
  have hread : leading? 4 (padded 4 c.year.natAbs ++ rest) = some (c.year.natAbs, rest) :=
    leading?_padded (by decide) (by omega) rest
  obtain ⟨digit, cs, hpadded, hdigit⟩ := exists_padded_eq_cons 4 c.year.natAbs
  rw [hpadded, List.cons_append] at hread ⊢
  unfold readYear?
  split
  · rename_i heq
    cases heq
    simp at hdigit
  · rename_i heq
    cases heq
    simp at hdigit
  · rw [hread, Option.map_some, Int.natAbs_of_nonneg hfirst]

theorem readCivil?_civilChars (hfirst : 0 ≤ c.year) (hlast : c.year ≤ 9999) (hmonth : c.month < 100)
    (hday : c.day < 100) : readCivil? (civilChars c) = some c := by
  have hmonth' := leading?_padded (by decide : 0 < 2) hmonth ('-' :: padded 2 c.day)
  have hday' := leading?_padded (by decide : 0 < 2) hday []
  rw [List.append_nil] at hday'
  have hblank := dropWhile_isBlank_padded 2 c.day []
  rw [List.append_nil] at hblank
  unfold readCivil?
  rw [civilChars_eq hfirst hlast, dropWhile_isBlank_padded]
  simp only [readYear?_padded hfirst hlast, Option.bind_eq_bind, Option.bind_some, readDash?,
    dropWhile_isBlank_padded, hmonth', hblank, hday', if_true]

theorem ofCivil?_civil (d : Date) : ofCivil? d.civil = some d := by
  unfold ofCivil?
  rw [if_pos d.valid_civil, ofEpochDay?_eq_some_iff]
  exact d.dayNumber_civil

theorem civil_bounds (d : Date) : d.civil.month < 100 ∧ d.civil.day < 100 := by
  obtain ⟨-, hmonth, -, hday⟩ := d.valid_civil
  have hlengths : ∀ leap, ∀ length ∈ monthLengths leap, length < 100 := by decide
  have hlast : Civil.lastOfMonth d.civil.year d.civil.month < 100 := by
    unfold Civil.lastOfMonth
    rw [List.getD_eq_getElem?_getD]
    cases hget : (monthLengths (isLeap d.civil.year))[d.civil.month - 1]? with
    | none => decide
    | some length => exact hlengths _ _ (List.mem_of_getElem? hget)
  exact ⟨Nat.lt_of_le_of_lt hmonth (by decide), Nat.lt_of_le_of_lt hday hlast⟩

theorem year_nonneg (h : 0 ≤ d.epochDay) : 0 ≤ d.civil.year := by
  by_contra hneg
  have hlt := lt_daysBeforeYear_yearOfDay_succ (d.epochDay + Civil.epoch)
  have hmono := daysBeforeYear_mono (show d.civil.year + 1 ≤ 1 by omega)
  have hfirst : daysBeforeYear 1 = 0 := by decide
  change d.epochDay + Civil.epoch < daysBeforeYear (d.civil.year + 1) at hlt
  unfold Civil.epoch at hlt
  omega

theorem utf8ByteSize_text (hfirst : 0 ≤ d.civil.year) (hlast : d.civil.year ≤ 9999) :
    d.text.utf8ByteSize = 10 := by
  obtain ⟨hmonth, hday⟩ := d.civil_bounds
  unfold text chars
  rw [civilChars_eq hfirst hlast, String.utf8ByteSize_ofList]
  simp only [String.utf8Len_append, String.utf8Len_cons,
    utf8Len_padded (by decide : 0 < 4) (show d.civil.year.natAbs < 10 ^ 4 by omega),
    utf8Len_padded (by decide : 0 < 2) hmonth, utf8Len_padded (by decide : 0 < 2) hday]
  rfl

/-- The sign of any other year takes a printed date beyond ten bytes. -/
theorem lt_utf8ByteSize_text (h : d.civil.year < 0 ∨ 9999 < d.civil.year) :
    10 < d.text.utf8ByteSize := by
  have hmonth := le_length_padded 2 d.civil.month
  have hday := le_length_padded 2 d.civil.day
  have hyear : 4 < (yearChars d.civil.year).length := by
    have hdigits := le_length_padded 4 d.civil.year.natAbs
    unfold yearChars
    split
    · exact Nat.lt_succ_of_le hdigits
    · rw [if_pos (by omega)]
      exact Nat.lt_succ_of_le hdigits
  have hlength : 10 < d.chars.length := by
    unfold chars civilChars
    simp only [List.length_append, List.length_cons]
    omega
  unfold text
  rw [String.utf8ByteSize_ofList]
  exact Nat.lt_of_lt_of_le hlength (length_le_utf8Len d.chars)

end Date

theorem parseDate_eq_ok_iff {text : String} {date : Date} :
    parseDate text = .ok date ↔ text.utf8ByteSize = 10 ∧ Date.ofText? text = some date := by
  unfold parseDate
  by_cases hsize : text.utf8ByteSize = 10
  · rw [if_neg (not_not.2 hsize), and_iff_right hsize]
    cases Date.ofText? text <;> simp
  · rw [if_pos hsize]
    exact iff_of_false nofun fun h => hsize h.1

/-- A date of the years 0 to 9999 is read back from its printed form. -/
theorem parseDate_text {d : Date} (hfirst : 0 ≤ d.civil.year) (hlast : d.civil.year ≤ 9999) :
    parseDate d.text = .ok d := by
  obtain ⟨hmonth, hday⟩ := d.civil_bounds
  have hread : Date.ofText? d.text = some d := by
    unfold Date.ofText? Date.text Date.chars
    rw [String.toList_ofList, Date.readCivil?_civilChars hfirst hlast hmonth hday, Option.bind_some,
      Date.ofCivil?_civil]
  exact parseDate_eq_ok_iff.2 ⟨Date.utf8ByteSize_text hfirst hlast, hread⟩

theorem parseDate_text_eq_error {d : Date} (h : d.civil.year < 0 ∨ 9999 < d.civil.year) :
    parseDate d.text = .error (.invalidDate d.text) := by
  unfold parseDate
  rw [if_pos (Nat.ne_of_gt (Date.lt_utf8ByteSize_text h))]

/-- The printed form of a date is read as this date or is refused, and never is read as another
one. It is read just if the year has no sign in print. -/
theorem printed_date_reads_back (d : Date) :
    (parseDate d.text = .ok d ↔ 0 ≤ d.civil.year ∧ d.civil.year ≤ 9999) ∧
      (parseDate d.text = .error (.invalidDate d.text) ↔
        d.civil.year < 0 ∨ 9999 < d.civil.year) := by
  by_cases hyear : 0 ≤ d.civil.year ∧ d.civil.year ≤ 9999
  · rw [parseDate_text hyear.1 hyear.2]
    exact ⟨iff_of_true rfl hyear, iff_of_false nofun (by omega)⟩
  · have hsigned : d.civil.year < 0 ∨ 9999 < d.civil.year := by omega
    rw [parseDate_text_eq_error hsigned]
    exact ⟨iff_of_false nofun hyear, iff_of_true rfl hsigned⟩

end StakeLock
