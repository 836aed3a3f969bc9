import StakeLock.Proofs.Calendar.DateText

/-!
# The form of date texts

Dates are printed as four digits, two and two, with dashes between them. Reading also takes
a sign in front, blanks before numbers, and months and days of one digit. Ten bytes have no
room for a blank or a sign unless a number is short of a digit, and the other way round: a
text without blanks and signs that is read as a date is the printed form of this date.
-/

namespace StakeLock

namespace Text

variable {width n : Nat} {digits others cs rest : List Char} {c : Char}

theorem ofDigitChars_cons_zero (c : Char) (cs : List Char) : Nat.ofDigitChars 10 (c :: cs) 0 =
    (c.toNat - 48) * 10 ^ cs.length + Nat.ofDigitChars 10 cs 0 := by
  rw [Nat.ofDigitChars_cons, Nat.ofDigitChars_eq_ofDigitChars_zero, Nat.mul_zero, Nat.zero_add,
    Nat.mul_comm]
  rfl

theorem ofDigitChars_lt (h : ∀ c ∈ digits, c.isDigit) :
    Nat.ofDigitChars 10 digits 0 < 10 ^ digits.length := by
  induction digits with
  | nil => decide
  | cons c cs ih =>
    obtain ⟨hc, hcs⟩ := List.forall_mem_cons.1 h
    have hbounds : 48 ≤ c.toNat ∧ c.toNat ≤ 57 := Char.isDigit_iff_toNat.1 hc
    have hrest := ih hcs
    have hfirst : (c.toNat - 48) * 10 ^ cs.length ≤ 9 * 10 ^ cs.length :=
      Nat.mul_le_mul_right _ (by omega)
    rw [ofDigitChars_cons_zero, List.length_cons, Nat.pow_succ]
    omega

theorem eq_of_ofDigitChars_eq (hdigits : ∀ c ∈ digits, c.isDigit)
    (hothers : ∀ c ∈ others, c.isDigit) (hlength : digits.length = others.length)
    (h : Nat.ofDigitChars 10 digits 0 = Nat.ofDigitChars 10 others 0) : digits = others := by
  induction digits generalizing others with
  | nil => exact (List.length_eq_zero_iff.1 hlength.symm).symm
  | cons c cs ih =>
    cases others with
    | nil => cases hlength
    | cons d ds =>
      obtain ⟨hc, hcs⟩ := List.forall_mem_cons.1 hdigits
      obtain ⟨hd, hds⟩ := List.forall_mem_cons.1 hothers
      have hlength' : cs.length = ds.length := Nat.succ.inj hlength
      have hcbounds : 48 ≤ c.toNat ∧ c.toNat ≤ 57 := Char.isDigit_iff_toNat.1 hc
      have hdbounds : 48 ≤ d.toNat ∧ d.toNat ≤ 57 := Char.isDigit_iff_toNat.1 hd
      have hcslt := ofDigitChars_lt hcs
      have hdslt := ofDigitChars_lt hds
      rw [ofDigitChars_cons_zero, ofDigitChars_cons_zero, hlength'] at h
      rw [hlength'] at hcslt
      have hpos : 0 < 10 ^ ds.length := Nat.pow_pos (by decide)
      have hfirst : c.toNat - 48 = d.toNat - 48 := by
        have hquotient := congrArg (· / 10 ^ ds.length) h
        simpa only [Nat.mul_comm _ (10 ^ ds.length), Nat.mul_add_div hpos, Nat.div_eq_of_lt hcslt,
          Nat.div_eq_of_lt hdslt, Nat.add_zero] using hquotient
      have hrest : Nat.ofDigitChars 10 cs 0 = Nat.ofDigitChars 10 ds 0 := by
        rw [hfirst] at h
        exact Nat.add_left_cancel h
      rw [ih hcs hds hlength' hrest, Char.toNat_inj.1 (by omega : c.toNat = d.toNat)]

/-- Digits of the full width are the number that they stand for, filled up to this width. -/
theorem padded_ofDigitChars (hwidth : 0 < width) (hlength : digits.length = width)
    (hdigits : ∀ c ∈ digits, c.isDigit) : padded width (Nat.ofDigitChars 10 digits 0) = digits := by
  have hlt := ofDigitChars_lt hdigits
  rw [hlength] at hlt
  apply eq_of_ofDigitChars_eq (fun c hc => isDigit_of_mem_padded hc) hdigits
  · rw [length_padded hwidth hlt, hlength]
  · exact ofDigitChars_padded _ _

theorem exists_of_leading? (h : leading? width cs = some (n, rest)) :
    ∃ digits, cs = digits ++ rest ∧ digits ≠ [] ∧ digits.length ≤ width ∧
      (∀ c ∈ digits, c.isDigit) ∧ n = Nat.ofDigitChars 10 digits 0 := by
  unfold leading? at h
  simp only at h
  split at h
  · cases h
  · rename_i hne
    cases h
    refine ⟨_, ?_, hne, List.length_take_le _ _, fun c hc => ?_, rfl⟩
    · have hprefix : (cs.takeWhile Char.isDigit).take width <+: cs :=
        (List.take_prefix _ _).trans (List.takeWhile_prefix _)
      exact List.prefix_iff_eq_append.1 hprefix |>.symm
    · exact List.all_eq_true.1 List.all_takeWhile c (List.mem_of_mem_take hc)

theorem dropWhile_isBlank_eq (h : ∀ c ∈ cs, ¬isBlank c) : cs.dropWhile isBlank = cs := by
  cases cs with
  | nil => rfl
  | cons c cs => rw [List.dropWhile_cons, if_neg (h c (List.mem_cons_self ..))]

end Text

namespace Date

open Text Calendar

variable {text : String} {date other : Date} {c : Civil}

/-- Four digits, two and two, with dashes between them. -/
def Regular (text : String) : Prop :=
  ∃ year month day : List Char, text.toList = year ++ '-' :: (month ++ '-' :: day) ∧
    (year.length = 4 ∧ ∀ c ∈ year, c.isDigit) ∧ (month.length = 2 ∧ ∀ c ∈ month, c.isDigit) ∧
    day.length = 2 ∧ ∀ c ∈ day, c.isDigit

/-- No sign in front, and no blanks. -/
def Unadorned (text : String) : Prop :=
  (∀ c ∈ text.toList.head?, c ≠ '+' ∧ c ≠ '-') ∧ ∀ c ∈ text.toList, ¬isBlank c

theorem Regular.unadorned (h : Regular text) : Unadorned text := by
  obtain ⟨year, month, day, htext, ⟨hlength, hyear⟩, ⟨-, hmonth⟩, -, hday⟩ := h
  unfold Unadorned
  rw [htext]
  constructor
  · cases year with
    | nil => cases hlength
    | cons digit digits =>
      have hdigit := hyear digit (List.mem_cons_self ..)
      rintro c hc
      cases hc
      constructor <;> rintro rfl <;> cases hdigit
  · intro c hc
    simp only [List.mem_append, List.mem_cons] at hc
    rcases hc with hc | rfl | hc | rfl | hc
    · exact not_isBlank_of_isDigit (hyear c hc)
    · decide
    · exact not_isBlank_of_isDigit (hmonth c hc)
    · decide
    · exact not_isBlank_of_isDigit (hday c hc)

theorem regular_text (hfirst : 0 ≤ date.civil.year) (hlast : date.civil.year ≤ 9999) :
    Regular date.text := by
  obtain ⟨hmonth, hday⟩ := date.civil_bounds
  refine ⟨padded 4 date.civil.year.natAbs, padded 2 date.civil.month, padded 2 date.civil.day,
    ?_, ⟨?_, fun c hc => isDigit_of_mem_padded hc⟩, ⟨?_, fun c hc => isDigit_of_mem_padded hc⟩,
    ?_, fun c hc => isDigit_of_mem_padded hc⟩
  · unfold Date.text chars
    rw [String.toList_ofList, civilChars_eq hfirst hlast]
  · exact length_padded (by decide) (by omega)
  · exact length_padded (by decide) hmonth
  · exact length_padded (by decide) hday

theorem readDash?_eq_some {cs rest : List Char} (h : readDash? cs = some rest) :
    cs = '-' :: rest := by
  unfold readDash? at h
  split at h <;> cases h
  rfl

theorem readYear?_of_unsigned {cs : List Char} (h : ∀ c ∈ cs.head?, c ≠ '+' ∧ c ≠ '-') :
    readYear? cs = (leading? 4 cs).map fun r => ((r.1 : Int), r.2) := by
  unfold readYear?
  split
  · exact absurd rfl (h '-' rfl).2
  · exact absurd rfl (h '+' rfl).1
  · rfl

/-- Where no blanks are skipped and the year has no sign, there are at most eight digits. -/
theorem exists_of_readCivil? {cs : List Char} (hsign : ∀ c ∈ cs.head?, c ≠ '+' ∧ c ≠ '-')
    (hblank : ∀ c ∈ cs, ¬isBlank c) (h : readCivil? cs = some c) :
    ∃ year month day : List Char, cs = year ++ '-' :: (month ++ '-' :: day) ∧
      (year.length ≤ 4 ∧ ∀ c ∈ year, c.isDigit) ∧ (month.length ≤ 2 ∧ ∀ c ∈ month, c.isDigit) ∧
      (day.length ≤ 2 ∧ ∀ c ∈ day, c.isDigit) ∧
      c = ⟨Nat.ofDigitChars 10 year 0, Nat.ofDigitChars 10 month 0, Nat.ofDigitChars 10 day 0⟩ := by
  unfold readCivil? at h
  rw [dropWhile_isBlank_eq hblank, readYear?_of_unsigned hsign] at h
  simp only [Option.bind_eq_bind, Option.bind_eq_some_iff, Option.map_eq_some_iff] at h
  obtain ⟨_, ⟨⟨_, afterYear⟩, hyear, rfl⟩, afterDash, hdash, ⟨_, afterMonth⟩, hmonth,
    afterDash', hdash', ⟨_, afterDay⟩, hday, hend⟩ := h
  obtain ⟨year, rfl, -, hlength, hdigits, rfl⟩ := exists_of_leading? hyear
  obtain rfl := readDash?_eq_some hdash
  rw [List.forall_mem_append, List.forall_mem_cons] at hblank
  rw [dropWhile_isBlank_eq hblank.2.2] at hmonth
  obtain ⟨month, rfl, -, hlength', hdigits', rfl⟩ := exists_of_leading? hmonth
  obtain rfl := readDash?_eq_some hdash'
  rw [List.forall_mem_append, List.forall_mem_cons] at hblank
  rw [dropWhile_isBlank_eq hblank.2.2.2.2] at hday
  obtain ⟨day, rfl, -, hlength'', hdigits'', rfl⟩ := exists_of_leading? hday
  split at hend
  · rename_i hnil
    cases hend
    simp only at hnil
    subst hnil
    exact ⟨year, month, day, by rw [List.append_nil], ⟨hlength, hdigits⟩, ⟨hlength', hdigits'⟩,
      ⟨hlength'', hdigits''⟩, rfl⟩
  · cases hend

theorem civil_of_ofCivil? (h : ofCivil? c = some date) : date.civil = c := by
  unfold ofCivil? at h
  split at h
  · rename_i hvalid
    rw [ofEpochDay?_eq_some_iff] at h
    unfold civil
    rw [← h, Civil.ofDayNumber_dayNumber hvalid]
  · cases h

theorem civilChars_digits {year month day : List Char}
    (hyear : year.length = 4 ∧ ∀ c ∈ year, c.isDigit)
    (hmonth : month.length = 2 ∧ ∀ c ∈ month, c.isDigit)
    (hday : day.length = 2 ∧ ∀ c ∈ day, c.isDigit) :
    civilChars ⟨Nat.ofDigitChars 10 year 0, Nat.ofDigitChars 10 month 0,
      Nat.ofDigitChars 10 day 0⟩ = year ++ '-' :: (month ++ '-' :: day) := by
  have hlast := ofDigitChars_lt hyear.2
  rw [hyear.1] at hlast
  rw [civilChars_eq (Int.natCast_nonneg _) (by simp only; omega)]
  simp only [Int.natAbs_natCast, padded_ofDigitChars (by decide) hyear.1 hyear.2,
    padded_ofDigitChars (by decide) hmonth.1 hmonth.2,
    padded_ofDigitChars (by decide) hday.1 hday.2]

theorem of_parseDate (h : parseDate text = .ok date) (hplain : Unadorned text) :
    Regular text ∧ text = date.text := by
  obtain ⟨hsize, htext⟩ := parseDate_eq_ok_iff.1 h
  unfold ofText? at htext
  obtain ⟨c, hread, hdate⟩ := Option.bind_eq_some_iff.1 htext
  obtain ⟨year, month, day, hchars, ⟨hyear, hyear'⟩, ⟨hmonth, hmonth'⟩, ⟨hday, hday'⟩, rfl⟩ :=
    exists_of_readCivil? hplain.1 hplain.2 hread
  obtain ⟨hyear, hmonth, hday⟩ : year.length = 4 ∧ month.length = 2 ∧ day.length = 2 := by
    rw [← String.utf8Len_toList, hchars] at hsize
    simp only [String.utf8Len_append, String.utf8Len_cons, utf8Len_digits hyear',
      utf8Len_digits hmonth', utf8Len_digits hday',
      show ('-' : Char).utf8Size = 1 from rfl] at hsize
    omega
  refine ⟨⟨year, month, day, hchars, ⟨hyear, hyear'⟩, ⟨hmonth, hmonth'⟩, hday, hday'⟩, ?_⟩
  unfold Date.text chars
  rw [civil_of_ofCivil? hdate, civilChars_digits ⟨hyear, hyear'⟩ ⟨hmonth, hmonth'⟩ ⟨hday, hday'⟩,
    ← hchars, String.ofList_toList]

theorem year_of_parseDate_text (h : parseDate date.text = .ok other) :
    0 ≤ date.civil.year ∧ date.civil.year ≤ 9999 := by
  by_contra hyear
  rw [parseDate_text_eq_error (by omega)] at h
  cases h

end Date

open Date in
/-- A text that is read as a date is the printed form of this date, and has the regular form,
just if there is no sign in front and no blank. Only signs and blanks give a date a second
text. -/
theorem date_text_unique_up_to_signs_and_blanks {text : String} {date : Date}
    (h : parseDate text = .ok date) :
    (Regular text ↔ Unadorned text) ∧ (text = date.text ↔ Unadorned text) ∧
      ∀ other, parseDate other = .ok date → Unadorned text → Unadorned other → other = text := by
  refine ⟨⟨Regular.unadorned, fun hplain => (of_parseDate h hplain).1⟩,
    ⟨?_, fun hplain => (of_parseDate h hplain).2⟩, fun other hother hplain hplain' => ?_⟩
  · rintro rfl
    obtain ⟨hfirst, hlast⟩ := year_of_parseDate_text h
    exact (regular_text hfirst hlast).unadorned
  · rw [(of_parseDate hother hplain').2, (of_parseDate h hplain).2]

/-- 2026-01-01. -/
def newYear : Date := ⟨20454, by decide, by decide⟩

open Date in
/-- New year's day has one plain text. -/
theorem new_year_written_plainly : parseDate "2026-01-01" = .ok newYear ∧ Unadorned "2026-01-01" ∧
    Regular "2026-01-01" ∧ newYear.text = "2026-01-01" ∧
    ∀ other, parseDate other = .ok newYear → Unadorned other → other = "2026-01-01" := by
  have hread : parseDate "2026-01-01" = .ok newYear := by decide +kernel
  obtain ⟨hregular, hprinted, honly⟩ := date_text_unique_up_to_signs_and_blanks hread
  have hplain : Unadorned "2026-01-01" := hprinted.1 (by decide +kernel)
  exact ⟨hread, hplain, hregular.2 hplain, (hprinted.2 hplain).symm,
    fun other hother => honly other hother hplain⟩

open Date in
/-- A sign makes up for a digit: this text is read, but has not the form of a date text and is
not the text that new year's day is printed as. -/
theorem new_year_written_with_sign : parseDate "+2026-1-01" = .ok newYear ∧
    ¬Regular "+2026-1-01" ∧ newYear.text ≠ "+2026-1-01" ∧
    parseDate "2026-01-01" = .ok newYear := by
  refine ⟨by decide +kernel, fun hregular => ?_, by decide +kernel, by decide +kernel⟩
  exact (hregular.unadorned.1 '+' (by decide +kernel)).1 rfl

end StakeLock
