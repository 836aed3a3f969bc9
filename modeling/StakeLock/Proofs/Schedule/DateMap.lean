import Mathlib.Data.Finsupp.Basic
import StakeLock.Proofs.Expiry

/-!
# Schedules as finite maps

What a schedule stands for is a map from dates to amounts that is zero at all but finitely many
dates. Every operation on ordered schedules is one on maps, and neither the positions of the
locks nor the search for them shows through: the map determines the schedule.
-/

namespace StakeLock.Schedule

/-- The amounts of finitely many dates. A date that is not in the map has no amount. -/
abbrev DateMap := Date →₀ ℕ

variable {s t : Schedule} {date source target : Date} {amount : Amount} {now : Timestamp}
variable {i : Nat} {l : Lock}

/-- What a schedule holds on each date. -/
noncomputable def toMap (s : Schedule) : DateMap :=
  Finsupp.onFinset (s.locks.map Lock.date).toFinset s.amountOn fun date hne => by
    obtain ⟨x, hx⟩ := exists_mem_of_amountOn_ne_zero hne
    exact List.mem_toFinset.2 (List.mem_map.2 ⟨_, hx, rfl⟩)

@[simp] theorem toMap_apply : s.toMap date = s.amountOn date := rfl

theorem toMap_empty : empty.toMap = 0 := by
  ext date
  rfl

theorem Ordered.mem_support_iff (h : s.Ordered) :
    date ∈ s.toMap.support ↔ ∃ x, ⟨date, x⟩ ∈ s.locks := by
  rw [Finsupp.mem_support_iff, toMap_apply, Ne, h.amountOn_eq_zero_iff]
  simp only [not_forall, not_not]

theorem Ordered.find?_eq_some_iff (h : s.Ordered) :
    s.find? date = some (i, l) ↔ s.locks[i]? = some l ∧ l.date = date := by
  refine ⟨getElem?_of_find?, ?_⟩
  rintro ⟨hl, rfl⟩
  exact find?_of_getElem? h.1 hl

theorem Ordered.isSome_find? (h : s.Ordered) :
    (s.find? date).isSome ↔ date ∈ s.toMap.support := by
  rw [h.mem_support_iff, Option.isSome_iff_exists]
  constructor
  · rintro ⟨⟨i, l⟩, hfound⟩
    obtain ⟨hl, rfl⟩ := getElem?_of_find? hfound
    exact ⟨l.amount, List.mem_of_getElem? hl⟩
  · rintro ⟨x, hx⟩
    obtain ⟨i, hi⟩ := List.mem_iff_getElem?.1 hx
    exact ⟨(i, ⟨date, x⟩), h.find?_eq_some_iff.2 ⟨hi, rfl⟩⟩

theorem Ordered.toMap_of_find? (h : s.Ordered) (hfound : s.find? date = some (i, l)) :
    s.toMap date = l.amount.toNat := by
  obtain ⟨hl, rfl⟩ := getElem?_of_find? hfound
  exact h.amountOn_of_mem (List.mem_of_getElem? hl)

/-! ## The operations on maps -/

theorem toMap_upsert (hu : s.upsert date amount = .ok t) :
    t.toMap = s.toMap + Finsupp.single date amount.toNat := by
  ext d
  rw [Finsupp.add_apply, Finsupp.single_apply]
  exact amountOn_upsert hu d

theorem Ordered.toMap_removeAt (h : s.Ordered) (hl : s.locks[i]? = some l) :
    (s.removeAt i).toMap = s.toMap.erase l.date := by
  ext d
  by_cases hd : d = l.date
  · rw [hd, Finsupp.erase_same]
    exact h.amountOn_removeAt hl
  · rw [Finsupp.erase_ne hd]
    simpa [Ne.symm hd] using amountOn_removeAt_add hl d

theorem Ordered.toMap_shift (h : s.Ordered) (hs : s.shift source target amount = .ok t) :
    t.toMap = s.toMap.erase source + Finsupp.single target amount.toNat := by
  obtain ⟨i, l, hfound, rfl, hu⟩ := shift_eq_ok_iff.1 hs
  obtain ⟨hl, rfl⟩ := getElem?_of_find? hfound
  rw [toMap_upsert hu, h.toMap_removeAt hl]

theorem Ordered.toMap_unexpired (h : s.Ordered) (now : Timestamp) :
    (s.unexpired now).toMap = s.toMap.filter fun d => isLocked now d := by
  ext d
  by_cases hd : isLocked now d
  · rw [Finsupp.filter_apply_pos (fun d => isLocked now d) _ hd]
    refine amountWhere_unexpired fun e he => ?_
    rw [of_decide_eq_true he]
    exact hd
  · rw [Finsupp.filter_apply_neg (fun d => isLocked now d) _ hd]
    exact h.amountOn_unexpired_of_not_locked hd

/-! ## When they succeed -/

theorem Ordered.exists_upsert_iff (h : s.Ordered) :
    (∃ t, s.upsert date amount = .ok t) ↔ s.toMap date + amount.toNat < 2 ^ 128 := by
  refine ⟨?_, h.exists_upsert⟩
  rintro ⟨t, hu⟩
  have hlt := (h.upsert hu).amountOn_lt date
  rw [← toMap_apply, toMap_upsert hu, Finsupp.add_apply, Finsupp.single_eq_same] at hlt
  exact hlt

theorem upsert_eq_error {reason : SystemError} (hu : s.upsert date amount = .error reason) :
    ∃ i l, s.find? date = some (i, l) ∧ reason = .addOverflow l.amount amount := by
  unfold upsert at hu
  split at hu
  · cases hu
  · split at hu
    · rename_i i l hfound
      cases hsum : l.amount.checkedAdd amount with
      | ok sum =>
        rw [hsum] at hu
        cases hu
      | error cause =>
        rw [hsum] at hu
        cases hu
        exact ⟨i, l, hfound, (Amount.checkedAdd_eq_error_iff.1 hsum).1⟩
    · cases hu

theorem Ordered.upsert_of_overflow (h : s.Ordered)
    (hlarge : 2 ^ 128 ≤ s.toMap date + amount.toNat) :
    ∃ held, held.toNat = s.toMap date ∧
      s.upsert date amount = .error (.addOverflow held amount) := by
  cases hu : s.upsert date amount with
  | ok t =>
    have hlt := h.exists_upsert_iff.1 ⟨t, hu⟩
    omega
  | error reason =>
    obtain ⟨i, l, hfound, rfl⟩ := upsert_eq_error hu
    exact ⟨l.amount, (h.toMap_of_find? hfound).symm, rfl⟩

theorem Ordered.exists_shift_iff (h : s.Ordered) :
    (∃ t, s.shift source target amount = .ok t) ↔
      source ∈ s.toMap.support ∧ s.toMap source = amount.toNat ∧
        s.toMap.erase source target + amount.toNat < 2 ^ 128 := by
  have hremoved : ∀ {i l}, s.find? source = some (i, l) →
      ((∃ t, (s.removeAt i).upsert target amount = .ok t) ↔
        s.toMap.erase source target + amount.toNat < 2 ^ 128) := by
    intro i l hfound
    obtain ⟨hl, rfl⟩ := getElem?_of_find? hfound
    rw [(h.removeAt i).exists_upsert_iff, h.toMap_removeAt hl]
  rw [← h.isSome_find?, Option.isSome_iff_exists]
  constructor
  · rintro ⟨t, hs⟩
    obtain ⟨i, l, hfound, rfl, hu⟩ := shift_eq_ok_iff.1 hs
    exact ⟨⟨_, hfound⟩, h.toMap_of_find? hfound, (hremoved hfound).1 ⟨t, hu⟩⟩
  · rintro ⟨⟨⟨i, l⟩, hfound⟩, hheld, hroom⟩
    obtain ⟨t, hu⟩ := (hremoved hfound).2 hroom
    rw [h.toMap_of_find? hfound] at hheld
    exact ⟨t, shift_eq_ok_iff.2 ⟨i, l, hfound, Amount.ext hheld, hu⟩⟩

/-! ## Changes one after another -/

/-- A change of a schedule. -/
inductive Edit where
  | add (date : Date) (amount : Amount)
  | move (source target : Date) (amount : Amount)
  | remove (date : Date)
  | expire (now : Timestamp)

/-- The schedule after a change. An amount that cannot be added leaves it as it is. A lock can
only be moved as a whole, and only a lock that is found can be removed. -/
def edit? (s : Schedule) : Edit → Option Schedule
  | .add date amount => some ((s.upsert date amount).toOption.getD s)
  | .move source target amount => (s.shift source target amount).toOption
  | .remove date => (s.find? date).map fun found => s.removeAt found.1
  | .expire now => some (s.unexpired now)

/-- The same change of a map. It looks at amounts only. -/
noncomputable def DateMap.edit? (m : DateMap) : Schedule.Edit → Option DateMap
  | .add date amount =>
    if m date + amount.toNat < 2 ^ 128 then some (m + Finsupp.single date amount.toNat) else some m
  | .move source target amount =>
    if source ∈ m.support ∧ m source = amount.toNat ∧
        m.erase source target + amount.toNat < 2 ^ 128 then
      some (m.erase source + Finsupp.single target amount.toNat)
    else none
  | .remove date => if date ∈ m.support then some (m.erase date) else none
  | .expire now => some (m.filter fun d => isLocked now d)

variable {e : Edit} {edits : List Edit}

theorem Ordered.edit? (h : s.Ordered) (he : s.edit? e = some t) : t.Ordered := by
  cases e with
  | add date amount =>
    cases hu : s.upsert date amount with
    | ok u =>
      simp only [Schedule.edit?, hu] at he
      cases he
      exact h.upsert hu
    | error reason =>
      simp only [Schedule.edit?, hu] at he
      cases he
      exact h
  | move source target amount =>
    cases hs : s.shift source target amount with
    | ok u =>
      simp only [Schedule.edit?, hs] at he
      cases he
      exact h.shift hs
    | error reason =>
      simp only [Schedule.edit?, hs] at he
      cases he
  | remove date =>
    obtain ⟨found, -, rfl⟩ := Option.map_eq_some_iff.1 he
    exact h.removeAt found.1
  | expire now =>
    cases he
    exact h.unexpired now

/-- A change of an ordered schedule is that of its map, and possible just if that is. -/
theorem Ordered.map_edit? (h : s.Ordered) (e : Edit) :
    (s.edit? e).map toMap = s.toMap.edit? e := by
  cases e with
  | add date amount =>
    by_cases hroom : s.toMap date + amount.toNat < 2 ^ 128
    · obtain ⟨t, hu⟩ := h.exists_upsert_iff.2 hroom
      simp only [Schedule.edit?, hu, DateMap.edit?, if_pos hroom, ← toMap_upsert hu]
      rfl
    · obtain ⟨held, -, hu⟩ := h.upsert_of_overflow (Nat.not_lt.1 hroom)
      simp only [Schedule.edit?, hu, DateMap.edit?, if_neg hroom]
      rfl
  | move source target amount =>
    cases hs : s.shift source target amount with
    | ok t =>
      have hmoves := h.exists_shift_iff.1 ⟨t, hs⟩
      simp only [Schedule.edit?, hs, DateMap.edit?, if_pos hmoves, ← h.toMap_shift hs]
      rfl
    | error reason =>
      have hstays : ¬∃ t, s.shift source target amount = .ok t := by
        rintro ⟨t, ht⟩
        rw [hs] at ht
        cases ht
      rw [h.exists_shift_iff] at hstays
      simp only [Schedule.edit?, hs, DateMap.edit?, if_neg hstays]
      rfl
  | remove date =>
    unfold Schedule.edit? DateMap.edit?
    simp only [← h.isSome_find?]
    cases hfound : s.find? date with
    | none => rfl
    | some found =>
      obtain ⟨i, l⟩ := found
      obtain ⟨hl, rfl⟩ := getElem?_of_find? hfound
      simp [h.toMap_removeAt hl]
  | expire now => exact congrArg some (h.toMap_unexpired now)

theorem Ordered.foldlM_edit? (h : s.Ordered) (hs : edits.foldlM Schedule.edit? s = some t) :
    t.Ordered := by
  induction edits generalizing s with
  | nil =>
    cases hs
    exact h
  | cons e edits ih =>
    rw [List.foldlM_cons] at hs
    obtain ⟨u, hu, hs⟩ := Option.bind_eq_some_iff.1 hs
    exact ih (h.edit? hu) hs

theorem Ordered.map_foldlM_edit? (h : s.Ordered) (edits : List Edit) :
    (edits.foldlM Schedule.edit? s).map toMap = edits.foldlM DateMap.edit? s.toMap := by
  induction edits generalizing s with
  | nil => rfl
  | cons e edits ih =>
    rw [List.foldlM_cons, List.foldlM_cons, ← h.map_edit? e]
    cases hs : s.edit? e with
    | none => rfl
    | some t => exact ih (h.edit? hs)

/-- Schedules refine maps from dates to positive amounts. Changes of the empty schedule that
come one after another are those of the empty map, and the schedule that results has increasing
dates and positive amounts. A date is found just if it is in the map, at a place that has its
amount. Adding an amount adds it on its date, and what has no room is refused, which leaves the
schedule as it is. A move takes all that there is on a date to another. Of the locks in order
those which have expired come first, and are dropped. No other schedule has the same map. -/
theorem schedule_refines_map (edits : List Edit) :
    (edits.foldlM edit? empty).map toMap = edits.foldlM DateMap.edit? 0 ∧
    ∀ s, edits.foldlM edit? empty = some s →
      s.Ordered ∧
      (∀ date, (s.find? date).isSome ↔ date ∈ s.toMap.support) ∧
      (∀ date i l, s.find? date = some (i, l) ↔ s.locks[i]? = some l ∧ l.date = date) ∧
      (∀ date i l, s.find? date = some (i, l) → s.toMap date = l.amount.toNat ∧
        (s.removeAt i).toMap = s.toMap.erase date) ∧
      (∀ date, s.upsert date Amount.zero = .ok s) ∧
      (∀ date amount, s.toMap date + amount.toNat < 2 ^ 128 →
        ∃ t, s.upsert date amount = .ok t ∧
          t.toMap = s.toMap + Finsupp.single date amount.toNat) ∧
      (∀ date amount, 2 ^ 128 ≤ s.toMap date + amount.toNat →
        (∃ held, held.toNat = s.toMap date ∧
          s.upsert date amount = .error (.addOverflow held amount)) ∧
        s.edit? (.add date amount) = some s) ∧
      (∀ source target amount t, s.shift source target amount = .ok t →
        source ∈ s.toMap.support ∧ s.toMap source = amount.toNat ∧
          t.toMap = s.toMap.erase source + Finsupp.single target amount.toNat) ∧
      (∀ now, s.expired now ++ (s.unexpired now).locks = s.locks ∧
        s.expired now = s.locks.filter (fun l => !isLocked now l.date) ∧
        (s.unexpired now).locks = s.locks.filter (fun l => isLocked now l.date) ∧
        (s.unexpired now).toMap = s.toMap.filter fun d => isLocked now d) ∧
      ∀ t : Schedule, t.Ordered → t.toMap = s.toMap → t = s := by
  refine ⟨?_, fun s hs => ?_⟩
  · rw [← toMap_empty]
    exact ordered_empty.map_foldlM_edit? edits
  have h : s.Ordered := ordered_empty.foldlM_edit? hs
  refine ⟨h, fun _ => h.isSome_find?, fun _ _ _ => h.find?_eq_some_iff, fun date i l hfound => ?_,
    fun _ => rfl, fun date amount hroom => ?_, fun date amount hlarge => ?_,
    fun source target amount t ht => ?_, fun now => ?_, fun t ht hmap => ?_⟩
  · obtain ⟨hl, rfl⟩ := getElem?_of_find? hfound
    exact ⟨h.toMap_of_find? hfound, h.toMap_removeAt hl⟩
  · obtain ⟨t, hu⟩ := h.exists_upsert_iff.2 hroom
    exact ⟨t, hu, toMap_upsert hu⟩
  · obtain ⟨held, hheld, hu⟩ := h.upsert_of_overflow hlarge
    refine ⟨⟨held, hheld, hu⟩, ?_⟩
    simp only [Schedule.edit?, hu]
    rfl
  · obtain ⟨hmem, hheld, -⟩ := h.exists_shift_iff.1 ⟨t, ht⟩
    exact ⟨hmem, hheld, h.toMap_shift ht⟩
  · exact ⟨s.expired_append_unexpired now, takeWhile_eq_filter (pairwise_past h.1 now),
      locks_unexpired h.1 now, h.toMap_unexpired now⟩
  · exact ht.ext_amountOn h fun date => DFunLike.congr_fun hmap date

def newYearsEve1969 : Date := ⟨-1, by decide, by decide⟩

def january11 : Date := ⟨10, by decide, by decide⟩

def january21 : Date := ⟨20, by decide, by decide⟩

/-- Five are locked until January 21st, where the largest amount has no more room, and eight until
January 11th, which are then moved there as well. A lock that is removed and one that has
expired are gone. -/
def mixedEdits : List Edit :=
  [.add january21 ⟨5, by decide⟩, .add january11 ⟨8, by decide⟩,
    .add january21 ⟨2 ^ 128 - 1, by decide⟩, .add newYearsEve1969 ⟨1, by decide⟩,
    .move january11 january21 ⟨8, by decide⟩, .add january11 ⟨5, by decide⟩, .remove january11,
    .expire Timestamp.zero]

def thirteenLeft : Schedule := ⟨[⟨january21, ⟨13, by decide⟩⟩]⟩

/-- What is left is a single lock of thirteen, and there is room for others. -/
theorem thirteen_left_refine_map : mixedEdits.foldlM edit? empty = some thirteenLeft ∧
    mixedEdits.foldlM DateMap.edit? 0 = some thirteenLeft.toMap ∧
    thirteenLeft.toMap january21 = 13 ∧ january11 ∉ thirteenLeft.toMap.support ∧
    ∃ t, thirteenLeft.upsert january11 ⟨5, by decide⟩ = .ok t ∧
      t.toMap = thirteenLeft.toMap + Finsupp.single january11 5 := by
  obtain ⟨hmaps, hall⟩ := schedule_refines_map mixedEdits
  have hrun : mixedEdits.foldlM edit? empty = some thirteenLeft := by decide +kernel
  obtain ⟨-, hmem, hfind, hfound, -, hadd, -⟩ := hall thirteenLeft hrun
  have hthirteen : thirteenLeft.find? january21 = some (0, ⟨january21, ⟨13, by decide⟩⟩) :=
    (hfind _ _ _).2 ⟨rfl, rfl⟩
  have hnone : thirteenLeft.find? january11 = none := by decide +kernel
  have hzero : thirteenLeft.toMap january11 = 0 := by
    rw [← Finsupp.notMem_support_iff, ← hmem, hnone]
    exact Bool.false_ne_true
  refine ⟨hrun, ?_, (hfound _ _ _ hthirteen).1, Finsupp.notMem_support_iff.2 hzero, ?_⟩
  · rw [← hmaps, hrun]
    rfl
  · apply hadd january11 ⟨5, by decide⟩
    rw [hzero]
    decide

end StakeLock.Schedule
