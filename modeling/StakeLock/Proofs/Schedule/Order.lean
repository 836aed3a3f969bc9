import StakeLock.Proofs.Amount
import StakeLock.Proofs.Schedule.Amounts

/-!
# Order of a schedule

Halving finds the lock of a date in an ordered schedule, or the place where one
belongs, so the operations keep the order. In an ordered schedule the amount on
a date is the amount of its only lock.
-/

namespace StakeLock.Schedule

variable {s t : Schedule} {date : Date} {amount : Amount}

/-- All locks from a position on come after a date. -/
def LaterFrom (locks : List Lock) (date : Date) (k : Nat) : Prop :=
  ∀ i l, k ≤ i → locks[i]? = some l → date < l.date

/-- Every lock before a position comes before a date. -/
def EarlierUpTo (locks : List Lock) (date : Date) (k : Nat) : Prop :=
  ∀ i l, i < k → locks[i]? = some l → l.date < date

theorem date_lt_of_lt (h : s.locks.Pairwise fun a b => a.date < b.date) {i j : Nat} {a b : Lock}
    (hi : s.locks[i]? = some a) (hj : s.locks[j]? = some b) (hij : i < j) : a.date < b.date := by
  obtain ⟨hi', rfl⟩ := List.getElem?_eq_some_iff.1 hi
  obtain ⟨hj', rfl⟩ := List.getElem?_eq_some_iff.1 hj
  exact List.pairwise_iff_getElem.1 h i j hi' hj' hij

/-- The search ends at the last lock that does not come after the date, if there is one. -/
theorem pivotWithin_spec (h : s.locks.Pairwise fun a b => a.date < b.date) (date : Date)
    (base size : Nat) (hsize : 0 < size) (hlen : base + size ≤ s.locks.length)
    (hlow : base = 0 ∨ ∃ l, s.locks[base]? = some l ∧ l.date ≤ date)
    (hhigh : LaterFrom s.locks date (base + size)) :
    let k := pivotWithin s.locks date base size
    k < s.locks.length ∧ (k = 0 ∨ ∃ l, s.locks[k]? = some l ∧ l.date ≤ date) ∧
      LaterFrom s.locks date (k + 1) := by
  fun_induction pivotWithin s.locks date base size with
  | case1 base size hone =>
    have : size = 1 := by omega
    subst this
    exact ⟨by omega, hlow, hhigh⟩
  | case2 base size hone half lock hlock hlt ih =>
    refine ih (by omega) (by omega) hlow ?_
    intro i l hi hl
    rcases Nat.lt_or_ge (base + half) i with hlt' | hge
    · have := date_lt_of_lt h hlock hl hlt'
      exact Int.lt_trans hlt this
    · have : i = base + half := by omega
      subst this
      rw [hlock] at hl
      cases hl
      exact hlt
  | case3 base size hone half lock hlock hle ih =>
    refine ih (by omega) (by omega) (.inr ⟨lock, hlock, Int.not_lt.1 hle⟩) ?_
    have : base + half + (size - half) = base + size := by omega
    rw [this]
    exact hhigh
  | case4 base size hone half hnone =>
    have := List.getElem?_eq_none_iff.1 hnone
    omega

theorem pivot_spec (h : s.locks.Pairwise fun a b => a.date < b.date) (date : Date)
    (hne : 0 < s.locks.length) :
    s.pivot date < s.locks.length ∧
      (s.pivot date = 0 ∨ ∃ l, s.locks[s.pivot date]? = some l ∧ l.date ≤ date) ∧
      LaterFrom s.locks date (s.pivot date + 1) :=
  pivotWithin_spec h date 0 s.locks.length hne (by omega) (.inl rfl) fun i l hi hl => by
    have := (List.getElem?_eq_some_iff.1 hl).1
    omega

theorem find?_of_getElem? (h : s.locks.Pairwise fun a b => a.date < b.date) {i : Nat} {l : Lock}
    (hl : s.locks[i]? = some l) : s.find? l.date = some (i, l) := by
  obtain ⟨hi, -⟩ := List.getElem?_eq_some_iff.1 hl
  obtain ⟨hk, hlow, hhigh⟩ := pivot_spec h l.date (by omega)
  have hpivot : s.pivot l.date = i := by
    rcases Nat.lt_trichotomy (s.pivot l.date) i with hlt | heq | hgt
    · have := hhigh i l (by omega) hl
      exact absurd this (Int.lt_irrefl _)
    · exact heq
    · rcases hlow with hzero | ⟨m, hm, hle⟩
      · omega
      · have := date_lt_of_lt h hl hm hgt
        exact absurd this (Int.not_lt.2 hle)
  unfold find?
  rw [hpivot, hl]
  simp

theorem insertionPoint_spec (h : s.locks.Pairwise fun a b => a.date < b.date)
    (hf : s.find? date = none) :
    EarlierUpTo s.locks date (s.insertionPoint date) ∧
      LaterFrom s.locks date (s.insertionPoint date) := by
  have hne : ∀ (i : Nat) (l : Lock), s.locks[i]? = some l → l.date ≠ date := by
    rintro i l hl rfl
    rw [find?_of_getElem? h hl] at hf
    cases hf
  rcases Nat.eq_zero_or_pos s.locks.length with hz | hpos
  · have hnil := List.length_eq_zero_iff.1 hz
    constructor <;> intro i l _ hl <;> simp [hnil] at hl
  · obtain ⟨hk, hlow, hhigh⟩ := pivot_spec h date hpos
    have hl := List.getElem?_eq_getElem hk
    unfold insertionPoint
    rw [hl]
    simp only
    split
    · rename_i hlt
      refine ⟨fun i l hi hil => ?_, hhigh⟩
      rcases Nat.lt_or_ge i (s.pivot date) with hi' | hi'
      · exact Int.lt_trans (date_lt_of_lt h hil hl hi') hlt
      · have : i = s.pivot date := by omega
        subst this
        rw [hl] at hil
        cases hil
        exact hlt
    · rename_i hge
      have hgt : date < s.locks[s.pivot date].date := by
        have hd := hne _ _ hl
        rw [Date.lt_def] at hge ⊢
        rw [Ne, Date.ext_iff] at hd
        omega
      have hzero : s.pivot date = 0 := by
        rcases hlow with hzero | ⟨m, hm, hle⟩
        · exact hzero
        · rw [hl] at hm
          cases hm
          exact absurd hgt (Int.not_lt.2 hle)
      refine ⟨fun i l hi hil => by omega, fun i l hi hil => ?_⟩
      rcases Nat.lt_or_ge (s.pivot date) i with hi' | hi'
      · exact Int.lt_trans hgt (date_lt_of_lt h hl hil hi')
      · have : i = s.pivot date := by omega
        subst this
        rw [hl] at hil
        cases hil
        exact hgt

theorem ordered_empty : empty.Ordered := ⟨List.Pairwise.nil, fun l hl => by cases hl⟩

theorem Ordered.sublist (h : s.Ordered) {locks : List Lock} (hs : locks.Sublist s.locks) :
    Ordered ⟨locks⟩ :=
  ⟨h.1.sublist hs, fun l hl => h.2 l (hs.subset hl)⟩

theorem Ordered.removeAt (h : s.Ordered) (i : Nat) : (s.removeAt i).Ordered :=
  h.sublist (List.eraseIdx_sublist s.locks i)

theorem Ordered.unexpired (h : s.Ordered) (now : Timestamp) : (s.unexpired now).Ordered :=
  h.sublist (List.dropWhile_sublist _)

theorem pairwise_insertIdx {locks : List Lock} {new : Lock} {k : Nat}
    (h : locks.Pairwise fun a b => a.date < b.date) (hlow : EarlierUpTo locks new.date k)
    (hhigh : LaterFrom locks new.date k) :
    (locks.insertIdx k new).Pairwise fun a b => a.date < b.date := by
  induction locks generalizing k with
  | nil => cases k <;> simp
  | cons l ls ih =>
    have h' := List.pairwise_cons.1 h
    cases k with
    | zero =>
      refine List.pairwise_cons.2 ⟨fun b hb => ?_, h⟩
      obtain ⟨i, hi⟩ := List.mem_iff_getElem?.1 hb
      exact hhigh i b (Nat.zero_le i) hi
    | succ k =>
      rw [List.insertIdx_succ_cons]
      refine List.pairwise_cons.2
        ⟨fun b hb => ?_, ih h'.2 (fun i m hi hm => ?_) fun i m hi hm => ?_⟩
      · rcases List.eq_or_mem_of_mem_insertIdx hb with rfl | hb
        · exact hlow 0 l (Nat.zero_lt_succ k) rfl
        · exact h'.1 b hb
      · exact hlow (i + 1) m (by omega) hm
      · exact hhigh (i + 1) m (by omega) hm

theorem Ordered.upsert (h : s.Ordered) (hu : s.upsert date amount = .ok t) : t.Ordered := by
  rcases upsert_cases hu with ⟨-, rfl⟩ | ⟨hne, i, l, sum, hf, hsum, rfl⟩ | ⟨hne, hf, rfl⟩
  · exact h
  · obtain ⟨hl, rfl⟩ := getElem?_of_find? hf
    obtain ⟨hi, hl'⟩ := List.getElem?_eq_some_iff.1 hl
    constructor
    · rw [← List.pairwise_map (R := (· < ·)) (f := Lock.date)]
      have : (s.locks.set i ⟨l.date, sum⟩).map Lock.date = s.locks.map Lock.date := by
        rw [List.map_set]
        simp only
        rw [← hl', ← List.getElem_map Lock.date (h := by simpa using hi)]
        exact List.set_getElem_self _
      rw [this, List.pairwise_map]
      exact h.1
    · intro m hm
      rcases List.mem_or_eq_of_mem_set hm with hm | rfl
      · exact h.2 m hm
      · intro hz
        apply hne
        apply Amount.ext
        have hz' : sum.toNat = 0 := congrArg Amount.toNat hz
        rw [Amount.toNat_zero]
        omega
  · obtain ⟨hlow, hhigh⟩ := insertionPoint_spec h.1 hf
    refine ⟨pairwise_insertIdx h.1 hlow hhigh, fun m hm => ?_⟩
    rcases List.eq_or_mem_of_mem_insertIdx hm with rfl | hm
    · exact hne
    · exact h.2 m hm

theorem Ordered.shift (h : s.Ordered) {source target : Date}
    (hs : s.shift source target amount = .ok t) : t.Ordered := by
  obtain ⟨i, l, -, -, hu⟩ := shift_eq_ok_iff.1 hs
  exact (h.removeAt i).upsert hu

theorem amountOn_eq_zero (hd : ∀ l ∈ s.locks, l.date ≠ date) : s.amountOn date = 0 := by
  apply List.sum_eq_zero
  intro n hn
  obtain ⟨m, hm, rfl⟩ := List.mem_map.1 hn
  simp [weight, hd m hm]

theorem Ordered.amountOn_removeAt (h : s.Ordered) {i : Nat} {l : Lock}
    (hl : s.locks[i]? = some l) : (s.removeAt i).amountOn l.date = 0 := by
  apply amountOn_eq_zero
  intro m hm hd
  obtain ⟨j, hji, hj⟩ := List.mem_eraseIdx_iff_getElem?.1 hm
  have hfound := find?_of_getElem? h.1 hj
  rw [hd, find?_of_getElem? h.1 hl] at hfound
  simp only [Option.some.injEq, Prod.mk.injEq] at hfound
  exact hji hfound.1.symm

theorem Ordered.amountOn_of_mem (h : s.Ordered) {l : Lock} (hl : l ∈ s.locks) :
    s.amountOn l.date = l.amount.toNat := by
  obtain ⟨i, hi⟩ := List.mem_iff_getElem?.1 hl
  rw [← amountOn_removeAt_add hi, h.amountOn_removeAt hi, if_pos rfl, Nat.zero_add]

theorem exists_mem_of_amountOn_ne_zero (h : s.amountOn date ≠ 0) : ∃ x, ⟨date, x⟩ ∈ s.locks := by
  by_contra hno
  refine h (amountOn_eq_zero fun l hl hd => hno ⟨l.amount, ?_⟩)
  rw [← hd]
  exact hl

theorem Ordered.amountOn_eq_zero_iff (h : s.Ordered) :
    s.amountOn date = 0 ↔ ∀ x, ⟨date, x⟩ ∉ s.locks := by
  constructor
  · intro hz x hx
    rw [h.amountOn_of_mem hx] at hz
    exact h.2 _ hx (Amount.ext hz)
  · intro hnone
    by_contra hz
    obtain ⟨x, hx⟩ := exists_mem_of_amountOn_ne_zero hz
    exact hnone x hx

/-- An ordered schedule is determined by its amounts: it holds a lock exactly
when the amount on the date is that of the lock, and positive. -/
theorem Ordered.mem_iff (h : s.Ordered) {x : Amount} :
    ⟨date, x⟩ ∈ s.locks ↔ s.amountOn date = x.toNat ∧ x ≠ Amount.zero := by
  constructor
  · intro hl
    exact ⟨h.amountOn_of_mem hl, h.2 _ hl⟩
  · rintro ⟨ha, hx⟩
    have hne : s.amountOn date ≠ 0 := by
      intro hz
      exact hx (Amount.ext (by rw [← ha, hz, Amount.toNat_zero]))
    obtain ⟨y, hy⟩ := exists_mem_of_amountOn_ne_zero hne
    have : y = x := Amount.ext (by rw [← h.amountOn_of_mem hy, ha])
    rwa [this] at hy

theorem Ordered.amountOn_lt (h : s.Ordered) (date : Date) : s.amountOn date < 2 ^ 128 := by
  by_cases hz : s.amountOn date = 0
  · rw [hz]
    decide
  · obtain ⟨x, hx⟩ := exists_mem_of_amountOn_ne_zero hz
    have hamount := h.amountOn_of_mem hx
    simp only at hamount
    rw [hamount]
    exact x.toNat_lt

theorem Ordered.ext_amountOn (hs : s.Ordered) (ht : t.Ordered)
    (h : ∀ date, s.amountOn date = t.amountOn date) : s = t := by
  have hmem : ∀ l, l ∈ s.locks ↔ l ∈ t.locks := by
    intro l
    rw [hs.mem_iff, ht.mem_iff, h]
  have hirrefl : ∀ {locks : List Lock}, locks.Pairwise (fun a b => a.date < b.date) →
      locks.Nodup := by
    intro locks hlocks
    refine hlocks.imp fun {a b} hlt heq => ?_
    rw [heq] at hlt
    exact Int.lt_irrefl _ hlt
  have hperm := (List.perm_ext_iff_of_nodup (hirrefl hs.1) (hirrefl ht.1)).2 hmem
  have hlocks : s.locks = t.locks := by
    refine hperm.eq_of_pairwise (fun a b _ _ hab hba => ?_) hs.1 ht.1
    exact absurd (Int.lt_trans hab hba) (Int.lt_irrefl _)
  cases s
  cases t
  cases hlocks
  rfl

theorem Ordered.exists_upsert (h : s.Ordered) (hfits : s.amountOn date + amount.toNat < 2 ^ 128) :
    ∃ t, s.upsert date amount = .ok t := by
  unfold Schedule.upsert
  by_cases hz : amount.isZero
  · exact ⟨s, by rw [if_pos hz]⟩
  · rw [if_neg hz]
    cases hfound : s.find? date with
    | none => exact ⟨_, rfl⟩
    | some found =>
      obtain ⟨i, lock⟩ := found
      obtain ⟨hlock, rfl⟩ := getElem?_of_find? hfound
      have hmem : lock ∈ s.locks := List.mem_of_getElem? hlock
      rw [h.amountOn_of_mem hmem] at hfits
      have hsum : lock.amount.checkedAdd amount = .ok ⟨lock.amount.toNat + amount.toNat, hfits⟩ :=
        Amount.checkedAdd_eq_ok_iff.2 rfl
      refine ⟨⟨s.locks.set i ⟨lock.date, ⟨lock.amount.toNat + amount.toNat, hfits⟩⟩⟩, ?_⟩
      simp only
      rw [hsum]
      rfl

theorem mem_of_shift {source target : Date} (hs : s.shift source target amount = .ok t) :
    ⟨source, amount⟩ ∈ s.locks := by
  obtain ⟨i, l, hf, rfl, -⟩ := shift_eq_ok_iff.1 hs
  obtain ⟨hl, rfl⟩ := getElem?_of_find? hf
  exact List.mem_of_getElem? hl

theorem Ordered.amountOn_source (h : s.Ordered) {source target : Date}
    (hs : s.shift source target amount = .ok t) : s.amountOn source = amount.toNat :=
  h.amountOn_of_mem (mem_of_shift hs)

theorem amountOn_target {source target : Date} (hs : s.shift source target amount = .ok t)
    (hne : source ≠ target) : t.amountOn target = s.amountOn target + amount.toNat := by
  simpa [hne] using amountOn_shift hs target

theorem Ordered.amountOn_unexpired_of_not_locked (h : s.Ordered) {now : Timestamp}
    (hd : ¬isLocked now date) : (s.unexpired now).amountOn date = 0 := by
  apply amountOn_eq_zero
  intro l hl hdate
  subst hdate
  have hord := (h.unexpired now).1
  replace hl : l ∈ s.locks.dropWhile fun l => !isLocked now l.date := hl
  replace hord : (s.locks.dropWhile fun l => !isLocked now l.date).Pairwise
    fun a b => a.date < b.date := hord
  cases hdrop : s.locks.dropWhile fun l => !isLocked now l.date with
  | nil =>
    rw [hdrop] at hl
    cases hl
  | cons m ms =>
    have hm : isLocked now m.date := by
      have := List.head?_dropWhile_not (fun l => !isLocked now l.date) s.locks
      rw [hdrop] at this
      simpa using this
    rw [hdrop] at hl hord
    rcases List.mem_cons.1 hl with rfl | hl
    · exact hd hm
    · have hlt := (List.pairwise_cons.1 hord).1 l hl
      unfold isLocked at hd hm
      rw [Date.lt_def] at hlt
      simp only [decide_eq_true_eq] at hd hm
      omega

theorem not_locked_of_mem_expired {now : Timestamp} {l : Lock} (h : l ∈ s.expired now) :
    ¬isLocked now l.date := by
  have hl := List.all_eq_true.1 List.all_takeWhile l h
  simpa using hl

/-- In an ordered schedule the expired locks are a prefix, so dropping it drops them all. -/
theorem Ordered.mem_expired (h : s.Ordered) {now : Timestamp} {l : Lock} (hl : l ∈ s.locks)
    (hnot : ¬isLocked now l.date) : l ∈ s.expired now := by
  rw [← s.expired_append_unexpired now] at hl
  rcases List.mem_append.1 hl with hmem | hmem
  · exact hmem
  · have hzero := h.amountOn_unexpired_of_not_locked hnot
    rw [(h.unexpired now).amountOn_of_mem hmem] at hzero
    exact absurd (Amount.ext hzero) ((h.unexpired now).2 l hmem)

end StakeLock.Schedule
