import Mathlib.Algebra.BigOperators.Group.List.Basic
import Mathlib.Algebra.Order.Ring.Nat
import Mathlib.Data.List.Perm.Basic
import StakeLock.Schedule

/-!
# Amounts of a schedule

How much a schedule holds over the dates that satisfy a condition, as an exact
sum. What the operations do to it does not depend on the order of the locks.
-/

namespace StakeLock.Schedule

variable {s t : Schedule} {date : Date} {amount : Amount} {p : Date → Bool}

def weight (p : Date → Bool) (l : Lock) : Nat := if p l.date then l.amount.toNat else 0

/-- The exact sum over the dates that satisfy a condition. -/
def amountWhere (s : Schedule) (p : Date → Bool) : Nat := (s.locks.map (weight p)).sum

def amountOn (s : Schedule) (date : Date) : Nat := s.amountWhere fun d => d = date

/-- The exact sum of the active locks. -/
def lockedSum (s : Schedule) (now : Timestamp) : Nat :=
  ((s.active now).map fun l => l.amount.toNat).sum

theorem lockedSum_eq_amountWhere (s : Schedule) (now : Timestamp) :
    s.lockedSum now = s.amountWhere (isLocked now) := by
  unfold lockedSum amountWhere active
  induction s.locks with
  | nil => rfl
  | cons l ls ih =>
    rw [List.map_cons, List.sum_cons, ← ih, weight, List.filter_cons]
    by_cases h : isLocked now l.date <;> simp [h]

/-- The amount that checks of the locked value work with is the exact sum, if it fits. -/
theorem lockedAmount?_eq (s : Schedule) (now : Timestamp) :
    s.lockedAmount? now = Amount.ofNat? (s.lockedSum now) := by
  unfold lockedAmount? Amount.sum? lockedSum
  rw [List.map_map, List.sum_eq_foldr]
  rfl

theorem getElem?_of_find? {i : Nat} {l : Lock} (h : s.find? date = some (i, l)) :
    s.locks[i]? = some l ∧ l.date = date := by
  unfold find? at h
  split at h
  · rename_i m hm
    split at h
    · rename_i hd
      cases h
      exact ⟨hm, hd⟩
    · cases h
  · cases h

theorem insertionPoint_le (s : Schedule) (date : Date) :
    s.insertionPoint date ≤ s.locks.length := by
  unfold insertionPoint
  split
  · rename_i l hl
    obtain ⟨h, -⟩ := List.getElem?_eq_some_iff.1 hl
    split <;> omega
  · omega

theorem amountWhere_removeAt {i : Nat} {l : Lock} (hl : s.locks[i]? = some l) (p : Date → Bool) :
    (s.removeAt i).amountWhere p + weight p l = s.amountWhere p := by
  obtain ⟨hi, rfl⟩ := List.getElem?_eq_some_iff.1 hl
  have hsum := ((List.getElem_cons_eraseIdx_perm hi).map (weight p)).sum_eq
  rw [List.map_cons, List.sum_cons] at hsum
  change ((s.locks.eraseIdx i).map (weight p)).sum + _ = _
  unfold amountWhere
  omega

theorem amountOn_removeAt_add {i : Nat} {l : Lock} (hl : s.locks[i]? = some l) (d : Date) :
    (s.removeAt i).amountOn d + (if l.date = d then l.amount.toNat else 0) = s.amountOn d := by
  simpa [amountOn, weight] using amountWhere_removeAt hl fun e => e = d

/-- The two ways in which an amount is added, to a lock that exists or as a new one. -/
theorem upsert_cases (h : s.upsert date amount = .ok t) :
    (amount = Amount.zero ∧ t = s) ∨
    (amount ≠ Amount.zero ∧ ∃ i l sum, s.find? date = some (i, l) ∧
      l.amount.toNat + amount.toNat = sum.toNat ∧ t = ⟨s.locks.set i ⟨date, sum⟩⟩) ∨
    (amount ≠ Amount.zero ∧ s.find? date = none ∧
      t = ⟨s.locks.insertIdx (s.insertionPoint date) ⟨date, amount⟩⟩) := by
  unfold upsert at h
  split at h
  · rename_i hz
    cases h
    exact .inl ⟨Amount.ext (by simpa [Amount.isZero] using hz), rfl⟩
  · rename_i hz
    have hne : amount ≠ Amount.zero := by
      rintro rfl
      exact hz rfl
    split at h
    · rename_i i l hf
      unfold Amount.checkedAdd at h
      cases hsum : l.amount.add? amount with
      | none =>
        rw [hsum] at h
        cases h
      | some sum =>
        rw [hsum] at h
        cases h
        have hd := (getElem?_of_find? hf).2
        exact .inr (.inl ⟨hne, i, l, sum, hf, Amount.add?_eq_some_iff.1 hsum, by rw [hd]⟩)
    · rename_i hf
      cases h
      exact .inr (.inr ⟨hne, hf, rfl⟩)

theorem amountWhere_upsert (h : s.upsert date amount = .ok t) (p : Date → Bool) :
    t.amountWhere p = s.amountWhere p + if p date then amount.toNat else 0 := by
  rcases upsert_cases h with ⟨rfl, rfl⟩ | ⟨-, i, l, sum, hf, hsum, rfl⟩ | ⟨-, -, rfl⟩
  · simp
  · obtain ⟨hl, hd⟩ := getElem?_of_find? hf
    have hold := amountWhere_removeAt hl p
    obtain ⟨hi, rfl⟩ := List.getElem?_eq_some_iff.1 hl
    have hnew := ((List.set_perm_cons_eraseIdx hi ⟨date, sum⟩).map (weight p)).sum_eq
    rw [List.map_cons, List.sum_cons] at hnew
    unfold amountWhere removeAt at *
    rw [hnew, ← hold]
    simp only [weight, hd]
    split <;> omega
  · have hnew := ((List.perm_insertIdx ⟨date, amount⟩ s.locks
      (s.insertionPoint_le date)).map (weight p)).sum_eq
    rw [List.map_cons, List.sum_cons] at hnew
    unfold amountWhere
    rw [hnew, Nat.add_comm]
    rfl

theorem amountOn_upsert (h : s.upsert date amount = .ok t) (d : Date) :
    t.amountOn d = s.amountOn d + if date = d then amount.toNat else 0 := by
  simpa [amountOn] using amountWhere_upsert h fun e => e = d

theorem shift_eq_ok_iff {source target : Date} :
    s.shift source target amount = .ok t ↔ ∃ i l, s.find? source = some (i, l) ∧
      l.amount = amount ∧ (s.removeAt i).upsert target amount = .ok t := by
  unfold shift
  constructor
  · intro h
    split at h
    · cases h
    · rename_i i l hf
      split at h
      · cases h
      · rename_i ha
        cases hu : (s.removeAt i).upsert target amount with
        | error cause =>
          rw [hu] at h
          cases h
        | ok t' =>
          rw [hu] at h
          cases h
          exact ⟨i, l, hf, not_not.1 ha, hu⟩
  · rintro ⟨i, l, hf, rfl, hu⟩
    rw [hf]
    simp [hu, Except.mapError]

theorem amountWhere_shift {source target : Date} (h : s.shift source target amount = .ok t)
    (p : Date → Bool) :
    t.amountWhere p + (if p source then amount.toNat else 0) =
      s.amountWhere p + if p target then amount.toNat else 0 := by
  obtain ⟨i, l, hf, rfl, hu⟩ := shift_eq_ok_iff.1 h
  obtain ⟨hl, rfl⟩ := getElem?_of_find? hf
  rw [amountWhere_upsert hu p, ← amountWhere_removeAt hl p]
  simp only [weight]
  omega

theorem amountOn_shift {source target : Date} (h : s.shift source target amount = .ok t)
    (d : Date) :
    t.amountOn d + (if source = d then amount.toNat else 0) =
      s.amountOn d + if target = d then amount.toNat else 0 := by
  simpa [amountOn] using amountWhere_shift h fun e => e = d

theorem amountWhere_unexpired_add (s : Schedule) (now : Timestamp) (p : Date → Bool) :
    (s.unexpired now).amountWhere p + ((s.expired now).map (weight p)).sum = s.amountWhere p := by
  unfold amountWhere
  rw [← s.expired_append_unexpired now, List.map_append, List.sum_append, Nat.add_comm]

/-- Dropping expired locks loses nothing of what is still locked. -/
theorem amountWhere_unexpired {now : Timestamp} (h : ∀ d, p d → isLocked now d) :
    (s.unexpired now).amountWhere p = s.amountWhere p := by
  unfold amountWhere unexpired
  induction s.locks with
  | nil => rfl
  | cons l ls ih =>
    rw [List.dropWhile_cons]
    split
    · rename_i hl
      have hp : ¬p l.date := by
        intro hp
        simp [h l.date hp] at hl
      rw [ih, List.map_cons, List.sum_cons, weight, if_neg hp, Nat.zero_add]
    · rfl

end StakeLock.Schedule
