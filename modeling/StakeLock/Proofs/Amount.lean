import Mathlib.Algebra.Order.Ring.Nat
import StakeLock.Error

/-!
# Checked arithmetic

What the checked operations on amounts answer, said of exact natural numbers.
-/

namespace StakeLock.Amount

variable {a b c : Amount}

theorem isZero_iff : a.isZero ↔ a = zero := by
  unfold isZero
  rw [beq_iff_eq, Amount.ext_iff]
  rfl

theorem toNat_pos (h : a ≠ zero) : 0 < a.toNat := by
  rw [Nat.pos_iff_ne_zero]
  exact fun hz => h (Amount.ext hz)

theorem ne_zero_of_pos (h : 0 < a.toNat) : a ≠ zero := by
  rintro rfl
  exact Nat.lt_irrefl 0 h

theorem checkedAdd_eq_ok_iff : a.checkedAdd b = .ok c ↔ a.toNat + b.toNat = c.toNat := by
  rw [← add?_eq_some_iff]
  unfold checkedAdd
  cases a.add? b <;> simp

theorem checkedSub_eq_ok_iff : a.checkedSub b = .ok c ↔ a.toNat = b.toNat + c.toNat := by
  rw [← sub?_eq_some_iff]
  unfold checkedSub
  cases a.sub? b <;> simp

theorem checkedAdd_eq_error_iff {cause : SystemError} : a.checkedAdd b = .error cause ↔
    cause = .addOverflow a b ∧ 2 ^ 128 ≤ a.toNat + b.toNat := by
  change _ ↔ cause = .addOverflow a b ∧ 0x100000000000000000000000000000000 ≤ a.toNat + b.toNat
  rw [← add?_eq_none_iff]
  unfold checkedAdd
  cases a.add? b <;> simp [eq_comm]

theorem le_of_checkedAdd_eq_error {cause : SystemError} (h : a.checkedAdd b = .error cause) :
    2 ^ 128 ≤ a.toNat + b.toNat :=
  (checkedAdd_eq_error_iff.1 h).2

theorem lt_of_checkedSub_eq_error {cause : SystemError} (h : a.checkedSub b = .error cause) :
    a.toNat < b.toNat := by
  unfold checkedSub at h
  cases hsub : a.sub? b with
  | none => exact sub?_eq_none_iff.1 hsub
  | some rest =>
    rw [hsub] at h
    cases h

/-- Adding amounts one by one fails exactly if their sum is out of range. -/
theorem sumFrom_eq_ok_iff {l : List Amount} :
    a.sumFrom l = .ok c ↔ a.toNat + (l.map toNat).sum = c.toNat := by
  unfold sumFrom
  induction l generalizing a with
  | nil =>
    rw [List.foldlM_nil, List.map_nil, List.sum_nil, Nat.add_zero, ← Amount.ext_iff]
    exact Except.ok.injEq a c ▸ Iff.rfl
  | cons b l ih =>
    rw [List.foldlM_cons, List.map_cons, List.sum_cons, ← Nat.add_assoc]
    cases hb : a.checkedAdd b with
    | ok d =>
      rw [checkedAdd_eq_ok_iff.1 hb]
      exact ih
    | error cause =>
      have hlarge := le_of_checkedAdd_eq_error hb
      have hc := c.toNat_lt
      constructor
      · intro h
        cases h
      · intro h
        omega

theorem le_of_sumFrom_eq_error {l : List Amount} {cause : SystemError}
    (h : a.sumFrom l = .error cause) : 2 ^ 128 ≤ a.toNat + (l.map toNat).sum := by
  by_contra hlt
  rw [Nat.not_le] at hlt
  have hsum : a.sumFrom l = .ok ⟨a.toNat + (l.map toNat).sum, hlt⟩ := sumFrom_eq_ok_iff.2 rfl
  rw [h] at hsum
  cases hsum

end StakeLock.Amount
