import Mathlib.Data.List.DropRight
import StakeLock.Proofs.Schedule.Order
import StakeLock.Proofs.UnlockTime

/-!
# Expired locks

The expired locks of a schedule with increasing dates are its first ones, so dropping them
leaves just the active locks. Whoever asks for active locks at that time or later gets the
same answer before and after.
-/

namespace StakeLock

section

variable {α : Type} {p : α → Bool} {l : List α}

/-- A condition that an element satisfies whenever a later one does holds on a prefix. -/
theorem takeWhile_eq_filter (h : l.Pairwise fun a b => p b → p a) : l.takeWhile p = l.filter p := by
  induction l with
  | nil => rfl
  | cons a l ih =>
    obtain ⟨ha, hl⟩ := List.pairwise_cons.1 h
    by_cases hp : p a
    · simp [hp, ih hl]
    · have hnone : l.filter p = [] := by
        rw [List.filter_eq_nil_iff]
        intro b hb hpb
        exact hp (ha b hb hpb)
      simp [hp, hnone]

theorem dropWhile_eq_filter (h : l.Pairwise fun a b => p b → p a) :
    l.dropWhile p = l.filter fun a => !p a := by
  induction l with
  | nil => rfl
  | cons a l ih =>
    obtain ⟨ha, hl⟩ := List.pairwise_cons.1 h
    by_cases hp : p a
    · simp [hp, ih hl]
    · have hall : l.filter (fun a => !p a) = l := by
        rw [List.filter_eq_self]
        intro b hb
        have hpb : ¬p b := fun hpb => hp (ha b hb hpb)
        simpa using hpb
      simp [hp, hall]

end

namespace Schedule

variable {s : Schedule} {now later : Timestamp}

theorem pairwise_past (h : s.locks.Pairwise fun a b => a.date < b.date) (now : Timestamp) :
    s.locks.Pairwise fun a b => !isLocked now b.date → !isLocked now a.date := by
  refine h.imp fun {a b} hlt hb => ?_
  have hnot : ¬isLocked now a.date := by
    intro ha
    simp [isLocked_of_lt hlt ha] at hb
  simpa using hnot

theorem mem_expired_iff (h : s.locks.Pairwise fun a b => a.date < b.date) {l : Lock} :
    l ∈ s.expired now ↔ l ∈ s.locks ∧ ¬isLocked now l.date := by
  change l ∈ s.locks.takeWhile (fun l => !isLocked now l.date) ↔ _
  rw [takeWhile_eq_filter (pairwise_past h now)]
  simp

theorem locks_unexpired (h : s.locks.Pairwise fun a b => a.date < b.date) (now : Timestamp) :
    (s.unexpired now).locks = s.active now := by
  change s.locks.dropWhile (fun l => !isLocked now l.date) = s.active now
  simp [dropWhile_eq_filter (pairwise_past h now), active]

/-- What is active later does not depend on locks that have expired before. -/
theorem active_unexpired (s : Schedule) (h : now ≤ later) :
    (s.unexpired now).active later = s.active later := by
  have hexpired : (s.expired now).filter (fun l => isLocked later l.date) = [] := by
    rw [List.filter_eq_nil_iff]
    intro l hl hlater
    exact not_locked_of_mem_expired hl (isLocked_of_le h hlater)
  unfold active
  conv => rhs; rw [← s.expired_append_unexpired now, List.filter_append, hexpired]
  rfl

theorem unexpired_unexpired (s : Schedule) (now : Timestamp) :
    (s.unexpired now).unexpired now = s.unexpired now := by
  simp [unexpired, List.dropWhile_idempotent]

theorem unexpired_of_expired_eq_nil (h : s.expired now = []) : s.unexpired now = s := by
  have hsplit := s.expired_append_unexpired now
  rw [h, List.nil_append] at hsplit
  exact congrArg Schedule.mk hsplit

end Schedule

end StakeLock
