import StakeLock.Proofs.Amount
import StakeLock.Proofs.Change
import StakeLock.Proofs.Outcome

/-!
# Outcomes of queue operations

How the operations on the queue and on the aggregate end. They fail only for
system causes or because the queue does not match, which are internal errors.
-/

namespace StakeLock

/-- Refused for a reason that lies in the request. Aborts and internal errors are not ordinary. -/
def Fault.Ordinary : Fault LockError → Prop
  | .refused reason => reason.kind ≠ .internal
  | .aborted => False

instance (fault : Fault LockError) : Decidable fault.Ordinary := by
  cases fault <;> unfold Fault.Ordinary <;> infer_instance

@[simp] theorem not_ordinary_system (cause : SystemError) :
    ¬(Fault.refused (.system cause)).Ordinary := by simp [Fault.Ordinary, LockError.kind]

@[simp] theorem not_ordinary_aborted : ¬(Fault.aborted : Fault LockError).Ordinary := id

/-- Refused for a cause that lies in the system. -/
def Fault.System (fault : Fault LockError) : Prop := ∃ cause, fault = .refused (.system cause)

theorem Fault.System.not_ordinary {fault : Fault LockError} (h : fault.System) :
    ¬fault.Ordinary := by
  obtain ⟨cause, rfl⟩ := h
  exact not_ordinary_system cause

theorem Fault.System.ne_aborted {fault : Fault LockError} (h : fault.System) :
    fault ≠ .aborted := by
  obtain ⟨cause, rfl⟩ := h
  nofun

/-- What a fault that is not ordinary leaves of a store, up to the queue and the aggregate. -/
def Torn (s : Store) (fault : Fault LockError) (t : Store) : Prop :=
  ¬fault.Ordinary ∧ s.Requeued t

theorem torn_self {s : Store} {fault : Fault LockError} (h : ¬fault.Ordinary) : Torn s fault s :=
  ⟨h, s.requeued_self⟩

theorem Torn.of_requeued {s t u : Store} {fault : Fault LockError} (h : s.Requeued t)
    (ht : Torn t fault u) : Torn s fault u :=
  ⟨ht.1, h.trans ht.2⟩

namespace Store

variable {s : Store} {key : QueueKey}

theorem queued?_eq_ok {current : Option Amount} (h : s.queued? key = .ok current) :
    s.queue.get? key = current.map .holds := by
  unfold queued? at h
  cases he : s.queue.get? key with
  | none =>
    rw [he] at h
    cases h
    rfl
  | some entry =>
    rw [he] at h
    cases entry with
    | holds amount =>
      cases h
      rfl
    | garbled => cases h

theorem queuedAt_of_queued? {current : Option Amount} (h : s.queued? key = .ok current) :
    s.queuedAt key = (current.getD Amount.zero).toNat := by
  unfold queuedAt
  rw [queued?_eq_ok h]
  cases current <;> rfl

end Store

namespace Queue

variable {j : Journal} {key : QueueKey} {amount : Amount}

theorem ends_load : Ends (fun current k => j.store.queued? key = .ok current ∧ k = j)
    (fun fault k => fault.System ∧ k = j) ((load key).run j) := by
  unfold load
  rw [ends_bind, StoreM.ends_getStore, ends_acceptSystem]
  exact ⟨fun a ha => ⟨ha, rfl⟩, fun cause _ => ⟨⟨cause, rfl⟩, rfl⟩⟩

theorem ends_add : Ends
    (fun _ k => ∃ queued, j.store.queuedAt key + amount.toNat = queued.toNat ∧
      k = { j with store := j.store.enqueue key queued })
    (fun fault k => fault.System ∧ k = j) ((add key amount).run j) := by
  unfold add
  rw [ends_bind]
  apply ends_load.mono_ok
  rintro current _ ⟨hcurrent, rfl⟩
  rw [ends_bind, ends_acceptSystem]
  refine ⟨fun sum hsum => ⟨sum, ?_, rfl⟩, fun cause _ => ⟨⟨cause, rfl⟩, rfl⟩⟩
  rw [Store.queuedAt_of_queued? hcurrent, Amount.checkedAdd_eq_ok_iff.1 hsum]

theorem ends_refuseDesync {α : Type} : Ends (fun (_ : α) _ => False)
    (fun fault k => ¬fault.Ordinary ∧ k.store = j.store)
    ((refuseDesync key amount : StoreM α).run j) := by
  unfold refuseDesync
  rw [ends_bind, StoreM.ends_note, ends_refuse]
  exact ⟨by simp [Fault.Ordinary, LockError.kind], rfl⟩

theorem ends_remove : Ends
    (fun _ k => ∃ rest, j.store.queuedAt key = amount.toNat + rest.toNat ∧
      k = { j with store := j.store.leaveQueued key rest })
    (fun fault k => ¬fault.Ordinary ∧ k.store = j.store) ((remove key amount).run j) := by
  unfold remove
  rw [ends_bind]
  refine ends_load.mono ?_ fun _ _ he => ⟨he.1.not_ordinary, by rw [he.2]⟩
  rintro current _ ⟨hcurrent, rfl⟩
  have hat := Store.queuedAt_of_queued? hcurrent
  cases current with
  | none => exact ends_refuseDesync.mono (fun _ _ h => h.elim) fun _ _ h => h
  | some current =>
    simp only
    cases hrest : current.sub? amount with
    | none => exact ends_refuseDesync.mono (fun _ _ h => h.elim) fun _ _ h => h
    | some rest =>
      have hsub := Amount.sub?_eq_some_iff.1 hrest
      rw [Option.getD_some] at hat
      simp only
      rw [ends_ite]
      refine ⟨fun hz => ⟨rest, hat.trans hsub, ?_⟩, fun hz => ⟨rest, hat.trans hsub, ?_⟩⟩
      · rw [Store.leaveQueued, if_pos hz]
        rfl
      · rw [Store.leaveQueued, if_neg hz]
        rfl

/-! An operation on an entry that decodes and is large enough, but not too large, succeeds. -/

theorem load_succeeds (h : j.store.queue.get? key ≠ some .garbled) :
    succeeds ((load key).run j) := by
  rw [succeeds_iff]
  unfold load
  rw [ends_bind, StoreM.ends_getStore, ends_acceptSystem]
  refine ⟨fun _ _ => trivial, fun cause hcause => h ?_⟩
  unfold Store.queued? at hcause
  cases hentry : j.store.queue.get? key with
  | none =>
    rw [hentry] at hcause
    cases hcause
  | some entry =>
    rw [hentry] at hcause
    cases entry with
    | holds _ => cases hcause
    | garbled => rfl

theorem add_succeeds (h : j.store.queue.get? key ≠ some .garbled)
    (hfits : j.store.queuedAt key + amount.toNat < 2 ^ 128) :
    succeeds ((add key amount).run j) := by
  rw [succeeds_iff]
  unfold add
  rw [ends_bind]
  apply (ends_load.of_succeeds (load_succeeds h)).mono_ok
  rintro current _ ⟨hcurrent, rfl⟩
  rw [ends_bind, ends_acceptSystem]
  refine ⟨fun _ _ => trivial, fun cause hcause => ?_⟩
  have hlarge := Amount.le_of_checkedAdd_eq_error hcause
  rw [Store.queuedAt_of_queued? hcurrent] at hfits
  exact absurd hfits (Nat.not_lt.2 hlarge)

theorem remove_succeeds {queued : Amount} (h : j.store.queue.get? key = some (.holds queued))
    (hle : amount.toNat ≤ queued.toNat) : succeeds ((remove key amount).run j) := by
  rw [succeeds_iff]
  unfold remove
  rw [ends_bind]
  apply (ends_load.of_succeeds (load_succeeds (by simp [h]))).mono_ok
  rintro current _ ⟨hcurrent, rfl⟩
  have hget := Store.queued?_eq_ok hcurrent
  rw [h] at hget
  cases current with
  | none => cases hget
  | some current =>
    cases hget
    simp only
    cases hrest : queued.sub? amount with
    | none => exact absurd hle (Nat.not_le.2 (Amount.sub?_eq_none_iff.1 hrest))
    | some rest =>
      simp only
      rw [ends_ite]
      exact ⟨fun _ => trivial, fun _ => trivial⟩

theorem ends_take : Ends
    (fun current k => match current with
      | none => j.store.queue.get? key = none ∧ k = j
      | some amount => j.store.queue.get? key = some (.holds amount) ∧
          k = { j with store := j.store.dequeue key })
    (fun fault k => fault.System ∧ k = j) ((take key).run j) := by
  unfold take
  rw [ends_bind]
  apply ends_load.mono_ok
  rintro current _ ⟨hcurrent, rfl⟩
  have hget := Store.queued?_eq_ok hcurrent
  cases current with
  | none => exact ⟨hget, rfl⟩
  | some amount => exact ⟨hget, rfl⟩

theorem take_succeeds (h : j.store.queue.get? key ≠ some .garbled) :
    succeeds ((take key).run j) := by
  rw [succeeds_iff]
  unfold take
  rw [ends_bind]
  apply (ends_load.of_succeeds (load_succeeds h)).mono_ok
  rintro current _ -
  cases current <;> trivial

end Queue

namespace Aggregate

variable {j : Journal} {amount : Amount}

theorem ends_increase : Ends
    (fun _ k => ∃ total, j.store.total.toNat + amount.toNat = total.toNat ∧
      k = { j with store := j.store.setTotal total })
    (fun fault k => fault.System ∧ k = j) ((increase amount).run j) := by
  unfold increase
  rw [ends_bind, StoreM.ends_getStore, ends_bind, ends_acceptSystem]
  exact ⟨fun total h => ⟨total, Amount.checkedAdd_eq_ok_iff.1 h, rfl⟩,
    fun cause _ => ⟨⟨cause, rfl⟩, rfl⟩⟩

theorem ends_decrease : Ends
    (fun _ k => ∃ total, j.store.total.toNat = amount.toNat + total.toNat ∧
      k = { j with store := j.store.setTotal total })
    (fun fault k => fault.System ∧ k = j) ((decrease amount).run j) := by
  unfold decrease
  rw [ends_bind, StoreM.ends_getStore, ends_bind, ends_acceptSystem]
  exact ⟨fun total h => ⟨total, Amount.checkedSub_eq_ok_iff.1 h, rfl⟩,
    fun cause _ => ⟨⟨cause, rfl⟩, rfl⟩⟩

theorem increase_succeeds (h : j.store.total.toNat + amount.toNat < 2 ^ 128) :
    succeeds ((increase amount).run j) := by
  rw [succeeds_iff]
  unfold increase
  rw [ends_bind, StoreM.ends_getStore, ends_bind, ends_acceptSystem]
  refine ⟨fun _ _ => trivial, fun cause hcause => ?_⟩
  exact absurd h (Nat.not_lt.2 (Amount.le_of_checkedAdd_eq_error hcause))

theorem decrease_succeeds (h : amount ≤ j.store.total) : succeeds ((decrease amount).run j) := by
  rw [succeeds_iff]
  unfold decrease
  rw [ends_bind, StoreM.ends_getStore, ends_bind, ends_acceptSystem]
  refine ⟨fun _ _ => trivial, fun cause hcause => ?_⟩
  exact absurd (Amount.lt_of_checkedSub_eq_error hcause) (Nat.not_lt.2 h)

end Aggregate

end StakeLock
