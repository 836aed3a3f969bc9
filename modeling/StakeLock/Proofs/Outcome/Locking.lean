import StakeLock.Proofs.Outcome.Queue
import StakeLock.Proofs.UnlockTime

/-!
# Outcomes of locking

How accounts are opened, and how adding, moving and releasing locks ends. Until
its account is saved, a run that fails leaves nothing but a changed queue and a
changed aggregate behind.
-/

namespace StakeLock

variable {j : Journal} {address : Address} {account : LockupAccount}

/-- Opening an account fails only when no account number is left for it. -/
theorem ends_loadOrUpgrade : Ends (fun a k => j.store.Opens address a k.store)
    (fun fault k => fault = .aborted ∧ ¬j.store.Openable address ∧ k = j)
    ((loadOrUpgrade address).run j) := by
  unfold loadOrUpgrade
  rw [ends_bind, StoreM.ends_getStore]
  cases h : j.store.account? address with
  | some account => exact .upgraded h
  | none =>
    simp only
    unfold newBaseAccount
    rw [ends_bind, ends_bind, StoreM.ends_getStore]
    simp only
    rw [ends_ite]
    refine ⟨fun hle => ?_, fun hlt => ?_⟩
    · rw [ends_bind, ends_abort]
      refine ⟨rfl, ?_, rfl⟩
      rintro (hsome | hlt)
      · exact hsome h
      · exact Nat.not_lt.2 hle hlt
    · exact .registered h (Nat.not_le.1 hlt)

theorem Store.lockup_eq_ok_iff {s : Store} :
    s.lockup address = .ok account ↔ s.lockup? address = some account := by
  unfold lockup
  cases s.lockup? address <;> simp

theorem Store.getConfig_eq_ok_iff {s : Store} {config : Config} :
    s.getConfig = .ok config ↔ s.config = some config := by
  unfold getConfig
  cases s.config <;> simp

/-! ## Adding -/

/-- What is left when locks cannot be added, for a cause of the system: the queue may have
grown under the address of their account, and the aggregate with it. -/
structure AddFails (address : Address) (s : Store) (fault : Fault LockError) (t : Store) :
    Prop where
  system : fault.System
  requeued : s.Requeued t
  others : ∀ key, key.address ≠ address → t.queue.get? key = s.queue.get? key

theorem addFails_self {s : Store} {fault : Fault LockError} (h : fault.System) :
    AddFails address s fault s :=
  ⟨h, s.requeued_self, fun _ _ => rfl⟩

theorem AddFails.torn {s t : Store} {fault : Fault LockError} (h : AddFails address s fault t) :
    Torn s fault t :=
  ⟨h.system.not_ordinary, h.requeued⟩

theorem AddFails.of_enqueue {s t u : Store} {time : Nat} {queued : Amount}
    {fault : Fault LockError} (ht : (s.enqueue ⟨time, address⟩ queued).Requeued t)
    (hqueue : t.queue = (s.enqueue ⟨time, address⟩ queued).queue) (h : AddFails address t fault u) :
    AddFails address s fault u where
  system := h.system
  requeued := (s.requeued_enqueue _ queued).trans (ht.trans h.requeued)
  others key hkey := by
    rw [h.others key hkey, hqueue]
    exact s.get?_enqueue_of_ne (QueueKey.ne_of_address_ne hkey) queued

theorem ends_addLock {date : Date} {amount : Amount} : Ends
    (fun a k => ∃ time schedule queued total, unlockTime? date = some time ∧
      account.schedule.upsert date amount = .ok schedule ∧
      j.store.queuedAt ⟨time, account.address⟩ + amount.toNat = queued.toNat ∧
      j.store.total.toNat + amount.toNat = total.toNat ∧
      a = { account with schedule := schedule } ∧
      k.store = (j.store.enqueue ⟨time, account.address⟩ queued).setTotal total)
    (fun fault k => AddFails account.address j.store fault k.store ∨
      unlockTime? date = none ∧ fault = .refused (.invalidDate date.text) ∧ k = j)
    ((addLock account date amount).run j) := by
  unfold addLock
  rw [ends_bind, ends_accept]
  refine ⟨fun time htime => ?_, fun reason hreason => ?_⟩
  · rw [unlockTime_eq_ok_iff] at htime
    rw [ends_bind, ends_acceptSystem]
    refine ⟨fun schedule hschedule => ?_, fun cause _ => .inl (addFails_self ⟨cause, rfl⟩)⟩
    rw [ends_bind]
    refine Queue.ends_add.mono ?_ fun fault k he => .inl (by rw [he.2]; exact addFails_self he.1)
    rintro _ _ ⟨queued, hqueued, rfl⟩
    rw [ends_bind]
    refine Aggregate.ends_increase.mono ?_ fun fault k he => .inl ?_
    · rintro _ _ ⟨total, htotal, rfl⟩
      exact ⟨time, schedule, queued, total, htime, hschedule, hqueued, htotal, rfl, rfl⟩
    · rw [he.2]
      exact .of_enqueue (Store.requeued_self _) rfl (addFails_self he.1)
  · obtain ⟨hnone, rfl⟩ := unlockTime_eq_error hreason
    exact .inr ⟨hnone, rfl, rfl⟩

theorem addLock_succeeds {date : Date} {amount : Amount} {time : Nat} {schedule : Schedule}
    (htime : unlockTime? date = some time)
    (hupsert : account.schedule.upsert date amount = .ok schedule)
    (hreadable : j.store.queue.get? ⟨time, account.address⟩ ≠ some .garbled)
    (hqueued : j.store.queuedAt ⟨time, account.address⟩ + amount.toNat < 2 ^ 128)
    (htotal : j.store.total.toNat + amount.toNat < 2 ^ 128) :
    succeeds ((addLock account date amount).run j) := by
  have hrun : (addLock account date amount).run j = (do
      Queue.add ⟨time, account.address⟩ amount
      Aggregate.increase amount
      StoreM.note (.lockAdded account.address date amount)
      return { account with schedule := schedule } : StoreM LockupAccount).run j := by
    unfold addLock
    rw [unlockTime_eq_ok_iff.2 htime, hupsert]
    rfl
  rw [succeeds_iff, hrun, ends_bind]
  apply (Queue.ends_add.of_succeeds (Queue.add_succeeds hreadable hqueued)).mono_ok
  rintro _ _ ⟨queued, -, rfl⟩
  have hincreased := Aggregate.increase_succeeds
    (j := { j with store := j.store.enqueue ⟨time, account.address⟩ queued }) htotal
  rw [ends_bind]
  apply (succeeds_iff.1 hincreased).mono_ok
  intro _ _ _
  trivial

theorem ends_addLocks {locks : List (Date × Amount)}
    (hdates : ∀ l ∈ locks, ∃ time, unlockTime? l.1 = some time) : Ends
    (fun a k => Draft.Adds ⟨account, j.store⟩ locks ⟨a, k.store⟩)
    (fun fault k => AddFails account.address j.store fault k.store)
    ((locks.foldlM (fun account l => addLock account l.1 l.2) account).run j) := by
  induction locks generalizing account j with
  | nil => exact .nil
  | cons l locks ih =>
    rw [List.foldlM_cons, ends_bind]
    apply ends_addLock.mono
    · rintro a k ⟨time, schedule, queued, total, htime, hschedule, hqueued, htotal, rfl, hk⟩
      apply (ih fun m hm => hdates m (List.mem_cons_of_mem _ hm)).mono
      · intro b m hm
        rw [hk] at hm
        exact .cons htime hschedule hqueued htotal hm
      · intro fault m hm
        rw [hk] at hm
        exact .of_enqueue (Store.requeued_setTotal _ total) rfl hm
    · rintro fault k (hfails | ⟨hnone, -, -⟩)
      · exact hfails
      · obtain ⟨time, htime⟩ := hdates l (List.mem_cons_self ..)
        rw [hnone] at htime
        cases htime

/-! ## Moving -/

section

variable {move : Move} {sourceTime targetTime : Nat} {schedule : Schedule}
variable (hsource : unlockTime? move.source = some sourceTime)
variable (htarget : unlockTime? move.target = some targetTime)
variable (hshift : account.schedule.shift move.source move.target move.amount = .ok schedule)

include hsource htarget hshift

theorem run_moveLock : (moveLock account move.source move.target move.amount).run j = (do
    Queue.remove ⟨sourceTime, account.address⟩ move.amount
    Queue.add ⟨targetTime, account.address⟩ move.amount
    StoreM.note (.lockMoved account.address move.source move.target move.amount)
    return { account with schedule := schedule } : StoreM LockupAccount).run j := by
  unfold moveLock
  rw [unlockTime_eq_ok_iff.2 hsource, unlockTime_eq_ok_iff.2 htarget, hshift]
  rfl

theorem ends_moveLock : Ends
    (fun a k => ∃ rest queued,
      j.store.queuedAt ⟨sourceTime, account.address⟩ = move.amount.toNat + rest.toNat ∧
      (j.store.leaveQueued ⟨sourceTime, account.address⟩ rest).queuedAt
        ⟨targetTime, account.address⟩ + move.amount.toNat = queued.toNat ∧
      a = { account with schedule := schedule } ∧
      k.store = (j.store.leaveQueued ⟨sourceTime, account.address⟩ rest).enqueue
        ⟨targetTime, account.address⟩ queued)
    (fun fault k => Torn j.store fault k.store)
    ((moveLock account move.source move.target move.amount).run j) := by
  rw [run_moveLock hsource htarget hshift, ends_bind]
  refine Queue.ends_remove.mono ?_ fun fault k he => by rw [he.2]; exact torn_self he.1
  rintro _ _ ⟨rest, hrest, rfl⟩
  rw [ends_bind]
  refine Queue.ends_add.mono ?_ fun fault k he => ?_
  · rintro _ _ ⟨queued, hqueued, rfl⟩
    exact ⟨rest, queued, hrest, hqueued, rfl, rfl⟩
  · rw [he.2]
    exact ⟨he.1.not_ordinary, j.store.requeued_leaveQueued _ rest⟩

theorem moveLock_succeeds (hne : targetTime ≠ sourceTime)
    (hqueued : j.store.queue.get? ⟨sourceTime, account.address⟩ = some (.holds move.amount))
    (hreadable : j.store.queue.get? ⟨targetTime, account.address⟩ ≠ some .garbled)
    (hfits : j.store.queuedAt ⟨targetTime, account.address⟩ + move.amount.toNat < 2 ^ 128) :
    succeeds ((moveLock account move.source move.target move.amount).run j) := by
  rw [succeeds_iff, run_moveLock hsource htarget hshift, ends_bind]
  apply (Queue.ends_remove.of_succeeds (Queue.remove_succeeds hqueued (Nat.le_refl _))).mono_ok
  rintro _ _ ⟨rest, hrest, rfl⟩
  have hkey : (⟨targetTime, account.address⟩ : QueueKey) ≠ ⟨sourceTime, account.address⟩ := by
    intro h
    cases h
    exact hne rfl
  rw [ends_bind]
  refine (Queue.ends_add.of_succeeds (Queue.add_succeeds ?_ ?_)).mono_ok fun _ _ _ => trivial
  · simp only
    rw [Store.get?_leaveQueued_of_ne _ hkey]
    exact hreadable
  · simp only
    rw [Store.queuedAt_leaveQueued, if_neg hkey]
    exact hfits

end

theorem Schedule.shiftAll_cons {s t : Schedule} {move : Move} {moves : List Move}
    (h : s.shiftAll (move :: moves) = .ok t) :
    ∃ u, s.shift move.source move.target move.amount = .ok u ∧ u.shiftAll moves = .ok t := by
  unfold shiftAll at h
  rw [List.foldlM_cons] at h
  cases hu : s.shift move.source move.target move.amount with
  | error reason =>
    rw [hu] at h
    cases h
  | ok u =>
    rw [hu] at h
    exact ⟨u, rfl, h⟩

/-- Once a copy of the schedule has taken all moves, the moves themselves fail for no
ordinary reason. -/
theorem ends_moveLocks {moves : List Move} {bondDenom : String} {final : Schedule}
    (hdates : ∀ m ∈ moves, (∃ time, unlockTime? m.source = some time) ∧
      ∃ time, unlockTime? m.target = some time)
    (hshift : account.schedule.shiftAll moves = .ok final) : Ends
    (fun r k => Draft.Moves ⟨account, j.store⟩ moves ⟨r.1, k.store⟩ ∧
      r.2 = moves.map fun m => .extended address m.source m.target ⟨bondDenom, m.amount⟩)
    (fun fault k => Torn j.store fault k.store)
    ((moveLocks address bondDenom account moves).run j) := by
  induction moves generalizing account j with
  | nil => exact ⟨.nil, rfl⟩
  | cons move moves ih =>
    obtain ⟨schedule, hmove, hrest⟩ := Schedule.shiftAll_cons hshift
    obtain ⟨⟨sourceTime, hsource⟩, targetTime, htarget⟩ := hdates move (List.mem_cons_self ..)
    unfold moveLocks
    rw [ends_bind]
    apply (ends_moveLock hsource htarget hmove).mono_ok
    rintro a k ⟨rest, queued, hrestq, hqueued, rfl, hk⟩
    rw [ends_bind]
    apply (ih (fun m hm => hdates m (List.mem_cons_of_mem _ hm)) hrest).mono
    · rintro ⟨b, events⟩ m ⟨hm, rfl⟩
      rw [hk] at hm
      exact ⟨.cons hsource htarget hmove hrestq hqueued hm, rfl⟩
    · intro fault m hm
      rw [hk] at hm
      exact hm.of_requeued
        ((j.store.requeued_leaveQueued _ rest).trans (Store.requeued_enqueue _ _ _))

/-! ## Releasing -/

theorem ends_releaseLocks {locks : List Lock} : Ends
    (fun _ k => j.store.Releases address locks k.store)
    (fun fault k => Torn j.store fault k.store)
    ((locks.forM (releaseLock address)).run j) := by
  induction locks generalizing j with
  | nil => exact .nil
  | cons lock locks ih =>
    change Ends _ _ ((releaseLock address lock >>= fun _ => locks.forM (releaseLock address)).run j)
    rw [ends_bind]
    unfold releaseLock
    cases htime : unlockTime? lock.date with
    | none => exact ih.mono (fun _ k hk => .undated htime hk) fun _ _ he => he
    | some time =>
      simp only
      rw [ends_bind]
      refine Queue.ends_take.mono ?_ fun fault k he => by
        rw [he.2]
        exact torn_self he.1.not_ordinary
      rintro (_ | amount) k hk
      · obtain ⟨hnone, rfl⟩ := hk
        exact ih.mono (fun _ m hm => .absent htime hnone hm) fun _ _ he => he
      · obtain ⟨hsome, rfl⟩ := hk
        refine Aggregate.ends_decrease.mono ?_ fun fault m he => ?_
        · rintro _ _ ⟨total, htotal, rfl⟩
          exact ih.mono (fun _ m hm => .taken htime hsome htotal hm)
            fun _ _ he => he.of_requeued
              ((j.store.requeued_dequeue _).trans (Store.requeued_setTotal _ _))
        · rw [he.2]
          exact ⟨he.1.not_ordinary, j.store.requeued_dequeue _⟩

theorem ends_expireLocks {now : Timestamp} : Ends
    (fun r k => r.1 = account.schedule.expired now ∧
      r.2 = { account with schedule := account.schedule.unexpired now } ∧
      j.store.Releases account.address (account.schedule.expired now) k.store)
    (fun fault k => Torn j.store fault k.store) ((expireLocks account now).run j) := by
  unfold expireLocks
  simp only
  rw [ends_bind]
  apply ends_releaseLocks.mono_ok
  intro _ k hk
  rw [ends_ite]
  exact ⟨fun _ => ⟨rfl, rfl, hk⟩, fun _ => ⟨rfl, rfl, hk⟩⟩

end StakeLock
