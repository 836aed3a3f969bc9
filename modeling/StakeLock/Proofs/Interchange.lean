import StakeLock.Proofs.Cleanup
import StakeLock.Proofs.EndOfBlock

/-!
# Clearing and sweeping in either order

Expired locks are cleared away on two paths: with the account of a fee payer after a
transaction, and with the due part of the queue at the end of a block. In a reachable
store both are clean-ups that do not fail, so their order does not matter.
-/

namespace StakeLock

variable {now last : Timestamp} {s t : Store} {j : Journal} {surplus : Nat}

/-- What is known of every reachable store: the queue mirrors the schedules, and the
aggregate covers the queue. -/
structure Store.Sound (now : Timestamp) (s : Store) : Prop where
  mirrors : s.Mirrors now
  balanced : ∃ surplus, s.Balanced surplus

theorem Store.Sound.changes {terms : Option Config} (h : s.Sound now) (ht : Changes now terms s t) :
    t.Sound now where
  mirrors := Host.maintains_mirrors_anyTotal.changes h.mirrors ht
  balanced := Host.maintains_surplus.changes h.balanced ht

theorem Host.Reaches.sound (h : Host.anyTotal.Reaches last s) (hnow : last ≤ now) :
    s.Sound now where
  mirrors := h.mirrors hnow
  balanced := Host.maintains_surplus.reaches h

/-- A call that does not fail in a reachable store and does nothing but clean up. -/
def CleansUp (now : Timestamp) (who : Address → Bool) (gone : QueueKey → Bool)
    (call : StoreM Response) : Prop :=
  ∀ j : Journal, j.store.Sound now → ∃ r k, call.run j = .ok r k ∧
    j.store.Cleaned now who gone k.store ∧ k.store.Sound now

/-! ## The end of a block -/

theorem Store.Swept.cleaned {seconds : Nat} (h : s.Swept seconds t) :
    s.Cleaned now (fun _ => false) (fun key => key.time ≤ seconds) t where
  rest := by
    obtain ⟨queue, total, rfl⟩ := h.requeued
    rfl
  account? a := by
    unfold Store.account?
    rw [h.requeued.accounts_eq]
    simp
  queue := h.queue
  total := by
    have hsum := Table.total_filter_add QueueEntry.value (fun e => decide (e.1.time ≤ seconds))
      s.queue
    have htotal := h.total
    unfold queuedSum
    unfold due at htotal
    rw [h.queue]
    omega
  written := by
    rw [h.written]
    simp [due, List.filter_eq_nil_iff]

theorem endBlock_cleansUp (block : Block) :
    CleansUp block.time (fun _ => false) (fun key => key.time ≤ block.time.seconds)
      (endBlock block) := by
  intro j hs
  obtain ⟨surplus, hbalanced⟩ := hs.balanced
  obtain ⟨r, k, hrun, removed, -, -, hswept⟩ :=
    (ends_endBlock_of_balanced hbalanced block).exists_ok
  exact ⟨r, k, hrun, hswept.cleaned, hs.changes (ends_endBlock_changes.of_ok hrun)⟩

/-! ## The fee payer -/

section

variable {tx : Tx} {simulate success : Bool} {address : Address} {account : LockupAccount}

/-- The valid address that pays for a transaction, if the transaction was run. -/
def Tx.payerAddress? [AddressRule] (tx : Tx) (simulate success : Bool) : Option Address :=
  if simulate || !success then none
  else tx.payer?.bind fun text => (AddressRule.validate text).toOption

theorem lockupPayer?_eq_bind [AddressRule] : lockupPayer? s tx simulate success =
    (tx.payerAddress? simulate success).bind fun a =>
      (s.lockup? a).map fun account => (a, account) := by
  unfold lockupPayer? Tx.payerAddress?
  split
  · rfl
  · cases tx.payer? with
    | none => rfl
    | some text =>
      simp only [Option.bind_eq_bind, Option.bind_some]
      cases (AddressRule.validate text).toOption with
      | none => rfl
      | some a =>
        simp only [Option.bind_some]
        cases s.lockup? a <;> rfl

namespace Store

/-- The aggregate covers every entry of the queue, so what is still there can be released. -/
theorem Balanced.ends_releaseLock (h : j.store.Balanced surplus) (address : Address)
    (lock : Lock) : Ends (fun _ k => k.store.Balanced surplus) (fun _ _ => False)
      ((releaseLock address lock).run j) := by
  unfold releaseLock
  cases unlockTime? lock.date with
  | none => exact h
  | some time =>
    simp only
    rw [ends_bind]
    apply (Queue.ends_take.of_succeeds (Queue.take_succeeds (h.readable _))).mono_ok
    rintro (_ | amount) k hk
    · obtain ⟨-, rfl⟩ := hk
      exact h
    · obtain ⟨hget, rfl⟩ := hk
      have hle : amount ≤ j.store.total := by
        have hsum := j.store.queuedSum_dequeue ⟨time, address⟩
        have htotal := h.sum
        rw [queuedAt_of_get? hget] at hsum
        rw [Amount.le_def]
        omega
      have hsucceeds := Aggregate.decrease_succeeds
        (j := { j with store := j.store.dequeue ⟨time, address⟩ }) hle
      apply (Aggregate.ends_decrease.of_succeeds hsucceeds).mono_ok
      rintro _ k ⟨total, htotal, rfl⟩
      exact h.take hget htotal

theorem Balanced.ends_releaseLocks (h : j.store.Balanced surplus) (address : Address)
    (locks : List Lock) : Ends (fun _ k => k.store.Balanced surplus) (fun _ _ => False)
      ((locks.forM (releaseLock address)).run j) := by
  induction locks generalizing j with
  | nil => exact h
  | cons lock locks ih =>
    change Ends _ _ ((releaseLock address lock >>= fun _ => locks.forM (releaseLock address)).run j)
    rw [ends_bind]
    exact (h.ends_releaseLock address lock).mono_ok fun _ _ hk => ih hk

theorem Balanced.expireLocks_succeeds (h : j.store.Balanced surplus) (account : LockupAccount) :
    succeeds ((expireLocks account now).run j) := by
  rw [succeeds_iff]
  unfold expireLocks
  simp only
  rw [ends_bind]
  apply (h.ends_releaseLocks account.address (account.schedule.expired now)).mono_ok
  intro _ k _
  rw [ends_ite]
  exact ⟨fun _ => trivial, fun _ => trivial⟩

theorem Balanced.clearPayer_succeeds [AddressRule] (h : j.store.Balanced surplus)
    (now : Timestamp) (tx : Tx) (simulate success : Bool) :
    succeeds ((clearPayer now tx simulate success).run j) := by
  rw [succeeds_iff]
  unfold clearPayer
  simp only
  rw [ends_bind, StoreM.ends_getStore]
  cases lockupPayer? j.store tx simulate success with
  | none => trivial
  | some payer =>
    simp only
    rw [ends_bind]
    apply (ends_expireLocks.of_succeeds (h.expireLocks_succeeds payer.2)).mono_ok
    rintro ⟨expired, rest⟩ k -
    simp only
    rw [ends_ite]
    exact ⟨fun _ => trivial, fun _ => trivial⟩

/-- Every due entry belongs to an expired lock of its account. -/
theorem Mirrors.exists_expired (h : s.Mirrors now) {e : QueueKey × QueueEntry}
    (he : e ∈ s.queue.entries) (hdue : e.1.time ≤ now.seconds) :
    ∃ account, s.lockup? e.1.address = some account ∧
      keysOf e.1.address (account.schedule.expired now) e.1 := by
  obtain ⟨date, x, htime, -, -, account, y, haccount, hlock⟩ :=
    h.exists_lock (Table.mem_entries_iff.1 he)
  have hlockup := lockup?_eq_some_iff.2 haccount
  have hpassed : ¬isLocked now date := by
    rw [← seconds_lt_iff_isLocked htime]
    exact Nat.not_lt.2 hdue
  have hexpired := (h.ordered hlockup).mem_expired hlock hpassed
  exact ⟨account, hlockup, keysOf_iff.2 ⟨rfl, ⟨date, y⟩, hexpired, htime⟩⟩

theorem due_of_keysOf_expired {key : QueueKey}
    (h : keysOf address (account.schedule.expired now) key) : key.time ≤ now.seconds := by
  obtain ⟨-, lock, hlock, htime⟩ := keysOf_iff.1 h
  have hpassed := Schedule.not_locked_of_mem_expired hlock
  rw [← seconds_lt_iff_isLocked htime] at hpassed
  exact Nat.not_lt.1 hpassed

theorem Mirrors.keysOf_expired (h : s.Mirrors now) (haccount : s.lockup? address = some account)
    {e : QueueKey × QueueEntry} (he : e ∈ s.queue.entries) :
    keysOf address (account.schedule.expired now) e.1 =
      (decide (e.1.address = address) && decide (e.1.time ≤ now.seconds)) := by
  rw [Bool.eq_iff_iff, Bool.and_eq_true, decide_eq_true_iff, decide_eq_true_iff]
  constructor
  · intro hkey
    exact ⟨(keysOf_iff.1 hkey).1, due_of_keysOf_expired hkey⟩
  · rintro ⟨haddress, hdue⟩
    obtain ⟨account', haccount', hkey⟩ := h.exists_expired he hdue
    rw [haddress, haccount] at haccount'
    cases haccount'
    rwa [haddress] at hkey

end Store

theorem Store.Mirrors.cleaned_of_releases (h : s.Mirrors now)
    (haccount : s.lockup? address = some account)
    (hreleases : s.Releases account.address (account.schedule.expired now) t) :
    s.Cleaned now (fun a => a = address)
      (fun key => key.address = address && key.time ≤ now.seconds)
      (Draft.saved ⟨{ account with schedule := account.schedule.unexpired now }, t⟩) := by
  rw [h.keyed.lockup_address haccount] at hreleases
  have hcleaned : s.Cleaned now (fun _ => false)
      (fun key => key.address = address && key.time ≤ now.seconds) t :=
    hreleases.cleaned.congr fun e he => h.keysOf_expired haccount he
  exact hcleaned.saved h.keyed haccount

theorem Store.Mirrors.cleaned_of_expired_eq_nil (h : s.Mirrors now)
    (haccount : s.lockup? address = some account) (hnil : account.schedule.expired now = []) :
    s.Cleaned now (fun a => a = address)
      (fun key => key.address = address && key.time ≤ now.seconds) s := by
  apply Store.cleaned_self
  · intro a stored ha hstored
    rw [decide_eq_true_iff.1 ha, Store.account?_eq_of_lockup? haccount] at hstored
    cases hstored
    simp [Account.unexpired, Schedule.unexpired_of_expired_eq_nil hnil]
  · intro e he
    rw [← h.keysOf_expired haccount he, hnil]
    simp [Store.keysOf]

theorem Store.Mirrors.cleaned_of_lockup?_eq_none (h : s.Mirrors now)
    (hnone : s.lockup? address = none) : s.Cleaned now (fun a => a = address)
      (fun key => key.address = address && key.time ≤ now.seconds) s := by
  apply Store.cleaned_self
  · intro a account ha haccount
    cases account with
    | base _ => rfl
    | lockup _ =>
      rw [← decide_eq_true_iff.1 ha, Store.lockup?_eq_some_iff.2 haccount] at hnone
      cases hnone
  · intro e he hgone
    obtain ⟨hkey, hdue⟩ := Bool.and_eq_true_iff.1 hgone
    obtain ⟨account, haccount, -⟩ := h.exists_expired he (decide_eq_true_iff.1 hdue)
    rw [decide_eq_true_iff.1 hkey, hnone] at haccount
    cases haccount

theorem clearPayer_cleansUp [AddressRule] (now : Timestamp) (tx : Tx) (simulate success : Bool) :
    CleansUp now (fun a => some a = tx.payerAddress? simulate success)
      (fun key => some key.address = tx.payerAddress? simulate success && key.time ≤ now.seconds)
      (clearPayer now tx simulate success) := by
  intro j hs
  obtain ⟨surplus, hbalanced⟩ := hs.balanced
  obtain ⟨r, hrun⟩ := exists_ok_of_succeeds
    (hbalanced.clearPayer_succeeds now tx simulate success)
  refine ⟨r, _, hrun, ?_, hs.changes (ends_clearPayer_changes.of_ok hrun)⟩
  have hk := ends_clearPayer_of_payer.of_ok hrun
  rw [lockupPayer?_eq_bind] at hk
  cases hpayer : tx.payerAddress? simulate success with
  | none =>
    rw [hpayer] at hk
    rw [hk.2]
    exact Store.cleaned_self (by simp) (by simp)
  | some address =>
    simp only [hpayer, Option.bind_some] at hk
    simp only [Option.some.injEq]
    cases haccount : j.store.lockup? address with
    | none =>
      rw [haccount] at hk
      rw [hk.2]
      exact hs.mirrors.cleaned_of_lockup?_eq_none haccount
    | some account =>
      rw [haccount] at hk
      rcases hk.2 with ⟨hnil, hk⟩ | ⟨t, hreleases, hk⟩
      · rw [hk]
        exact hs.mirrors.cleaned_of_expired_eq_nil haccount hnil
      · rw [hk]
        exact hs.mirrors.cleaned_of_releases haccount hreleases

end

/-! ## One after the other -/

section

variable {who who' : Address → Bool} {gone gone' : QueueKey → Bool} {x y : StoreM Response}

/-- Two clean-ups after each other take what either of them would take. -/
theorem CleansUp.seq (hx : CleansUp now who gone x) (hy : CleansUp now who' gone' y) :
    CleansUp now (fun a => who a || who' a) (fun key => gone key || gone' key) (x *> y) := by
  intro j hs
  obtain ⟨_, j₁, hrun₁, hcleaned₁, hs₁⟩ := hx j hs
  obtain ⟨r, j₂, hrun₂, hcleaned₂, hs₂⟩ := hy j₁ hs₁
  have hrun : (x *> y).run j = .ok r j₂ := by
    rw [seqRight_eq_bind, EStateM.run_bind, hrun₁]
    exact hrun₂
  exact ⟨r, j₂, hrun, hcleaned₁.trans hcleaned₂, hs₂⟩

/-- Both orders of two calls succeed and leave the same store. -/
def CommuteTo (x y : StoreM Response) (j : Journal) (t : Store) : Prop :=
  (∃ r k, (x *> y).run j = .ok r k ∧ k.store = t) ∧ ∃ r k, (y *> x).run j = .ok r k ∧ k.store = t

theorem CleansUp.commute (hx : CleansUp now who gone x) (hy : CleansUp now who' gone' y)
    (hs : j.store.Sound now) : ∃ t, CommuteTo x y j t ∧
      j.store.Cleaned now (fun a => who a || who' a) (fun key => gone key || gone' key) t := by
  obtain ⟨r, k, hrun, hcleaned, -⟩ := hx.seq hy j hs
  obtain ⟨r', k', hrun', hcleaned', -⟩ := hy.seq hx j hs
  have hswapped : j.store.Cleaned now (fun a => who a || who' a)
      (fun key => gone key || gone' key) k'.store := by
    simpa only [Bool.or_comm] using hcleaned'
  exact ⟨k.store, ⟨⟨r, k, hrun, rfl⟩, r', k', hrun', hswapped.unique hcleaned⟩, hcleaned⟩

end

theorem Store.Sound.lockup?_of_cleaned [AddressRule] {tx : Tx} {simulate success : Bool}
    {address : Address} {account : LockupAccount} {who : Address → Bool} {gone : QueueKey → Bool}
    (hs : s.Sound now) (h : s.Cleaned now who gone t)
    (hpayer : lockupPayer? s tx simulate success = some (address, account))
    (hwho : ∀ a, some a = tx.payerAddress? simulate success → who a) :
    t.lockup? address = some { account with schedule := ⟨account.schedule.active now⟩ } := by
  have haccount := lockupPayer?_eq_some hpayer
  have hpaid : some address = tx.payerAddress? simulate success := by
    rw [lockupPayer?_eq_bind, Option.bind_eq_some_iff] at hpayer
    obtain ⟨a, ha, hmap⟩ := hpayer
    obtain ⟨_, -, heq⟩ := Option.map_eq_some_iff.1 hmap
    cases heq
    exact ha.symm
  have hactive : account.schedule.unexpired now = ⟨account.schedule.active now⟩ :=
    congrArg Schedule.mk (Schedule.locks_unexpired (hs.mirrors.ordered haccount).1 now)
  rw [h.lockup?, haccount, Option.map_some, if_pos (hwho address hpaid), hactive]

/-- In a reachable store the two ways to expire locks, at the end of a block and with the
fee payer of a transaction, do not fail and do not depend on their order, and so do two
transactions. Each time the fee payers are left with their active locks, and the aggregate
goes down by just what leaves the queue: everything due if the block ends, too, or else
what is due of the fee payers. -/
theorem expiry_paths_commute [AddressRule] (h : Host.anyTotal.Reaches last j.store) {block : Block}
    (hnow : last ≤ block.time) (tx tx' : Tx) (simulate success simulate' success' : Bool) :
    (∃ t, CommuteTo (endBlock block) (clearPayer block.time tx simulate success) j t ∧
      (∀ address account, lockupPayer? j.store tx simulate success = some (address, account) →
        t.lockup? address =
          some { account with schedule := ⟨account.schedule.active block.time⟩ }) ∧
      (∀ key, t.queue.get? key =
        if key.time ≤ block.time.seconds then none else j.store.queue.get? key) ∧
      j.store.total.toNat + t.queuedSum = t.total.toNat + j.store.queuedSum) ∧
    ∃ t, CommuteTo (clearPayer block.time tx simulate success)
        (clearPayer block.time tx' simulate' success') j t ∧
      (∀ address account, lockupPayer? j.store tx simulate success = some (address, account) ∨
          lockupPayer? j.store tx' simulate' success' = some (address, account) →
        t.lockup? address =
          some { account with schedule := ⟨account.schedule.active block.time⟩ }) ∧
      (∀ key, t.queue.get? key =
        if (some key.address = tx.payerAddress? simulate success ∨
            some key.address = tx'.payerAddress? simulate' success') ∧
          key.time ≤ block.time.seconds then none else j.store.queue.get? key) ∧
      j.store.total.toNat + t.queuedSum = t.total.toNat + j.store.queuedSum := by
  have hs := h.sound hnow
  have hpayer := clearPayer_cleansUp block.time tx simulate success
  have hpayer' := clearPayer_cleansUp block.time tx' simulate' success'
  constructor
  · obtain ⟨t, hcommute, hcleaned⟩ := (endBlock_cleansUp block).commute hpayer hs
    refine ⟨t, hcommute, ?_, ?_, hcleaned.total⟩
    · intro address account hlockup
      exact hs.lockup?_of_cleaned hcleaned hlockup (by simp)
    · intro key
      rw [hcleaned.get?]
      by_cases hdue : key.time ≤ block.time.seconds <;> simp [hdue]
  · obtain ⟨t, hcommute, hcleaned⟩ := hpayer.commute hpayer' hs
    refine ⟨t, hcommute, ?_, ?_, hcleaned.total⟩
    · rintro address account (hlockup | hlockup)
      · exact hs.lockup?_of_cleaned hcleaned hlockup (by simp +contextual)
      · exact hs.lockup?_of_cleaned hcleaned hlockup (by simp +contextual)
    · intro key
      rw [hcleaned.get?]
      simp [or_and_right]

namespace FirstLock

def aliceTx : Tx := ⟨[.other "/x.y.Msg" "alice"], none⟩

end FirstLock

open FirstLock in
/-- At its unlock time the first lock leaves its schedule and the queue just once. -/
theorem first_lock_expires_either_way :
    ∃ t, CommuteTo (endBlock dueBlock) (clearPayer dueBlock.time aliceTx false true)
        chain.journal t ∧
      (t.lockup? alice).map (fun account => account.schedule.locks) = some [] ∧
      t.queue.get? ⟨59 * 86400, alice⟩ = none ∧ t.total.toNat = t.queuedSum := by
  have hpayer : (lockupPayer? chain.store aliceTx false true).map Prod.fst = some alice := by
    decide +kernel
  have hactive : ∀ p ∈ lockupPayer? chain.store aliceTx false true,
      p.2.schedule.active dueBlock.time = [] := by decide +kernel
  have hsum : chain.store.total.toNat = chain.store.queuedSum := by decide +kernel
  obtain ⟨⟨address, account⟩, hlockup, rfl⟩ := Option.map_eq_some_iff.1 hpayer
  obtain ⟨⟨t, hcommute, hschedule, hget, htotal⟩, -⟩ := expiry_paths_commute (j := chain.journal)
    reached.anyTotal (by decide : block.time ≤ dueBlock.time) aliceTx aliceTx false true
    false true
  refine ⟨t, hcommute, ?_, ?_, ?_⟩
  · rw [hschedule _ _ hlockup]
    exact congrArg some (hactive _ hlockup)
  · rw [hget, if_pos (by decide)]
  · change chain.store.total.toNat + _ = _ + chain.store.queuedSum at htotal
    omega

end StakeLock
