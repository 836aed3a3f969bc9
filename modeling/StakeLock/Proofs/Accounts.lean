import Mathlib.Algebra.Order.BigOperators.Group.List
import StakeLock.Proofs.Reachable

/-!
# Accounts under change

Accounts stay under their own addresses, so a change touches the schedule of one
address only. How much the change adds to it, or moves between its dates, is
said for all dates with a property at once.
-/

namespace StakeLock

namespace Store

variable {s t : Store} {address a : Address} {account : LockupAccount} {p : Date → Bool}

/-- Every account is stored under its own address. -/
def Keyed (s : Store) : Prop :=
  ∀ address account, s.account? address = some account → account.address = address

theorem Plain.keyed (h : s.Plain) : s.Keyed := by
  intro address account haccount
  obtain ⟨base, rfl, rfl⟩ := h address account haccount
  rfl

theorem Plain.lockup?_eq_none (h : s.Plain) (address : Address) : s.lockup? address = none := by
  unfold lockup?
  cases haccount : s.account? address with
  | none => rfl
  | some account =>
    obtain ⟨base, rfl, -⟩ := h address account haccount
    rfl

theorem account?_eq_of_lockup? (h : s.lockup? address = some account) :
    s.account? address = some (.lockup account) := by
  unfold lockup? at h
  obtain ⟨stored, hstored, hlockup⟩ := Option.bind_eq_some_iff.1 h
  cases stored with
  | base _ => cases hlockup
  | lockup b =>
    cases hlockup
    exact hstored

theorem lockup?_eq_some_iff :
    s.lockup? address = some account ↔ s.account? address = some (.lockup account) := by
  constructor
  · exact account?_eq_of_lockup?
  · intro h
    unfold lockup?
    rw [h]
    rfl

theorem Keyed.lockup_address (hs : s.Keyed) (h : s.lockup? address = some account) :
    account.address = address :=
  hs address _ (account?_eq_of_lockup? h)

theorem account?_saved (d : Draft) (a : Address) : d.saved.account? a =
    if a = d.account.address then some (.lockup d.account) else d.store.account? a :=
  Table.get?_insert d.store.accounts d.account.address a (.lockup d.account)

theorem lockup?_saved (d : Draft) (a : Address) : d.saved.lockup? a =
    if a = d.account.address then some d.account else d.store.lockup? a := by
  unfold lockup?
  rw [account?_saved]
  split <;> rfl

section

variable {d d' : Draft} (haddress : d'.account.address = d.account.address)
variable (haccounts : d'.store.accounts = d.store.accounts)

include haddress haccounts

theorem account?_saved_of (a : Address) : d'.saved.account? a =
    if a = d.account.address then some (.lockup d'.account) else d.saved.account? a := by
  rw [account?_saved, account?_saved, haddress]
  unfold account?
  rw [haccounts]
  split <;> rfl

theorem lockup?_saved_of (a : Address) : d'.saved.lockup? a =
    if a = d.account.address then some d'.account else d.saved.lockup? a := by
  unfold lockup?
  rw [account?_saved_of haddress haccounts]
  split <;> rfl

end

theorem lockedWhere_saved (d : Draft) (a : Address) (p : Date → Bool) :
    d.saved.lockedWhere a p =
      if a = d.account.address then d.account.schedule.amountWhere p
      else d.store.lockedWhere a p := by
  unfold lockedWhere
  rw [lockup?_saved]
  by_cases h : a = d.account.address
  · rw [if_pos h, if_pos h]
  · rw [if_neg h, if_neg h]

theorem lockedWhere_congr (h : t.accounts = s.accounts) (a : Address) (p : Date → Bool) :
    t.lockedWhere a p = s.lockedWhere a p := by
  unfold lockedWhere lockup? account?
  rw [h]

theorem Keyed.of_accounts_eq (hs : s.Keyed) (h : t.accounts = s.accounts) : t.Keyed := by
  unfold Keyed account?
  rw [h]
  exact hs

theorem lockedWhere_of_lockup? (h : s.lockup? address = some account) (p : Date → Bool) :
    s.lockedWhere address p = account.schedule.amountWhere p := by
  unfold lockedWhere
  rw [h]

/-- An opened account is the lockup account of its address, or it has no locks. -/
theorem Opens.empty_or_lockup? (h : s.Opens address account t) :
    account.schedule = Schedule.empty ∨ s.lockup? address = some account := by
  cases h with
  | upgraded h =>
    rename_i stored
    cases stored with
    | base _ => exact .inl rfl
    | lockup account => exact .inr (lockup?_eq_some_iff.2 h)
  | registered _ _ => exact .inl rfl

theorem Opens.amountWhere_eq (h : s.Opens address account t) (p : Date → Bool) :
    account.schedule.amountWhere p = s.lockedWhere address p := by
  cases h with
  | upgraded h =>
    unfold lockedWhere lockup?
    rw [h]
    rename_i stored
    cases stored <;> rfl
  | registered h _ =>
    unfold lockedWhere lockup?
    rw [h]
    rfl

theorem Opens.accounts_eq (h : s.Opens address account t) : t.accounts = s.accounts := by
  cases h <;> rfl

theorem Opens.queue_eq (h : s.Opens address account t) : t.queue = s.queue := by
  cases h <;> rfl

theorem Opens.config_eq (h : s.Opens address account t) : t.config = s.config := by
  cases h <;> rfl

theorem Opens.address_eq (hs : s.Keyed) (h : s.Opens address account t) :
    account.address = address := by
  cases h with
  | upgraded h =>
    rename_i stored
    have hkey := hs address stored h
    cases stored <;> exact hkey
  | registered _ _ => rfl

theorem Releases.requeued {locks : List Lock} (h : s.Releases a locks t) : s.Requeued t := by
  induction h with
  | nil => exact requeued_self _
  | undated _ _ ih => exact ih
  | absent _ _ _ ih => exact ih
  | taken _ _ _ _ ih => exact ((requeued_dequeue _ _).trans (requeued_setTotal _ _)).trans ih

end Store

namespace Draft

variable {d d' : Draft} {locks : List (Date × Amount)} {moves : List Move}

theorem Adds.base_eq (h : d.Adds locks d') : d'.account.base = d.account.base := by
  induction h with
  | nil => rfl
  | cons _ _ _ _ _ ih => exact ih

theorem Adds.address_eq (h : d.Adds locks d') : d'.account.address = d.account.address :=
  congrArg BaseAccount.address h.base_eq

theorem Adds.requeued (h : d.Adds locks d') : d.store.Requeued d'.store := by
  induction h with
  | nil => exact Store.requeued_self _
  | cons _ _ _ _ _ ih =>
    exact ((Store.requeued_enqueue _ _ _).trans (Store.requeued_setTotal _ _)).trans ih

theorem Adds.amountWhere (h : d.Adds locks d') (p : Date → Bool) :
    d'.account.schedule.amountWhere p = d.account.schedule.amountWhere p +
      (locks.map fun l => if p l.1 then l.2.toNat else 0).sum := by
  induction h with
  | nil => rfl
  | cons _ hupsert _ _ _ ih =>
    rw [ih, Schedule.amountWhere_upsert hupsert p, List.map_cons, List.sum_cons, Nat.add_assoc]

theorem Moves.base_eq (h : d.Moves moves d') : d'.account.base = d.account.base := by
  induction h with
  | nil => rfl
  | cons _ _ _ _ _ _ ih => exact ih

theorem Moves.address_eq (h : d.Moves moves d') : d'.account.address = d.account.address :=
  congrArg BaseAccount.address h.base_eq

theorem Moves.requeued (h : d.Moves moves d') : d.store.Requeued d'.store := by
  induction h with
  | nil => exact Store.requeued_self _
  | cons _ _ _ _ _ _ ih =>
    exact ((Store.requeued_leaveQueued _ _ _).trans (Store.requeued_enqueue _ _ _)).trans ih

theorem Moves.amountWhere (h : d.Moves moves d') (p : Date → Bool) :
    d'.account.schedule.amountWhere p +
        (moves.map fun m => if p m.source then m.amount.toNat else 0).sum =
      d.account.schedule.amountWhere p +
        (moves.map fun m => if p m.target then m.amount.toNat else 0).sum := by
  induction h with
  | nil => rfl
  | cons _ _ hshift _ _ _ ih =>
    have hmove := Schedule.amountWhere_shift hshift p
    simp only [List.map_cons, List.sum_cons]
    simp only at ih
    omega

end Draft

theorem Locks.config_eq {σ : Type} [HostLedger σ] {ledger : σ} {now : Timestamp}
    {address : Address} {locks : List (Date × Amount)} {s t : Store}
    (h : Locks now ledger address locks s t) : t.config = s.config := by
  obtain ⟨account, opened, d, delegated, hopens, hadds, rfl, -, -⟩ := h
  exact hadds.requeued.config_eq.trans hopens.config_eq

theorem Store.Keyed.saved {d : Draft} (h : d.store.Keyed) : d.saved.Keyed := by
  intro address account haccount
  rw [Store.account?_saved] at haccount
  split at haccount
  · rename_i heq
    cases haccount
    exact heq.symm
  · exact h address account haccount

/-! ## What a change does to an account -/

section

variable {s opened t : Store} {address a : Address} {account : LockupAccount} {d : Draft}
variable {now : Timestamp} {p : Date → Bool}

theorem Draft.lockedWhere_saved_of (d : Draft) (haccounts : d.store.accounts = s.accounts)
    (haddress : d.account.address = address) (a : Address) (p : Date → Bool) :
    d.saved.lockedWhere a p =
      if a = address then d.account.schedule.amountWhere p else s.lockedWhere a p := by
  rw [Store.lockedWhere_saved, haddress, Store.lockedWhere_congr haccounts]

theorem Draft.Adds.lockedWhere_saved {locks : List (Date × Amount)} (hs : s.Keyed)
    (hopens : s.Opens address account opened) (hadds : Draft.Adds ⟨account, opened⟩ locks d)
    (a : Address) (p : Date → Bool) : d.saved.lockedWhere a p = s.lockedWhere a p +
      if a = address then (locks.map fun l => if p l.1 then l.2.toNat else 0).sum else 0 := by
  rw [d.lockedWhere_saved_of (hadds.requeued.accounts_eq.trans hopens.accounts_eq)
    (hadds.address_eq.trans (hopens.address_eq hs)), hadds.amountWhere p]
  split
  · rename_i h
    rw [h, hopens.amountWhere_eq p]
  · rfl

/-- Locks that are moved to later dates count as much as before for all dates that are
closed to later ones, or more. -/
theorem Draft.Moves.lockedWhere_le_saved {moves : List Move} (hs : s.Keyed)
    (haccount : s.lockup? address = some account) (hmoves : Draft.Moves ⟨account, s⟩ moves d)
    (hp : ∀ m ∈ moves, p m.source → p m.target) (a : Address) :
    s.lockedWhere a p ≤ d.saved.lockedWhere a p := by
  rw [d.lockedWhere_saved_of hmoves.requeued.accounts_eq
    (hmoves.address_eq.trans (hs.lockup_address haccount))]
  split
  · rename_i h
    rw [h, Store.lockedWhere_of_lockup? haccount]
    have hsum := hmoves.amountWhere p
    have hle : (moves.map fun m => if p m.source then m.amount.toNat else 0).sum ≤
        (moves.map fun m => if p m.target then m.amount.toNat else 0).sum := by
      apply List.sum_le_sum
      intro m hm
      by_cases hsource : p m.source
      · rw [if_pos hsource, if_pos (hp m hm hsource)]
      · rw [if_neg hsource]
        exact Nat.zero_le _
    simp only at hsum
    omega
  · exact le_rfl

theorem Draft.Moves.lockedWhere_saved_eq {moves : List Move} (hs : s.Keyed)
    (haccount : s.lockup? address = some account) (hmoves : Draft.Moves ⟨account, s⟩ moves d)
    (hp : ∀ m ∈ moves, p m.source = p m.target) (a : Address) :
    d.saved.lockedWhere a p = s.lockedWhere a p := by
  rw [d.lockedWhere_saved_of hmoves.requeued.accounts_eq
    (hmoves.address_eq.trans (hs.lockup_address haccount))]
  split
  · rename_i h
    rw [h, Store.lockedWhere_of_lockup? haccount]
    have hsum := hmoves.amountWhere p
    have heq : (moves.map fun m => if p m.source then m.amount.toNat else 0) =
        moves.map fun m => if p m.target then m.amount.toNat else 0 := by
      apply List.map_congr_left
      intro m hm
      rw [hp m hm]
    rw [heq] at hsum
    exact Nat.add_right_cancel hsum
  · rfl

theorem Store.Releases.lockedWhere_saved (hs : s.Keyed)
    (haccount : s.lockup? address = some account)
    (hreleases : s.Releases account.address (account.schedule.expired now) t)
    (hp : ∀ d, p d → isLocked now d) (a : Address) :
    (Draft.saved ⟨{ account with schedule := account.schedule.unexpired now }, t⟩).lockedWhere a p =
      s.lockedWhere a p := by
  have haddress : account.address = address := hs.lockup_address haccount
  rw [Draft.lockedWhere_saved_of ⟨{ account with schedule := account.schedule.unexpired now }, t⟩
    hreleases.requeued.accounts_eq haddress, Schedule.amountWhere_unexpired hp]
  split
  · rename_i h
    rw [h, lockedWhere_of_lockup? haccount]
  · rfl

end

theorem Change.keyed {now : Timestamp} {terms : Option Config} {s t : Store}
    (h : Change now terms s t) (hs : s.Keyed) : t.Keyed := by
  cases h with
  | version _ => exact hs
  | configure _ => exact hs
  | register _ => exact hs
  | lock hopens _ hadds =>
    exact ((hs.of_accounts_eq hopens.accounts_eq).of_accounts_eq hadds.requeued.accounts_eq).saved
  | extend _ _ hmoves => exact (hs.of_accounts_eq hmoves.requeued.accounts_eq).saved
  | clear _ hreleases =>
    exact Store.Keyed.saved (hs.of_accounts_eq hreleases.requeued.accounts_eq)
  | sweep _ => exact hs

theorem Store.isSome_lockup?_saved {s : Store} {d : Draft} {a : Address}
    (haccounts : d.store.accounts = s.accounts) (h : (s.lockup? a).isSome) :
    (d.saved.lockup? a).isSome := by
  rw [lockup?_saved]
  split
  · rfl
  · unfold lockup? account? at h ⊢
    rw [haccounts]
    exact h

theorem Change.isSome_lockup? {now : Timestamp} {terms : Option Config} {s t : Store} {a : Address}
    (h : Change now terms s t) (ha : (s.lockup? a).isSome) : (t.lockup? a).isSome := by
  cases h with
  | version _ => exact ha
  | configure _ => exact ha
  | register _ => exact ha
  | lock hopens _ hadds =>
    exact Store.isSome_lockup?_saved (hadds.requeued.accounts_eq.trans hopens.accounts_eq) ha
  | extend _ _ hmoves => exact Store.isSome_lockup?_saved hmoves.requeued.accounts_eq ha
  | clear _ hreleases =>
    exact Store.isSome_lockup?_saved hreleases.requeued.accounts_eq ha
  | sweep _ => exact ha

theorem Host.maintains_keyed {host : Host} (h : ∀ s, host.starts s → s.Keyed) :
    host.Maintains fun _ s => s.Keyed where
  starts hs := h _ hs
  follows _ hs := hs
  change hs hchange := hchange.keyed hs
  torn hs _ htorn := hs.of_accounts_eq htorn.2.accounts_eq

theorem Host.Reaches.keyed (h : Host.lenient.Reaches now s) : s.Keyed := by
  have hmaintains : Host.lenient.Maintains fun _ s => s.Keyed :=
    maintains_keyed fun _ hstart => hstart.2.keyed
  exact hmaintains.reaches h

end StakeLock
