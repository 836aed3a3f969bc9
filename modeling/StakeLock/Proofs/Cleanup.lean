import StakeLock.Proofs.Expiry
import StakeLock.Proofs.Mirror

/-!
# Clean-up

To clean a store up is to drop the expired locks of some accounts, and to take some
entries off the queue and off the aggregate. Clean-ups after each other are one clean-up,
of everything that either of them has taken, and what is taken determines what is left.
-/

namespace StakeLock

def Account.unexpired (now : Timestamp) : Account → Account
  | base account => .base account
  | lockup account => .lockup { account with schedule := account.schedule.unexpired now }

@[simp] theorem Account.unexpired_unexpired (now : Timestamp) (account : Account) :
    (account.unexpired now).unexpired now = account.unexpired now := by
  cases account <;> simp [unexpired, Schedule.unexpired_unexpired]

namespace Store

/-- Some accounts have lost their expired locks, and some keys their entries in the queue.
The aggregate went down with the queue, and was written if an entry is gone. -/
structure Cleaned (now : Timestamp) (who : Address → Bool) (gone : QueueKey → Bool)
    (s t : Store) : Prop where
  rest : t = { s with accounts := t.accounts, queue := t.queue, totalLocked := t.totalLocked }
  account? : ∀ a, t.account? a =
    (s.account? a).map fun account => if who a then account.unexpired now else account
  queue : t.queue = s.queue.filter fun e => !gone e.1
  total : s.total.toNat + t.queuedSum = t.total.toNat + s.queuedSum
  written : t.totalLocked.isSome ↔
    s.totalLocked.isSome ∨ ∃ e ∈ s.queue.entries, gone e.1

variable {now : Timestamp} {who who' : Address → Bool} {gone gone' : QueueKey → Bool}
variable {s t u : Store} {a address : Address} {account : LockupAccount} {key : QueueKey}

theorem Cleaned.mem_entries (h : s.Cleaned now who gone t) {e : QueueKey × QueueEntry} :
    e ∈ t.queue.entries ↔ e ∈ s.queue.entries ∧ ¬gone e.1 := by
  rw [h.queue]
  simp [Table.filter, List.mem_filter]

theorem Cleaned.get? (h : s.Cleaned now who gone t) (key : QueueKey) :
    t.queue.get? key = if gone key then none else s.queue.get? key := by
  rw [h.queue, Table.get?_filter]
  by_cases hgone : gone key
  · simp [hgone]
  · cases s.queue.get? key <;> simp [hgone]

theorem Cleaned.lockup? (h : s.Cleaned now who gone t) (a : Address) :
    t.lockup? a = (s.lockup? a).map fun account =>
      if who a then { account with schedule := account.schedule.unexpired now } else account := by
  unfold Store.lockup?
  rw [h.account?]
  cases s.account? a with
  | none => rfl
  | some account => cases account <;> cases who a <;> rfl

theorem cleaned_self
    (hwho : ∀ a account, who a → s.account? a = some account → account.unexpired now = account)
    (hgone : ∀ e ∈ s.queue.entries, ¬gone e.1) : s.Cleaned now who gone s where
  rest := rfl
  account? a := by
    cases haccount : s.account? a with
    | none => rfl
    | some account =>
      by_cases ha : who a
      · simp [ha, hwho a account ha haccount]
      · simp [ha]
  queue := by
    have hall : s.queue.entries.filter (fun e => !gone e.1) = s.queue.entries := by
      rw [List.filter_eq_self]
      intro e he
      simpa using hgone e he
    simp [Table.filter, hall]
  total := rfl
  written := by
    constructor
    · exact .inl
    · rintro (hwritten | ⟨e, he, hkey⟩)
      · exact hwritten
      · exact absurd hkey (hgone e he)

theorem Cleaned.congr (h : s.Cleaned now who gone t)
    (hgone : ∀ e ∈ s.queue.entries, gone e.1 = gone' e.1) : s.Cleaned now who gone' t where
  rest := h.rest
  account? := h.account?
  queue := by
    rw [h.queue]
    unfold Table.filter
    simp only [Table.mk.injEq]
    apply List.filter_congr
    intro e he
    rw [hgone e he]
  total := h.total
  written := by
    rw [h.written]
    constructor
    · rintro (hwritten | ⟨e, he, hkey⟩)
      · exact .inl hwritten
      · exact .inr ⟨e, he, hgone e he ▸ hkey⟩
    · rintro (hwritten | ⟨e, he, hkey⟩)
      · exact .inl hwritten
      · exact .inr ⟨e, he, (hgone e he).symm ▸ hkey⟩

theorem Cleaned.trans (h : s.Cleaned now who gone t) (h' : t.Cleaned now who' gone' u) :
    s.Cleaned now (fun a => who a || who' a) (fun key => gone key || gone' key) u where
  rest := by
    rw [h'.rest, h.rest]
  account? a := by
    rw [h'.account?, h.account?, Option.map_map]
    cases s.account? a with
    | none => rfl
    | some account => cases who a <;> cases who' a <;> simp
  queue := by
    rw [h'.queue, h.queue]
    unfold Table.filter
    simp only [List.filter_filter, Table.mk.injEq]
    apply List.filter_congr
    intro e _
    rw [Bool.not_or, Bool.and_comm]
  total := by
    have := h.total
    have := h'.total
    omega
  written := by
    rw [h'.written, h.written]
    constructor
    · rintro ((hwritten | ⟨e, he, hkey⟩) | ⟨e, he, hkey⟩)
      · exact .inl hwritten
      · exact .inr ⟨e, he, by simp [hkey]⟩
      · exact .inr ⟨e, (h.mem_entries.1 he).1, by simp [hkey]⟩
    · rintro (hwritten | ⟨e, he, hkey⟩)
      · exact .inl (.inl hwritten)
      · by_cases hfirst : gone e.1
        · exact .inl (.inr ⟨e, he, hfirst⟩)
        · rw [Bool.eq_false_iff.2 hfirst, Bool.false_or] at hkey
          exact .inr ⟨e, h.mem_entries.2 ⟨he, hfirst⟩, hkey⟩

/-- What is taken determines what is left. -/
theorem Cleaned.unique (h : s.Cleaned now who gone t) (h' : s.Cleaned now who gone u) : t = u := by
  have haccounts : t.accounts = u.accounts := by
    apply Table.ext_get?
    intro a
    exact (h.account? a).trans (h'.account? a).symm
  have hqueue : t.queue = u.queue := h.queue.trans h'.queue.symm
  have htotal : t.totalLocked = u.totalLocked := by
    apply totalLocked_eq
    · have hleft := h.total
      have hleft' := h'.total
      unfold queuedSum at hleft hleft'
      rw [hqueue] at hleft
      omega
    · exact h.written.trans h'.written.symm
  rw [h.rest, h'.rest, haccounts, hqueue, htotal]

/-! ## Releasing and saving -/

theorem cleaned_dequeue {amount total : Amount} (hget : s.queue.get? key = some (.holds amount))
    (htotal : s.total.toNat = amount.toNat + total.toNat) :
    s.Cleaned now (fun _ => false) (fun k => k = key) ((s.dequeue key).setTotal total) where
  rest := rfl
  account? a := by
    change s.account? a = _
    simp
  queue := by
    apply Table.ext_get?
    intro k
    change (s.queue.erase key).get? k = _
    rw [Table.get?_erase, Table.get?_filter]
    by_cases hk : k = key
    · simp [hk]
    · cases s.queue.get? k <;> simp [hk, Option.filter]
  total := by
    have hsum := s.queuedSum_dequeue key
    rw [queuedAt_of_get? hget] at hsum
    rw [queuedSum_setTotal, total_setTotal]
    omega
  written := by
    constructor
    · intro _
      exact .inr ⟨(key, .holds amount), Table.get?_eq_some_iff.1 hget, by simp⟩
    · intro _
      rfl

/-- The keys under which some locks of an account are queued. -/
def keysOf (address : Address) (locks : List Lock) (key : QueueKey) : Bool :=
  key.address = address && locks.any fun l => unlockTime? l.date = some key.time

theorem keysOf_iff {locks : List Lock} : keysOf address locks key ↔
    key.address = address ∧ ∃ l ∈ locks, unlockTime? l.date = some key.time := by
  simp [keysOf]

theorem keysOf_singleton {lock : Lock} {time : Nat} (h : unlockTime? lock.date = some time) :
    keysOf address [lock] key = decide (key = ⟨time, address⟩) := by
  obtain ⟨t, a⟩ := key
  simp [keysOf, h, Bool.and_comm, eq_comm]

theorem Cleaned.cons {lock : Lock} {locks : List Lock}
    (h : s.Cleaned now (fun _ => false) (keysOf address [lock]) t)
    (h' : t.Cleaned now (fun _ => false) (keysOf address locks) u) :
    s.Cleaned now (fun _ => false) (keysOf address (lock :: locks)) u := by
  refine (h.trans h').congr fun e _ => ?_
  simp [keysOf, Bool.and_or_distrib_left]

/-- Releasing the locks of an account takes their entries from the queue, as far as these
are still there. -/
theorem Releases.cleaned {locks : List Lock} (h : s.Releases address locks t) :
    s.Cleaned now (fun _ => false) (keysOf address locks) t := by
  induction h with
  | nil => exact cleaned_self (by simp) (by simp [keysOf])
  | undated hnone _ ih => exact (cleaned_self (by simp) (by simp [keysOf, hnone])).cons ih
  | absent hdate hnone _ ih =>
    refine (cleaned_self (by simp) fun e he => ?_).cons ih
    rw [keysOf_singleton hdate, decide_eq_true_iff]
    intro hkey
    rw [Table.mem_entries_iff, hkey, hnone] at he
    cases he
  | taken hdate hget htotal _ ih =>
    refine ((cleaned_dequeue hget htotal).congr fun e _ => ?_).cons ih
    rw [keysOf_singleton hdate]

theorem Cleaned.saved (h : s.Cleaned now (fun _ => false) gone t) (hs : s.Keyed)
    (haccount : s.lockup? address = some account) :
    s.Cleaned now (fun a => a = address) gone
      (Draft.saved ⟨{ account with schedule := account.schedule.unexpired now }, t⟩) where
  rest := by
    rw [h.rest]
    rfl
  account? a := by
    have haddress : account.address = address := hs.lockup_address haccount
    rw [account?_saved]
    change (if a = account.address then _ else t.account? a) = _
    rw [haddress, h.account?]
    by_cases ha : a = address
    · rw [ha, account?_eq_of_lockup? haccount]
      simp [Account.unexpired]
    · simp [ha]
  queue := h.queue
  total := h.total
  written := h.written

end Store

end StakeLock
