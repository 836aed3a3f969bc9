import StakeLock.Proofs.Capacity

/-!
# Stores under effects

An account that is opened, changed by an effect and saved again leaves everything else as it
was, up to the aggregate and to the account number that a new account takes. The store that
results is determined by the effect, since a schedule is by its amounts, and so is a queue.
-/

namespace StakeLock

namespace Store

variable {now : Timestamp} {s t opened : Store} {address a : Address} {account : LockupAccount}
variable {e : Effect} {date : Date} {time : Nat} {key : QueueKey}

theorem Opens.queuedAt_eq (h : s.Opens address account opened) (key : QueueKey) :
    opened.queuedAt key = s.queuedAt key := by
  unfold queuedAt
  rw [h.queue_eq]

theorem Dated.get?_eq (hs : s.Dated) (ht : t.Dated)
    (h : ∀ {date}, unlockTime? date = some key.time → t.queuedAt key = s.queuedAt key) :
    t.queue.get? key = s.queue.get? key := by
  cases hget : s.queue.get? key with
  | some entry =>
    obtain ⟨date, x, hdate, rfl, hne⟩ := hs key entry hget
    apply ht.get?_of_queuedAt _ hne
    rw [h hdate, queuedAt_of_get? hget]
  | none =>
    cases hget' : t.queue.get? key with
    | none => rfl
    | some entry =>
      obtain ⟨date, x, hdate, rfl, hne⟩ := ht key entry hget'
      have hstays := hs.get?_of_queuedAt ((h hdate).symm.trans (queuedAt_of_get? hget')) hne
      rw [hget] at hstays
      cases hstays

/-- The account of an address is opened, changed by an effect, and saved. -/
def Undergoes (s : Store) (address : Address) (e : Effect) (t : Store) : Prop :=
  ∃ account opened d, s.Opens address account opened ∧ Draft.Alters e ⟨account, opened⟩ d ∧
    t = d.saved

/-- An effect on what a draft has been saved as comes to the same before the draft is saved. -/
theorem alters_of_saved {d d' : Draft} (h : Draft.Alters e ⟨d.account, d.saved⟩ d') :
    ∃ d'', Draft.Alters e d d'' ∧ d''.saved = d'.saved := by
  obtain ⟨queue, total, hrequeued⟩ := h.requeued
  refine ⟨⟨d'.account, d.store.withQueue queue total⟩, ⟨h.base, ⟨_, _, rfl⟩, h.locked, ?_, ?_, ?_,
    ?_⟩, ?_⟩
  · intro date time hdate
    have hqueued := h.queued hdate
    rw [hrequeued] at hqueued
    exact hqueued
  · intro key hkey
    have hothers := h.others key hkey
    rw [hrequeued] at hothers
    exact hothers
  · have htotal := h.total
    rw [hrequeued] at htotal
    exact htotal
  · have hwritten := h.written
    rw [hrequeued] at hwritten
    exact hwritten
  · unfold Draft.saved
    rw [hrequeued]
    unfold Draft.saved withQueue putAccount Account.address
    simp only [h.address_eq, Table.insert_insert]

theorem Undergoes.trans {u : Store} {e' : Effect} (hs : s.Keyed) (h : s.Undergoes address e t)
    (h' : t.Undergoes address e' u) : s.Undergoes address (e.add e') u := by
  obtain ⟨account, opened, d, hopens, halters, rfl⟩ := h
  obtain ⟨account', opened', d', hopens', halters', rfl⟩ := h'
  have haddress : d.account.address = address := halters.address_eq.trans (hopens.address_eq hs)
  have hstored : d.saved.account? address = some (.lockup d.account) := by
    rw [account?_saved, if_pos haddress.symm]
  cases hopens' with
  | registered hnone _ => cases hstored.symm.trans hnone
  | upgraded hsome =>
    cases hstored.symm.trans hsome
    obtain ⟨d'', halters'', hsaved⟩ := alters_of_saved halters'
    exact ⟨account, opened, d'', hopens, halters.trans halters'', hsaved.symm⟩

theorem Undergoes.total_eq (h : s.Undergoes address e t) :
    t.total.toNat = s.total.toNat + e.gain := by
  obtain ⟨account, opened, d, hopens, halters, rfl⟩ := h
  rw [← hopens.total_eq]
  exact halters.total

theorem Undergoes.isSome_totalLocked (h : s.Undergoes address e t) :
    t.totalLocked.isSome ↔ s.totalLocked.isSome ∨ 0 < e.gain := by
  obtain ⟨account, opened, d, hopens, halters, rfl⟩ := h
  have hwritten := halters.written
  cases hopens <;> exact hwritten

section

variable (hs : s.Keyed) (h : s.Undergoes address e t)

include hs h

/-- The account keeps what identifies it. Beside the accounts, the queue and the aggregate
only a number can have been taken. -/
theorem Undergoes.exists_opens : ∃ account opened x, s.Opens address account opened ∧
    t.account? address = some (.lockup x) ∧ x.base = account.base ∧
    t = { opened with accounts := t.accounts, queue := t.queue, totalLocked := t.totalLocked } := by
  obtain ⟨account, opened, d, hopens, halters, rfl⟩ := h
  have haddress : d.account.address = address := halters.address_eq.trans (hopens.address_eq hs)
  refine ⟨account, opened, d.account, hopens, ?_, halters.base, ?_⟩
  · rw [account?_saved, if_pos haddress.symm]
  · obtain ⟨queue, total, hrequeued⟩ := halters.requeued
    unfold Draft.saved
    rw [hrequeued]
    rfl

theorem Undergoes.config_eq : t.config = s.config := by
  obtain ⟨account, opened, x, hopens, -, -, hrest⟩ := h.exists_opens hs
  rw [hrest]
  exact hopens.config_eq

theorem Undergoes.account?_of_ne (hne : a ≠ address) : t.account? a = s.account? a := by
  obtain ⟨account, opened, d, hopens, halters, rfl⟩ := h
  have haddress : d.account.address = address := halters.address_eq.trans (hopens.address_eq hs)
  rw [account?_saved, haddress, if_neg hne]
  unfold account?
  rw [halters.requeued.accounts_eq, hopens.accounts_eq]

theorem Undergoes.get?_of_ne (hne : key.address ≠ address) :
    t.queue.get? key = s.queue.get? key := by
  obtain ⟨account, opened, d, hopens, halters, rfl⟩ := h
  rw [← hopens.queue_eq]
  apply halters.others
  rw [hopens.address_eq hs]
  exact hne

theorem Undergoes.lockedOn_add (date : Date) :
    t.lockedOn address date + e.taken date = s.lockedOn address date + e.given date := by
  obtain ⟨account, opened, d, hopens, halters, rfl⟩ := h
  have haddress : d.account.address = address := halters.address_eq.trans (hopens.address_eq hs)
  have hbefore : account.schedule.amountOn date = s.lockedOn address date :=
    hopens.amountWhere_eq _
  rw [lockedOn_saved, if_pos haddress.symm, ← hbefore]
  exact halters.locked date

theorem Undergoes.queuedAt_add (hdate : unlockTime? date = some time) :
    t.queuedAt ⟨time, address⟩ + e.taken date = s.queuedAt ⟨time, address⟩ + e.given date := by
  obtain ⟨account, opened, d, hopens, halters, rfl⟩ := h
  have hqueued := halters.queued hdate
  rw [queuedAt_saved, ← hopens.queuedAt_eq]
  simp only [hopens.address_eq hs] at hqueued
  exact hqueued

end

end Store

end StakeLock
