import StakeLock.Proofs.Capacity
import StakeLock.Proofs.Extension

/-!
# Failed requests for locks

A request for locks is checked before anything is written, except that an address without
an account gets its account number before the locks are held against its delegations. If
they are not covered, the number stays taken.
-/

namespace StakeLock

namespace Store

variable {now : Timestamp} {s t opened : Store} {address : Address} {account : LockupAccount}
variable {locks : List (Date × Amount)} {fault : Fault LockError}

/-- The store after an account number has been taken. -/
def numbered (s : Store) : Store :=
  { s with nextAccountNumber := some (s.nextAccountNumber.getD 0 + 1) }

theorem Opens.eq_or_numbered (h : s.Opens address account opened) :
    opened = s ∨ s.account? address = none ∧ opened = s.numbered := by
  cases h with
  | upgraded _ => exact .inl rfl
  | registered hnone _ => exact .inr ⟨hnone, rfl⟩

variable {σ : Type} [HostLedger σ] {ledger : σ}

/-- While the queue mirrors the schedules, locks that there is room for are not added in
part: if locking fails, then before the first of them. -/
theorem Mirrors.of_lockFails (h : s.Mirrors now)
    (hlocks : ∀ l ∈ locks, blockDate now ≤ l.1 ∧ l.2 ≠ Amount.zero) (hfits : s.Fits address locks)
    (hfails : LockFails now ledger s address locks fault t) :
    t = s ∨ s.account? address = none ∧ t = s.numbered := by
  cases hfails with
  | unnumbered _ => exact .inl rfl
  | unmeasured hopens _ _ => exact hopens.eq_or_numbered
  | untold hopens _ => exact hopens.eq_or_numbered
  | uncovered hopens _ _ _ => exact hopens.eq_or_numbered
  | broken hopens hrun _ => exact absurd hrun (h.addLocks_ne_error hlocks hfits hopens)

end Store

section

variable {σ : Type} [HostLedger σ] {ledger : σ} {now : Timestamp} {s t : Store}
variable {address : Address} {locks : List (Date × Amount)} {fault : Fault LockError}

theorem LockFails.exists_requeued (h : LockFails now ledger s address locks fault t) :
    ∃ m, (m = s ∨ m = s.numbered) ∧ m.Requeued t := by
  have hopened : ∀ {account opened}, s.Opens address account opened →
      opened = s ∨ opened = s.numbered :=
    fun hopens => hopens.eq_or_numbered.imp_right And.right
  cases h with
  | unnumbered _ => exact ⟨s, .inl rfl, s.requeued_self⟩
  | unmeasured hopens _ _ => exact ⟨t, hopened hopens, t.requeued_self⟩
  | untold hopens _ => exact ⟨t, hopened hopens, t.requeued_self⟩
  | uncovered hopens _ _ _ => exact ⟨t, hopened hopens, t.requeued_self⟩
  | broken hopens _ htorn => exact ⟨_, hopened hopens, htorn.2⟩

theorem LockFails.accounts_eq (h : LockFails now ledger s address locks fault t) :
    t.accounts = s.accounts := by
  obtain ⟨m, rfl | rfl, hrequeued⟩ := h.exists_requeued <;> exact hrequeued.accounts_eq

theorem LockFails.config_eq (h : LockFails now ledger s address locks fault t) :
    t.config = s.config := by
  obtain ⟨m, rfl | rfl, hrequeued⟩ := h.exists_requeued <;> exact hrequeued.config_eq

end

section

variable {σ : Type} [HostLedger σ] [AddressRule] {c c' : Chain σ} {last now : Timestamp}

/-- A request for locks that fails changes neither the ledger nor an account, and nothing
at all if it cannot be planned. If it can be, and if there is room for its locks, a failure
leaves the store as it was, but for the number of the account that the sender did not have. -/
theorem failed_lock_takes_number_at_most (h : Host.anyTotal.Reaches last c.store)
    (hnow : last ≤ now) {sender : Address} {entries : List LockEntry} {fault : Fault LockError}
    (hrun : (execute now sender (.lock entries)).run c = .error fault c') :
    c'.ledger = c.ledger ∧ c'.store.accounts = c.store.accounts ∧
    (∀ reason, planLock now entries c = .error reason → c' = c) ∧
    ∀ plan, planLock now entries c = .ok plan → c.store.Fits sender plan.locks →
      c'.store = c.store ∨ c.store.account? sender = none ∧ c'.store = c.store.numbered := by
  have hs : c.store.Mirrors now := h.mirrors hnow
  rcases ends_executeLock_planned.of_error hrun with
    ⟨rfl, reason, hnone⟩ | ⟨plan, hplan, hledger, hfails⟩
  · exact ⟨rfl, rfl, fun _ _ => rfl, fun _ _ _ => .inl rfl⟩
  · have hlocks := of_planLock hplan
    refine ⟨hledger, hfails.accounts_eq, ?_, ?_⟩
    · intro reason hnone
      cases hplan.symm.trans hnone
    · intro plan' hplan' hfits
      cases hplan.symm.trans hplan'
      exact hs.of_lockFails hlocks hfits hfails

end

namespace FirstLock

def excess : Coin := ⟨"stake", ⟨60, by decide⟩⟩

def excessPlan : LockPlan := ⟨"stake", [(⟨90, by decide, by decide⟩, excess.amount)]⟩

theorem excess_fits : chain.store.Fits alice excessPlan.locks := by
  have hholder : chain.store.lockup? alice = some holder := by decide +kernel
  refine ⟨by decide +kernel, fun date => ?_⟩
  unfold Store.lockedOn
  rw [Store.lockedWhere_of_lockup? hholder]
  simp only [Schedule.amountWhere, Schedule.weight, holder, excessPlan, List.map_cons,
    List.map_nil, List.sum_cons, List.sum_nil, decide_eq_true_eq]
  split <;> split <;> decide

end FirstLock

open FirstLock in
/-- Alice has an account, so nothing is written when she asks for too much. -/
theorem excess_lock_writes_nothing : ∃ fault c',
    (execute block.time alice (.lock [⟨"1970-04-01", excess⟩])).run chain = .error fault c' ∧
      c'.store = chain.store := by
  have hfails : ¬succeeds ((execute block.time alice (.lock [⟨"1970-04-01", excess⟩])).run
      chain) := by decide +kernel
  obtain ⟨fault, hrun⟩ := exists_error_of_not_succeeds hfails
  have hplan : planLock block.time [⟨"1970-04-01", excess⟩] chain = .ok excessPlan := by
    decide +kernel
  obtain ⟨-, -, -, hleft⟩ :=
    failed_lock_takes_number_at_most reached.anyTotal (Nat.le_refl _) hrun
  rcases hleft excessPlan hplan excess_fits with hsame | ⟨hnone, -⟩
  · exact ⟨fault, _, hrun, hsame⟩
  · have hstored : chain.store.account? alice ≠ none := by decide +kernel
    exact absurd hnone hstored

open FirstLock in
/-- Bob has neither an account nor delegations. His lock is refused, and yet the next
account number is gone. -/
theorem unfunded_lock_takes_number : Host.anyTotal.Reaches block.time chain.store ∧
    ∃ c', (execute block.time ⟨"bob"⟩ (.lock [⟨"1970-03-01", stake⟩])).run chain =
        .error (.refused (.lockExceedsDelegations Amount.zero stake.amount)) c' ∧
      c'.store = chain.store.numbered ∧ c'.store ≠ chain.store := by
  refine ⟨reached.anyTotal, ?_⟩
  have hrefused : outcome ((execute block.time ⟨"bob"⟩ (.lock [⟨"1970-03-01", stake⟩])).run
      chain) = .error (.refused (.lockExceedsDelegations Amount.zero stake.amount)) := by
    decide +kernel
  refine ⟨_, eq_error_of_outcome hrefused, ?_, ?_⟩
  · decide +kernel
  · decide +kernel

end StakeLock
