import StakeLock.Proofs.Capacity
import StakeLock.Proofs.Exchange
import StakeLock.Proofs.FanOut

/-!
# Payments that get their lock

The funds of a payment are delegated for its recipient, and locked if the delegations of
the recipient cover them. Tokens that went into shares may come back as one token less, so
a payment whose funds have been sent and delegated can still go without its lock.
-/

namespace StakeLock

namespace Store

variable {now : Timestamp} {s t opened : Store} {address : Address} {account : LockupAccount}

/-- A lock is added to what an address has locked, to the queue and to the aggregate, and
nothing else is locked, queued or counted. -/
structure Records (s : Store) (address : Address) (date : Date) (amount : Amount) (t : Store) :
    Prop where
  account : (t.lockup? address).isSome
  locked : ∀ a d, t.lockedOn a d =
    s.lockedOn a d + if a = address ∧ d = date then amount.toNat else 0
  queued : ∃ time, unlockTime? date = some time ∧ ∀ key, t.queuedAt key =
    s.queuedAt key + if key = ⟨time, address⟩ then amount.toNat else 0
  total : t.total.toNat = s.total.toNat + amount.toNat

theorem Opens.lockedSum_eq (h : s.Opens address account opened) :
    account.schedule.lockedSum now = s.lockedSum address now := by
  rw [lockedSum_eq_lockedWhere, ← h.amountWhere_eq, Schedule.lockedSum_eq_amountWhere]

end Store

theorem Locks.records {now : Timestamp} {ledger : StrictLedger} {address : Address} {date : Date}
    {amount : Amount} {s t : Store} (hs : s.Keyed)
    (h : Locks now ledger address [(date, amount)] s t) : s.Records address date amount t := by
  have haccount := h.isSome_lockup? hs
  obtain ⟨account, opened, d, delegated, hopens, hadds, rfl, -, -⟩ := h
  have hlocked := hadds.lockedWhere_saved hs hopens
  have haddress : account.address = address := hopens.address_eq hs
  cases hadds with
  | cons htime hupsert hqueued htotal hrest =>
    rename_i time schedule queued total
    cases hrest
    rw [haddress] at hqueued
    have hat : ∀ key, opened.queuedAt key = s.queuedAt key := by
      intro key
      unfold Store.queuedAt
      rw [hopens.queue_eq]
    refine ⟨haccount, fun a e => ?_, ⟨time, htime, fun key => ?_⟩, ?_⟩
    · unfold Store.lockedOn
      rw [hlocked]
      by_cases ha : a = address
      · simp [ha, eq_comm]
      · simp [ha]
    · rw [Store.queuedAt_saved]
      simp only
      rw [haddress, Store.queuedAt_setTotal, Store.queuedAt_enqueue, ← hqueued, hat, hat]
      split
      · rename_i hkey
        rw [hkey]
      · rfl
    · rw [← hopens.total_eq]
      exact htotal.symm

section

variable {σ : Type} [HostLedger σ] {c : Chain σ}
variable {now : Timestamp} {sender address : Address} {locks : List (Date × Amount)}

/-- While the queue mirrors the schedules, and with room for the locks, locking comes down
to two questions: whether there is an account or a number for one, and whether the
delegations cover the locks. -/
theorem Store.Mirrors.ends_lockDelegated (h : c.store.Mirrors now)
    (hlocks : ∀ l ∈ locks, blockDate now ≤ l.1 ∧ l.2 ≠ Amount.zero)
    (hfits : c.store.Fits address locks)
    (hmeasured : c.store.lockedSum address now + (locks.map fun l => l.2.toNat).sum < 2 ^ 128)
    {delegated : Amount} (htold : totalDelegated c.ledger address = .ok delegated) : Ends
    (fun _ c' => c.store.Openable address ∧
      c.store.lockedSum address now + (locks.map fun l => l.2.toNat).sum ≤ delegated.toNat ∧
      Locks now c.ledger address locks c.store c'.store)
    (fun fault _ => c.store.Openable address → ∃ locked,
      c.store.lockedSum address now + (locks.map fun l => l.2.toNat).sum = locked.toNat ∧
      delegated < locked ∧ fault = .refused (.lockExceedsDelegations delegated locked))
    ((lockDelegated now address locks).run c) := by
  refine (ends_lockDelegated_fails fun l hl => (hlocks l hl).1).mono ?_ ?_
  · rintro _ c' ⟨-, hlocked⟩
    have hall := hlocked
    obtain ⟨account, opened, d, told, hopens, -, -, htold', hle⟩ := hall
    cases htold.symm.trans htold'
    rw [hopens.lockedSum_eq] at hle
    exact ⟨hopens.openable, hle, hlocked⟩
  · rintro fault c' ⟨-, hfails⟩ hopenable
    generalize c'.store = t at hfails
    cases hfails with
    | unnumbered hnone => exact absurd hopenable hnone
    | unmeasured hopens hlarge _ =>
      rw [hopens.lockedSum_eq] at hlarge
      exact absurd hmeasured (Nat.not_lt.2 hlarge)
    | untold _ hnone => cases htold.symm.trans hnone
    | uncovered hopens htold' hlocked hlt =>
      cases htold.symm.trans htold'
      rw [hopens.lockedSum_eq] at hlocked
      exact ⟨_, hlocked, hlt, rfl⟩
    | broken hopens hrun _ => exact absurd hrun (h.addLocks_ne_error hlocks hfits hopens)

theorem ends_pay_of_delegated {bondDenom : String} {payment : CheckedPayment} {sent bonded : σ}
    {new : Shares} {P : List Event → Chain σ → Prop} {E : Fault LockError → Chain σ → Prop}
    (hsent : (HostLedger.sendCoins sender payment.recipient [⟨bondDenom, payment.amount⟩]).run
      c.ledger = .ok () sent)
    (hbonded : (HostLedger.delegate payment.recipient payment.validator payment.amount).run sent =
      .ok new bonded)
    (h : Ends (fun _ c' => ∀ events, P events c') E
      ((lockDelegated now payment.recipient [(payment.date, payment.amount)]).run
        ⟨c.journal, bonded⟩)) :
    Ends P E ((pay now sender bondDenom payment).run c) := by
  unfold pay
  simp only
  rw [ends_bind, ChainM.ends_onLedger, hsent, ends_ok, ends_bind, ChainM.ends_onLedger, hbonded,
    ends_ok, ends_bind]
  exact h.mono_ok fun _ _ hP => hP _

end

section

variable [AddressRule] {c c' : Chain StrictLedger} {now last : Timestamp} {sender : Address}
variable {payment : LockedPayment} {checked : CheckedPayment} {new : Shares}
variable {bonded : StrictLedger} {before : Amount}

/-- A payment passes its check, and its funds are sent and delegated. All delegations of the
recipient are counted, and nothing gets too large for an amount. -/
structure LockedPayment.Delegates (payment : LockedPayment) (now : Timestamp) (sender : Address)
    (c : Chain StrictLedger) (checked : CheckedPayment) (new : Shares) (bonded : StrictLedger) :
    Prop where
  valid : ∃ config, c.store.config = some config ∧ payment.check config c.ledger now = .ok checked
  delegated : ∃ sent, (HostLedger.sendCoins sender checked.recipient
      [⟨c.ledger.books.denom, checked.amount⟩]).run c.ledger = .ok () sent ∧
    (HostLedger.delegate checked.recipient checked.validator checked.amount).run sent =
      .ok new bonded
  counted : (c.ledger.books.delegationsOf checked.recipient maxDelegations).length <
    maxDelegations
  fits : c.store.Fits checked.recipient [(checked.date, checked.amount)]
  measured : c.store.lockedSum checked.recipient now + checked.amount.toNat < 2 ^ 128
  told : bonded.books.delegatedSum checked.recipient < 2 ^ 128

theorem LockedPayment.Delegates.amount_pos (h : payment.Delegates now sender c checked new bonded) :
    0 < checked.amount.toNat := by
  obtain ⟨config, -, hchecked⟩ := h.valid
  exact Amount.toNat_pos (LockedPayment.of_check hchecked).2.1

theorem LockedPayment.Delegates.exists_bond
    (h : payment.Delegates now sender c checked new bonded)
    (hbefore : totalDelegated c.ledger checked.recipient = .ok before) :
    ∃ (books : Books) (v : Validator),
      c.ledger.books.validators.get? checked.validator = some v ∧
      books.validators.get? checked.validator = some v ∧
      books.bond? checked.recipient checked.validator v checked.amount =
        some (new, bonded.books) ∧
      totalDelegated (StrictLedger.mk books) checked.recipient = .ok before ∧
      (books.owned checked.recipient).length < maxDelegations := by
  obtain ⟨sent, hsent, hbonded⟩ := h.delegated
  have htransfer := StrictLedger.ends_sendCoins.of_ok hsent
  obtain ⟨v, hv, hbond⟩ := StrictLedger.ends_delegate.of_ok hbonded
  refine ⟨sent.books, v, htransfer.validators ▸ hv, hv, hbond, ?_, ?_⟩
  · exact (htransfer.totalDelegated_eq _).trans hbefore
  · apply Books.length_owned_lt
    unfold Books.delegationsOf
    rw [htransfer.delegations]
    exact h.counted

/-- What the recipient has delegated is told after its funds have been bonded. It has grown
by what was bonded if the shares came out even, and by one token less at worst, unless a unit
of a share is worth more than a token. -/
theorem LockedPayment.Delegates.exists_told
    (h : payment.Delegates now sender c checked new bonded)
    (hbefore : totalDelegated c.ledger checked.recipient = .ok before) :
    ∃ after, totalDelegated bonded checked.recipient = .ok after ∧
      ∀ v, c.ledger.books.validators.get? checked.validator = some v →
        (0 < new.atomics.toNat → new.atomics.toNat * v.tokens.toNat =
          checked.amount.toNat * v.shares.atomics.toNat →
          before.toNat + checked.amount.toNat ≤ after.toNat) ∧
        (0 < v.tokens.toNat → v.tokens.toNat ≤ v.shares.atomics.toNat →
          before.toNat + checked.amount.toNat ≤ after.toNat + 1) := by
  obtain ⟨books, v, hknown, hv, hbond, htold, hfew⟩ := h.exists_bond hbefore
  obtain ⟨after, hafter⟩ := Books.exists_totalDelegated_of_bond hbond htold hfew h.told
  refine ⟨after, hafter, fun w hw => ?_⟩
  cases hknown.symm.trans hw
  rw [Books.toNat_of_totalDelegated htold, Books.toNat_of_totalDelegated hafter]
  constructor
  · intro hpos heven
    exact Books.add_le_delegatedSum_of_even hv hbond hfew hpos heven
  · intro htokens hrate
    exact Books.add_le_delegatedSum_of_rounded hv hbond hfew h.amount_pos htokens hrate

theorem LockedPayment.Delegates.ends_execute
    (h : payment.Delegates now sender c checked new bonded) (hs : c.store.Mirrors now)
    {after : Amount} (hafter : totalDelegated bonded checked.recipient = .ok after) : Ends
    (fun _ c' => c.store.Openable checked.recipient ∧
      c.store.lockedSum checked.recipient now + checked.amount.toNat ≤ after.toNat ∧
      c.store.Records checked.recipient checked.date checked.amount c'.store)
    (fun fault _ => c.store.Openable checked.recipient → ∃ locked,
      c.store.lockedSum checked.recipient now + checked.amount.toNat = locked.toNat ∧
      after < locked ∧ fault = .refused (.lockExceedsDelegations after locked))
    ((execute now sender (.pay payment)).run c) := by
  obtain ⟨config, hconfig, hchecked⟩ := h.valid
  obtain ⟨sent, hsent, hbonded⟩ := h.delegated
  obtain ⟨hdate, hamount, -⟩ := LockedPayment.of_check hchecked
  have hpayable : checked.Payable (some config) now := ⟨hdate, hamount⟩
  have hlocked := Store.Mirrors.ends_lockDelegated (c := ⟨c.journal, bonded⟩) hs hpayable.locks
    h.fits h.measured hafter
  simp only [List.map_cons, List.map_nil, List.sum_singleton] at hlocked
  rw [run_execute_pay hconfig, ends_bind, ends_accept]
  refine ⟨fun same hsame => ?_, fun reason hnone => ?_⟩
  · cases hchecked.symm.trans hsame
    rw [ends_bind]
    refine ends_pay_of_delegated hsent hbonded (hlocked.mono_ok ?_)
    rintro _ c' ⟨hopenable, hcovered, hall⟩ events
    exact ⟨hopenable, hcovered, hall.records hs.keyed⟩
  · cases hchecked.symm.trans hnone

/-- On every strict ledger, in a store that a host with an orderly clock can reach: when a
payment has passed its check and its funds have been sent and delegated for a recipient whose
delegations covered what it had locked, the payment succeeds exactly if the recipient has an
account or can get one, and its delegations then cover the payment as well. If so, the lock
is recorded; if they do not cover it, the payment is refused for that. They do cover it where
the shares came out even, and if there was a token to spare for the rounding and no unit of
a share was worth more than that. -/
theorem delegated_payment_locked_iff_covered (h : Host.anyTotal.Reaches last c.store)
    (hnow : last ≤ now) (hpayment : payment.Delegates now sender c checked new bonded)
    (hbefore : totalDelegated c.ledger checked.recipient = .ok before)
    (hcovered : c.store.lockedSum checked.recipient now ≤ before.toNat) :
    ∃ after, totalDelegated bonded checked.recipient = .ok after ∧
      ((∃ response c', (execute now sender (.pay payment)).run c = .ok response c') ↔
        c.store.Openable checked.recipient ∧
        c.store.lockedSum checked.recipient now + checked.amount.toNat ≤ after.toNat) ∧
      (∀ response c', (execute now sender (.pay payment)).run c = .ok response c' →
        c.store.Records checked.recipient checked.date checked.amount c'.store) ∧
      (∀ fault c', (execute now sender (.pay payment)).run c = .error fault c' →
        c.store.Openable checked.recipient → ∃ locked,
          c.store.lockedSum checked.recipient now + checked.amount.toNat = locked.toNat ∧
          fault = .refused (.lockExceedsDelegations after locked)) ∧
      ∀ v, c.ledger.books.validators.get? checked.validator = some v →
        (0 < new.atomics.toNat → new.atomics.toNat * v.tokens.toNat =
          checked.amount.toNat * v.shares.atomics.toNat →
          c.store.lockedSum checked.recipient now + checked.amount.toNat ≤ after.toNat) ∧
        (0 < v.tokens.toNat → v.tokens.toNat ≤ v.shares.atomics.toNat →
          c.store.lockedSum checked.recipient now < before.toNat →
          c.store.lockedSum checked.recipient now + checked.amount.toNat ≤ after.toNat) := by
  have hs : c.store.Mirrors now := h.mirrors hnow
  obtain ⟨after, hafter, hgain⟩ := hpayment.exists_told hbefore
  have hends := hpayment.ends_execute hs hafter
  refine ⟨after, hafter, ⟨?_, ?_⟩, ?_, ?_, ?_⟩
  · rintro ⟨response, c', hrun⟩
    obtain ⟨hopenable, hcovers, -⟩ := hends.of_ok hrun
    exact ⟨hopenable, hcovers⟩
  · rintro ⟨hopenable, hcovers⟩
    cases hrun : (execute now sender (.pay payment)).run c with
    | ok response c' => exact ⟨response, c', rfl⟩
    | error fault c' =>
      obtain ⟨locked, hlocked, hlt, -⟩ := hends.of_error hrun hopenable
      rw [hlocked] at hcovers
      exact absurd hlt (Nat.not_lt.2 hcovers)
  · intro response c' hrun
    exact (hends.of_ok hrun).2.2
  · intro fault c' hrun hopenable
    obtain ⟨locked, hlocked, -, hfault⟩ := hends.of_error hrun hopenable
    exact ⟨locked, hlocked, hfault⟩
  · intro v hv
    obtain ⟨heven, hrounded⟩ := hgain v hv
    constructor
    · intro hpos heq
      have := heven hpos heq
      omega
    · intro htokens hrate hspare
      have := hrounded htokens hrate
      omega

end

namespace FirstLock

theorem slashed_reached : Host.anyTotal.Reaches block.time slashed.store := by
  rw [slashed_store]
  exact reached.anyTotal

def toBob (amount : Amount) : LockedPayment := ⟨"bob", "val", amount, "1970-02-01"⟩

def toBobChecked (amount : Amount) : CheckedPayment :=
  ⟨bob, "val", amount, ⟨31, by decide, by decide⟩⟩

/-- The ledger after an amount has gone from alice to bob. -/
def sentToBob (amount : Amount) : StrictLedger :=
  finalState ((HostLedger.sendCoins alice bob [⟨"stake", amount⟩]).run slashed.ledger)

/-- The ledger after it has been delegated for him. -/
def bondedForBob (amount : Amount) : StrictLedger :=
  finalState ((HostLedger.delegate bob "val" amount).run (sentToBob amount))

theorem toBob_delegates {amount : Amount} {new : Shares}
    (hchecked : (toBob amount).check ⟨alice, 0, 24, 100⟩ slashed.ledger block.time =
      .ok (toBobChecked amount))
    (hsent : outcome ((HostLedger.sendCoins alice bob [⟨"stake", amount⟩]).run slashed.ledger) =
      .ok ())
    (hbonded : outcome ((HostLedger.delegate bob "val" amount).run (sentToBob amount)) = .ok new)
    (hsmall : 50 + amount.toNat < 2 ^ 128)
    (htold : (bondedForBob amount).books.delegatedSum bob < 2 ^ 128) :
    (toBob amount).Delegates block.time alice slashed (toBobChecked amount) new
      (bondedForBob amount) where
  valid := ⟨⟨alice, 0, 24, 100⟩, by decide +kernel, hchecked⟩
  delegated := ⟨sentToBob amount, eq_ok_of_outcome hsent, eq_ok_of_outcome hbonded⟩
  counted := by
    change (slashed.ledger.books.delegationsOf bob maxDelegations).length < maxDelegations
    decide +kernel
  fits := by
    have hnone : slashed.store.lockup? bob = none := by decide +kernel
    have htotal : slashed.store.total.toNat = 50 := by decide +kernel
    apply Store.fits_of_lockup?_eq_none hnone
    rw [htotal]
    exact hsmall
  measured := by
    have hnothing : slashed.store.lockedSum bob block.time = 0 := by decide +kernel
    change slashed.store.lockedSum bob block.time + amount.toNat < _
    omega
  told := htold

end FirstLock

open FirstLock in
/-- Fifteen tokens come to fifty shares without a rest, so bob gets his lock. -/
theorem even_payment_locked : ∃ response c',
    (execute block.time alice (.pay (toBob given))).run slashed = .ok response c' ∧
    slashed.store.Records bob ⟨31, by decide, by decide⟩ given c'.store := by
  have hpayment : (toBob given).Delegates block.time alice slashed (toBobChecked given)
      ⟨⟨50 * Shares.one, by decide⟩⟩ (bondedForBob given) :=
    toBob_delegates (by decide +kernel) (by decide +kernel) (by decide +kernel) (by decide)
      (by decide +kernel)
  have hbefore : totalDelegated slashed.ledger bob = .ok Amount.zero := by decide +kernel
  have hcovered : slashed.store.lockedSum bob block.time ≤ 0 := by decide +kernel
  obtain ⟨after, -, hiff, hrecorded, -, hgain⟩ := delegated_payment_locked_iff_covered
    slashed_reached (Nat.le_refl _) hpayment hbefore hcovered
  have hknown : slashed.ledger.books.validators.get? "val" =
      some ⟨"val", ⟨30, by decide⟩, ⟨⟨100 * Shares.one, by decide⟩⟩⟩ := by decide +kernel
  have hcovers := (hgain _ hknown).1 (by decide) (by decide)
  have hopenable : slashed.store.Openable bob := .inr (by decide +kernel)
  obtain ⟨response, c', hrun⟩ := hiff.2 ⟨hopenable, hcovers⟩
  exact ⟨response, c', hrun, hrecorded response c' hrun⟩

open FirstLock in
/-- One token that alice pays bob comes back as none from its shares. Its payment has passed
the check, and it has been sent and delegated, but it is not locked. -/
theorem rounded_payment_not_locked : Host.anyTotal.Reaches block.time slashed.store ∧
    ∃ amount new, amount ≠ Amount.zero ∧
      (toBob amount).Delegates block.time alice slashed (toBobChecked amount) new
        (bondedForBob amount) ∧
      totalDelegated slashed.ledger bob = .ok Amount.zero ∧
      slashed.store.lockedSum bob block.time = 0 ∧ slashed.store.Openable bob ∧
      ∃ c', (execute block.time alice (.pay (toBob amount))).run slashed =
        .error (.refused (.lockExceedsDelegations Amount.zero amount)) c' := by
  refine ⟨slashed_reached, ⟨1, by decide⟩, ⟨⟨3333333333333333333, by decide⟩⟩, by decide, ?_, ?_,
    ?_, ?_, ?_⟩
  · exact toBob_delegates (by decide +kernel) (by decide +kernel) (by decide +kernel) (by decide)
      (by decide +kernel)
  · decide +kernel
  · decide +kernel
  · right
    decide +kernel
  · exact ⟨_, eq_error_of_outcome (by decide +kernel)⟩

end StakeLock
