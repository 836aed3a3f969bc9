import Mathlib.Data.List.Forall2
import StakeLock.Execute
import StakeLock.Proofs.Amount
import StakeLock.Proofs.UnlockTime

/-!
# Checked requests

What is known of an entry, an extension or a payment that has passed its check:
its amount is positive and its dates lie where the clock allows.
-/

namespace StakeLock

section

variable {ε α β : Type}

theorem except_bind_eq_ok_iff {x : Except ε α} {f : α → Except ε β} {b : β} :
    (x >>= f) = .ok b ↔ ∃ a, x = .ok a ∧ f a = .ok b := by
  cases x with
  | error e => simp [bind, Except.bind]
  | ok a => simp [bind, Except.bind]

theorem except_bind_eq_error_iff {x : Except ε α} {f : α → Except ε β} {e : ε} :
    (x >>= f) = .error e ↔ x = .error e ∨ ∃ a, x = .ok a ∧ f a = .error e := by
  cases x with
  | error e => simp [bind, Except.bind]
  | ok a => simp [bind, Except.bind]

theorem mapM_eq_ok_iff {f : α → Except ε β} {as : List α} {bs : List β} :
    as.mapM f = .ok bs ↔ List.Forall₂ (fun a b => f a = .ok b) as bs := by
  induction as generalizing bs with
  | nil =>
    rw [List.mapM_nil, List.forall₂_nil_left_iff]
    constructor
    · intro h
      cases h
      rfl
    · rintro rfl
      rfl
  | cons a as ih =>
    rw [List.mapM_cons, except_bind_eq_ok_iff, List.forall₂_cons_left_iff]
    constructor
    · rintro ⟨b, hb, h⟩
      obtain ⟨cs, hcs, h⟩ := except_bind_eq_ok_iff.1 h
      cases h
      exact ⟨b, cs, hb, ih.1 hcs, rfl⟩
    · rintro ⟨b, cs, hb, hcs, rfl⟩
      exact ⟨b, hb, except_bind_eq_ok_iff.2 ⟨cs, ih.2 hcs, rfl⟩⟩

theorem forall_of_mapM_eq_ok {f : α → Except ε β} {as : List α} {bs : List β} {p : β → Prop}
    (h : as.mapM f = .ok bs) (hp : ∀ a b, f a = .ok b → p b) : ∀ b ∈ bs, p b := by
  rw [mapM_eq_ok_iff] at h
  induction h with
  | nil => simp
  | cons hab _ ih =>
    rintro b (_ | ⟨_, hb⟩)
    · exact hp _ _ hab
    · exact ih b hb

theorem forM_eq_ok_iff {check : α → Except ε Unit} {as : List α} :
    as.forM check = .ok () ↔ ∀ a ∈ as, check a = .ok () := by
  induction as with
  | nil => exact iff_of_true rfl (List.forall_mem_nil _)
  | cons a as ih =>
    rw [List.forall_mem_cons, ← ih]
    change (check a >>= fun _ => as.forM check) = .ok () ↔ _
    rw [except_bind_eq_ok_iff]
    constructor
    · rintro ⟨_, hfirst, hrest⟩
      exact ⟨hfirst, hrest⟩
    · rintro ⟨hfirst, hrest⟩
      exact ⟨(), hfirst, hrest⟩

end

namespace Check

variable {α : Type} {a : α}

theorem ofSystem_eq_ok_iff {result : Except SystemError α} :
    ofSystem result = .ok a ↔ result = .ok a := by
  cases result <;> simp [ofSystem, refuse]

theorem ofResult_eq_ok_iff {result : Except LockError α} :
    ofResult result = .ok a ↔ result = .ok a := by
  cases result <;> simp [ofResult, refuse]

theorem orAbort_eq_ok_iff {result : Option α} : orAbort result = .ok a ↔ result = some a := by
  cases result <;> simp [orAbort]

end Check

variable {now : Timestamp} {config : Config} {bondDenom : String}

theorem Address.eq_of_ofText [AddressRule] {text : String} {address : Address}
    (h : Address.ofText text = .ok address) : address = ⟨text⟩ := by
  unfold ofText at h
  cases hvalid : AddressRule.validate text with
  | ok a =>
    rw [hvalid] at h
    cases h
    exact Address.ext (AddressRule.text_eq hvalid)
  | error cause =>
    rw [hvalid] at h
    cases h

theorem checkBondCoin_eq_ok_iff {coin : Coin} :
    checkBondCoin bondDenom coin = .ok () ↔
      coin.amount ≠ Amount.zero ∧ coin.denom = bondDenom := by
  unfold checkBondCoin
  by_cases h : coin.amount.isZero
  · rw [if_pos h]
    simp [Amount.isZero_iff.1 h]
  · rw [if_neg h]
    rw [Amount.isZero_iff] at h
    by_cases hd : coin.denom = bondDenom <;> simp [h, hd]

theorem LockEntry.of_check {entry : LockEntry} {l : Date × Amount}
    (h : entry.check config bondDenom now = .ok l) :
    Admits (some config) now l.1 ∧ l.2 ≠ Amount.zero := by
  unfold check at h
  obtain ⟨_, hcoin, h⟩ := except_bind_eq_ok_iff.1 h
  obtain ⟨date, _, h⟩ := except_bind_eq_ok_iff.1 h
  obtain ⟨_, hwindow, h⟩ := except_bind_eq_ok_iff.1 h
  cases h
  exact ⟨⟨config, rfl, hwindow⟩, (checkBondCoin_eq_ok_iff.1 hcoin).1⟩

theorem Extension.of_check {extension : Extension} {move : Move}
    (h : extension.check config bondDenom now = .ok move) :
    WithinHorizon (some config) now move.target ∧ isLocked now move.source ∧
      move.source < move.target ∧ move.amount ≠ Amount.zero := by
  unfold check at h
  obtain ⟨_, hcoin, h⟩ := except_bind_eq_ok_iff.1 h
  obtain ⟨source, _, h⟩ := except_bind_eq_ok_iff.1 h
  obtain ⟨target, _, h⟩ := except_bind_eq_ok_iff.1 h
  simp only at h
  split at h
  · cases h
  · rename_i hlt
    split at h
    · cases h
    · rename_i hlocked
      obtain ⟨_, hhorizon, h⟩ := except_bind_eq_ok_iff.1 h
      cases h
      exact ⟨⟨config, rfl, checkMaxHorizon_eq_ok_iff.1 hhorizon⟩, by simpa using hlocked,
        Int.not_le.1 hlt, (checkBondCoin_eq_ok_iff.1 hcoin).1⟩

theorem LockedPayment.of_check {σ : Type} [HostLedger σ] [AddressRule] {payment : LockedPayment}
    {ledger : σ} {checked : CheckedPayment} (h : payment.check config ledger now = .ok checked) :
    Admits (some config) now checked.date ∧ checked.amount ≠ Amount.zero ∧
      checked.amount = payment.amount ∧ checked.recipient = ⟨payment.recipient⟩ := by
  unfold check at h
  obtain ⟨recipient, hrecipient, h⟩ := except_bind_eq_ok_iff.1 h
  simp only at h
  split at h
  · cases h
  · rename_i hz
    obtain ⟨validator, _, h⟩ := except_bind_eq_ok_iff.1 h
    cases validator with
    | none => cases h
    | some v =>
      obtain ⟨date, _, h⟩ := except_bind_eq_ok_iff.1 h
      obtain ⟨_, hwindow, h⟩ := except_bind_eq_ok_iff.1 h
      cases h
      refine ⟨⟨config, rfl, hwindow⟩, ?_, rfl, Address.eq_of_ofText hrecipient⟩
      exact fun hzero => hz (Amount.isZero_iff.2 hzero)

end StakeLock
