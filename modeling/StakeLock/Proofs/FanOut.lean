import StakeLock.Proofs.FullBacking

/-!
# Payments together and one by one

The payments of one request are all checked on the chain as it is before the first of
them, single payments each on what those before it have left. But a payment changes
nothing that such a check looks at, so both ways check and make the same payments.
-/

namespace StakeLock

section

variable {σ : Type} [HostLedger σ] [AddressRule]
variable {now : Timestamp} {sender : Address} {payment : LockedPayment} {config : Config}

/-- Separate requests for payments, one after another, with the events of all. -/
def executePays (now : Timestamp) (sender : Address) : List LockedPayment → ChainM σ (List Event)
  | [] => return []
  | payment :: payments => do
    let first ← execute now sender (.pay payment)
    let rest ← executePays now sender payments
    return first.events ++ rest

/-- A check of a payment asks a ledger for nothing but whether it knows a validator. -/
theorem LockedPayment.check_congr {l l' : σ}
    (h : ∀ name, (HostLedger.validator? l' name).map Option.isSome =
      (HostLedger.validator? l name).map Option.isSome) :
    payment.check config l' now = payment.check config l now := by
  have hname := h payment.validator
  unfold check
  generalize HostLedger.validator? l' payment.validator = found' at hname ⊢
  generalize HostLedger.validator? l payment.validator = found at hname ⊢
  rcases found' with cause' | (_ | v') <;> rcases found with cause | (_ | v)
  all_goals first
    | rfl
    | cases hname
  rfl

end

/-! ## What checks of payments look at -/

section

variable {s t : Store} {address : Address} {account : LockupAccount}
variable {now : Timestamp} {sender : Address} {bondDenom : String}

/-- Two chains have the same configuration and the same bond denomination, and they know
the same validators. -/
structure Chain.SameTerms (c c' : Chain StrictLedger) : Prop where
  config : c'.store.config = c.store.config
  denom : c'.ledger.books.denom = c.ledger.books.denom
  known : ∀ name, (c'.ledger.books.validators.get? name).isSome =
    (c.ledger.books.validators.get? name).isSome

variable {c c' : Chain StrictLedger}

theorem Pays.sameTerms {payment : CheckedPayment} (h : Pays now sender bondDenom payment c c') :
    c.SameTerms c' := by
  obtain ⟨sent, shares, hsent, hbonded, hlocks⟩ := h
  have htransfer := StrictLedger.ends_sendCoins.of_ok hsent
  obtain ⟨v, hv, hbond⟩ := StrictLedger.ends_delegate.of_ok hbonded
  obtain ⟨w, held, -, -, hafter⟩ := Books.bond?_eq_some hbond
  refine ⟨hlocks.config_eq, ?_, fun name => ?_⟩
  · rw [hafter]
    exact htransfer.denom_eq
  · rw [hafter, ← htransfer.validators, Books.get?_validators_bonded]
    split
    · rename_i hname
      rw [hname, hv]
      rfl
    · rfl

theorem Chain.SameTerms.check_eq [AddressRule] (h : c.SameTerms c') (payment : LockedPayment)
    (config : Config) :
    payment.check config c'.ledger now = payment.check config c.ledger now :=
  LockedPayment.check_congr fun name => congrArg Except.ok (h.known name)

end

/-! ## Successful runs -/

section

variable {now : Timestamp} {sender : Address} {config : Config}
variable {c c' : Chain StrictLedger} {payments : List LockedPayment} {response : Response}
variable {events : List Event}

theorem run_payAll_cons {bondDenom : String} {payment : CheckedPayment}
    {payments : List CheckedPayment} :
    (payAll now sender bondDenom (payment :: payments)).run c = .ok events c' ↔
      ∃ first m, (pay now sender bondDenom payment).run c = .ok first m ∧
        ∃ rest, (payAll now sender bondDenom payments).run m = .ok rest c' ∧
          events = first ++ rest := by
  rw [payAll, run_bind_eq_ok_iff]
  exact exists₂_congr fun first m => and_congr_right fun _ => run_bind_pure_eq_ok_iff

variable [AddressRule]

theorem run_executePays_cons {payment : LockedPayment} {payments : List LockedPayment} :
    (executePays now sender (payment :: payments)).run c = .ok events c' ↔
      ∃ first m, (execute now sender (.pay payment)).run c = .ok first m ∧
        ∃ rest, (executePays now sender payments).run m = .ok rest c' ∧
          events = first.events ++ rest := by
  rw [executePays, run_bind_eq_ok_iff]
  exact exists₂_congr fun first m => and_congr_right fun _ => run_bind_pure_eq_ok_iff

variable (hconfig : c.store.config = some config)

include hconfig

theorem run_execute_pay {payment : LockedPayment} :
    (execute now sender (.pay payment)).run c = ((do
      let checked ← accept (payment.check config c.ledger now)
      let events ← pay now sender c.ledger.books.denom checked
      return ⟨[("action", "send_delegate_and_lock"), ("from", sender.text)], events⟩ :
        ChainM StrictLedger Response)).run c := by
  change (acceptSystem c.store.getConfig >>= _).run c = _
  rw [Store.getConfig_eq_ok_iff.2 hconfig]
  rfl

theorem run_pay_eq_ok_iff {payment : LockedPayment} :
    (execute now sender (.pay payment)).run c = .ok response c' ↔
      ∃ checked, payment.check config c.ledger now = .ok checked ∧
        ∃ events, (pay now sender c.ledger.books.denom checked).run c = .ok events c' ∧
          response = ⟨[("action", "send_delegate_and_lock"), ("from", sender.text)], events⟩ := by
  rw [run_execute_pay hconfig, run_accept_bind_eq_ok_iff]
  exact exists_congr fun checked => and_congr_right fun _ => run_bind_pure_eq_ok_iff

/-- Payments that are checked one by one, each on what the others have left, are those that
pass their checks at first. -/
theorem run_executePays_eq_ok_iff :
    (executePays now sender payments).run c = .ok events c' ↔
      ∃ checked, List.Forall₂ (fun p q => p.check config c.ledger now = .ok q) payments checked ∧
        (payAll now sender c.ledger.books.denom checked).run c = .ok events c' := by
  induction payments generalizing c events with
  | nil =>
    simp only [List.forall₂_nil_left_iff, exists_eq_left]
    rfl
  | cons payment payments ih =>
    have hrest : ∀ {checked first m}, payment.check config c.ledger now = .ok checked →
        (pay now sender c.ledger.books.denom checked).run c = .ok first m → ∀ {rest},
        (executePays now sender payments).run m = .ok rest c' ↔ ∃ others,
          List.Forall₂ (fun p q => p.check config c.ledger now = .ok q) payments others ∧
          (payAll now sender c.ledger.books.denom others).run m = .ok rest c' := by
      intro checked first m hchecked hpay rest
      obtain ⟨hdate, hamount, -⟩ := LockedPayment.of_check hchecked
      have hterms : c.SameTerms m := ((ends_pay ⟨hdate, hamount⟩).of_ok hpay).1.sameTerms
      rw [ih (hterms.config.trans hconfig), hterms.denom]
      simp only [hterms.check_eq]
    rw [run_executePays_cons]
    constructor
    · rintro ⟨response, m, hfirst, rest, hothers, rfl⟩
      obtain ⟨checked, hchecked, first, hpay, rfl⟩ := (run_pay_eq_ok_iff hconfig).1 hfirst
      obtain ⟨others, hall, hpays⟩ := (hrest hchecked hpay).1 hothers
      exact ⟨checked :: others, .cons hchecked hall,
        run_payAll_cons.2 ⟨first, m, hpay, rest, hpays, rfl⟩⟩
    · rintro ⟨_, hall, hpaid⟩
      obtain ⟨checked, others, hchecked, hothers, rfl⟩ := List.forall₂_cons_left_iff.1 hall
      obtain ⟨first, m, hpay, rest, hpays, rfl⟩ := run_payAll_cons.1 hpaid
      exact ⟨_, m, (run_pay_eq_ok_iff hconfig).2 ⟨checked, hchecked, first, hpay, rfl⟩, rest,
        (hrest hchecked hpay).2 ⟨others, hothers, hpays⟩, rfl⟩

theorem run_payMany_eq_ok_iff {total : Amount} :
    (execute now sender (.payMany total payments)).run c = .ok response c' ↔
      config.checkEntryCount payments.length = .ok () ∧
      (payments.map fun p => p.amount.toNat).sum = total.toNat ∧
      ∃ checked, List.Forall₂ (fun p q => p.check config c.ledger now = .ok q) payments checked ∧
        ∃ events, (payAll now sender c.ledger.books.denom checked).run c = .ok events c' ∧
          response = ⟨[("action", "multi_send_delegate_and_lock"), ("from", sender.text),
            ("outputs", Nat.repr checked.length)], events⟩ := by
  change (acceptSystem c.store.getConfig >>= _).run c = _ ↔ _
  rw [Store.getConfig_eq_ok_iff.2 hconfig]
  change (accept (config.checkEntryCount payments.length) >>= _).run c = _ ↔ _
  rw [run_accept_bind_eq_ok_iff]
  constructor
  · rintro ⟨_, hcount, hcounted⟩
    obtain ⟨sum, hsum, hadded⟩ := run_acceptSystem_bind_eq_ok_iff.1 hcounted
    rw [Amount.sumFrom_eq_ok_iff, List.map_map, Amount.toNat_zero, Nat.zero_add] at hsum
    by_cases htotal : sum = total
    · subst htotal
      simp only [ne_eq, not_true_eq_false, if_false] at hadded
      change (accept (payments.mapM fun p => p.check config c.ledger now) >>= _).run c = _ at hadded
      obtain ⟨checked, hchecked, hrest⟩ := run_accept_bind_eq_ok_iff.1 hadded
      obtain ⟨events, hpays, heq⟩ := run_bind_pure_eq_ok_iff.1 hrest
      exact ⟨hcount, hsum, checked, mapM_eq_ok_iff.1 hchecked, events, hpays, heq⟩
    · simp only [ne_eq, htotal, not_false_eq_true, if_true] at hadded
      cases hadded
  · rintro ⟨hcount, hsum, checked, hchecked, events, hpays, rfl⟩
    have hadded : Amount.zero.sumFrom (payments.map LockedPayment.amount) = .ok total := by
      rw [Amount.sumFrom_eq_ok_iff, List.map_map, Amount.toNat_zero, Nat.zero_add]
      exact hsum
    refine ⟨(), hcount, run_acceptSystem_bind_eq_ok_iff.2 ⟨total, hadded, ?_⟩⟩
    simp only [ne_eq, not_true_eq_false, if_false]
    change (accept (payments.mapM fun p => p.check config c.ledger now) >>= _).run c = _
    refine run_accept_bind_eq_ok_iff.2 ⟨checked, mapM_eq_ok_iff.2 hchecked, ?_⟩
    exact run_bind_pure_eq_ok_iff.2 ⟨events, hpays, rfl⟩

end

theorem Config.checkEntryCount_eq_ok_iff {config : Config} {count : Nat} :
    config.checkEntryCount count = .ok () ↔ 1 ≤ count ∧ count ≤ config.maxEntries := by
  unfold checkEntryCount
  by_cases hzero : count = 0
  · simp [hzero]
  · by_cases hmany : config.maxEntries < count
    · simp [hzero, hmany]
    · simp [hzero, hmany]
      omega

/-- On every strict ledger, whatever the store: a request for several payments succeeds
exactly if there are as many as one request may carry, their sum is an amount and the total
of the request, and the payments succeed as separate requests one after another. It then
leaves the same chain, and announces the same events in the same order. -/
theorem fan_out_eq_single_pays [AddressRule] {c : Chain StrictLedger} {config : Config}
    (hconfig : c.store.config = some config) (now : Timestamp) (sender : Address)
    (total : Amount) (payments : List LockedPayment) :
    ((∃ response c', (execute now sender (.payMany total payments)).run c = .ok response c') ↔
      (1 ≤ payments.length ∧ payments.length ≤ config.maxEntries) ∧
      ((payments.map fun p => p.amount.toNat).sum ≤ 2 ^ 128 - 1 ∧
        (payments.map fun p => p.amount.toNat).sum = total.toNat) ∧
      ∃ events c', (executePays now sender payments).run c = .ok events c') ∧
    ∀ response c', (execute now sender (.payMany total payments)).run c = .ok response c' →
      (executePays now sender payments).run c = .ok response.events c' := by
  refine ⟨⟨?_, ?_⟩, ?_⟩
  · rintro ⟨response, c', hrun⟩
    obtain ⟨hcount, hsum, checked, hchecked, events, hpays, -⟩ :=
      (run_payMany_eq_ok_iff hconfig).1 hrun
    have hbound : total.toNat ≤ 2 ^ 128 - 1 := Nat.le_sub_one_of_lt total.toNat_lt
    exact ⟨Config.checkEntryCount_eq_ok_iff.1 hcount, ⟨hsum ▸ hbound, hsum⟩, events, c',
      (run_executePays_eq_ok_iff hconfig).2 ⟨checked, hchecked, hpays⟩⟩
  · rintro ⟨hcount, ⟨-, hsum⟩, events, c', hrun⟩
    obtain ⟨checked, hchecked, hpays⟩ := (run_executePays_eq_ok_iff hconfig).1 hrun
    exact ⟨_, c', (run_payMany_eq_ok_iff hconfig).2
      ⟨Config.checkEntryCount_eq_ok_iff.2 hcount, hsum, checked, hchecked, events, hpays, rfl⟩⟩
  · intro response c' hrun
    obtain ⟨-, -, checked, hchecked, events, hpays, rfl⟩ := (run_payMany_eq_ok_iff hconfig).1 hrun
    exact (run_executePays_eq_ok_iff hconfig).2 ⟨checked, hchecked, hpays⟩

namespace FirstLock

def giftList : List LockedPayment :=
  [⟨"bob", "val", given, "1970-03-01"⟩, ⟨"carol", "val", given, "1970-03-01"⟩,
    ⟨"bob", "val", ⟨6, by decide⟩, "1970-05-01"⟩]

end FirstLock

open FirstLock in
/-- On a slashed validator, the gifts come to the same one by one as together. -/
theorem gifts_one_by_one : ∃ response c', (execute block.time alice
      (.payMany ⟨36, by decide⟩ giftList)).run slashed = .ok response c' ∧
    (executePays block.time alice giftList).run slashed = .ok response.events c' := by
  have hconfig : slashed.store.config = some ⟨alice, 0, 24, 100⟩ := by decide +kernel
  obtain ⟨hiff, hsame⟩ := fan_out_eq_single_pays hconfig block.time alice ⟨36, by decide⟩ giftList
  obtain ⟨events, hrun⟩ := exists_ok_of_succeeds (r := (executePays block.time alice
    giftList).run slashed) (by decide +kernel)
  obtain ⟨response, c', hmany⟩ := hiff.2 ⟨by decide, by decide, events, _, hrun⟩
  exact ⟨response, c', hmany, hsame response c' hmany⟩

end StakeLock
