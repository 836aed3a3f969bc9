import StakeLock.Proofs.Coverage

/-!
# Full backing

A request that locks funds checks each account against its own delegations as it comes
to it. What later payments of the same request do takes no delegated value away, so in
the end every account that got locks has delegations for all of them.
-/

namespace StakeLock

variable {now : Timestamp} {sender x : Address} {c c' : Chain StrictLedger}

/-- The addresses whose accounts a request locks funds in. -/
def Request.holders (sender : Address) : Request → List Address
  | lock _ => [sender]
  | pay payment => [⟨payment.recipient⟩]
  | payMany _ payments => payments.map fun p => ⟨p.recipient⟩
  | extend _ | updateConfig _ => []

theorem Chain.Backed.le_delegated {delegated : Amount} (h : c.Backed now x)
    (hx : (c.store.lockup? x).isSome) (hdelegated : totalDelegated c.ledger x = .ok delegated) :
    ∃ account locked, c.store.lockup? x = some account ∧
      account.schedule.lockedAmount? now = some locked ∧ locked ≤ delegated := by
  obtain ⟨account, haccount⟩ := Option.isSome_iff_exists.1 hx
  unfold Backed Store.lockedSum at h
  rw [haccount, ← Books.toNat_of_totalDelegated hdelegated] at h
  have hlt : account.schedule.lockedSum now < 2 ^ 128 := Nat.lt_of_le_of_lt h delegated.toNat_lt
  refine ⟨account, ⟨account.schedule.lockedSum now, hlt⟩, haccount, ?_, h⟩
  rw [Schedule.lockedAmount?_eq, Amount.ofNat?_eq_some_iff]

theorem Locks.isSome_lockup? {l : StrictLedger} {locks : List (Date × Amount)} {s t : Store}
    {address : Address} (h : Locks now l address locks s t) (hs : s.Keyed) :
    (t.lockup? address).isSome := by
  obtain ⟨account, opened, d, delegated, hopens, hadds, rfl, -, -⟩ := h
  have haddress : d.account.address = address := hadds.address_eq.trans (hopens.address_eq hs)
  rw [Store.lockup?_saved, if_pos haddress.symm]
  rfl

theorem Changes.isSome_lockup? {terms : Option Config} {s t : Store} (h : Changes now terms s t)
    (hx : (s.lockup? x).isSome) : (t.lockup? x).isSome := by
  induction h with
  | refl => exact hx
  | tail _ hchange ih => exact hchange.isSome_lockup? ih

theorem PaysAll.isSome_lockup? {bondDenom : String} {terms : Option Config}
    {payments : List CheckedPayment} (h : PaysAll now sender bondDenom c payments c')
    (hp : ∀ p ∈ payments, p.Payable terms now) (hs : c.store.Keyed)
    (hx : x ∈ payments.map CheckedPayment.recipient) : (c'.store.lockup? x).isSome := by
  induction h with
  | nil => cases hx
  | cons hfirst hrest ih =>
    have hchange := hfirst.change (hp _ (List.mem_cons_self ..))
    have hothers := fun p hmem => hp p (List.mem_cons_of_mem _ hmem)
    rcases List.mem_cons.1 hx with rfl | hx
    · obtain ⟨_, _, -, -, hlocks⟩ := hfirst
      exact Changes.isSome_lockup? (hrest.changes hothers) (hlocks.isSome_lockup? hs)
    · exact ih hothers (hchange.keyed hs) hx

theorem map_recipient_of_checks [AddressRule] {l : StrictLedger} {config : Config}
    {asked : List LockedPayment} {payments : List CheckedPayment}
    (h : (asked.mapM fun p => p.check config l now) = .ok payments) :
    payments.map CheckedPayment.recipient = asked.map fun p => ⟨p.recipient⟩ := by
  rw [mapM_eq_ok_iff] at h
  induction h with
  | nil => rfl
  | cons hcheck _ ih =>
    rw [List.map_cons, List.map_cons, ih, (LockedPayment.of_check hcheck).2.2.2]

/-- Every holder of a request that succeeded has a lockup account that is backed. -/
theorem holder_backed [AddressRule] {request : Request} {response : Response} (hs : c.store.Keyed)
    (hrun : (execute now sender request).run c = .ok response c')
    (hx : x ∈ request.holders sender) : (c'.store.lockup? x).isSome ∧ c'.Backed now x := by
  cases request with
  | lock entries =>
    obtain ⟨hledger, locks, -, hlocks⟩ := ends_executeLock.of_ok hrun
    have hsender : x = sender := List.mem_singleton.1 hx
    subst hsender
    unfold Chain.Backed
    rw [hledger]
    exact ⟨hlocks.isSome_lockup? hs, hlocks.lockedSum_le hs⟩
  | extend extensions => cases hx
  | pay payment =>
    obtain ⟨bondDenom, config, checked, hdenom, hchecked, -, hpays⟩ := ends_executePay.of_ok hrun
    cases hdenom
    have hrecipient : x = checked.recipient := by
      rw [(LockedPayment.of_check hchecked).2.2.2]
      exact List.mem_singleton.1 hx
    subst hrecipient
    obtain ⟨_, _, -, -, hlocks⟩ := id hpays
    exact ⟨hlocks.isSome_lockup? hs, (hpays.paid hs).backed _ (List.mem_singleton.2 rfl)⟩
  | payMany total payments =>
    obtain ⟨bondDenom, config, checked, hdenom, -, hchecked, hp, hall⟩ :=
      ends_executePayMany.of_ok hrun
    cases hdenom
    have hrecipient : x ∈ checked.map CheckedPayment.recipient := by
      rw [map_recipient_of_checks hchecked]
      exact hx
    exact ⟨hall.isSome_lockup? hp hs hrecipient, (hall.paid rfl hp hs).backed x hrecipient⟩
  | updateConfig change => cases hx

/-- In every reachable store and on every strict ledger: when a request that locks funds has
succeeded, the sender of a lock and every recipient of a payment has a lockup account, and
delegations for all it has locked. -/
theorem locked_accounts_fully_backed [AddressRule] {last : Timestamp}
    {c after : Chain StrictLedger} {request : Request} {response : Response}
    (h : Host.lenient.Reaches last c.store)
    (hrun : (execute now sender request).run c = .ok response after)
    (hx : x ∈ request.holders sender) {delegated : Amount}
    (hdelegated : totalDelegated after.ledger x = .ok delegated) :
    ∃ account locked, after.store.lockup? x = some account ∧
      account.schedule.lockedAmount? now = some locked ∧ locked ≤ delegated := by
  obtain ⟨hlockup, hbacked⟩ := holder_backed h.keyed hrun hx
  exact hbacked.le_delegated hlockup hdelegated

namespace FirstLock

def bob : Address := ⟨"bob"⟩

/-- Bob is paid twice, and another one in between, on a validator that has been slashed. -/
def gifts : Request :=
  .payMany ⟨39, by decide⟩
    [⟨"bob", "val", given, "1970-03-01"⟩, ⟨"carol", "val", given, "1970-03-01"⟩,
      ⟨"bob", "val", ⟨9, by decide⟩, "1970-05-01"⟩]

def shared : Chain StrictLedger := finalState ((execute block.time alice gifts).run slashed)

end FirstLock

open FirstLock in
/-- Of the payments in turn bob gets locks of 24 tokens, and as much is delegated for him. -/
theorem gifts_fully_backed : ∃ account locked, shared.store.lockup? bob = some account ∧
    account.schedule.lockedAmount? block.time = some locked ∧
    locked ≤ (⟨24, by decide⟩ : Amount) := by
  obtain ⟨response, hrun⟩ : ∃ response, (execute block.time alice gifts).run slashed =
      .ok response shared := exists_ok_of_succeeds (by decide +kernel)
  have hholder : bob ∈ gifts.holders alice := by decide
  have hdelegated : totalDelegated shared.ledger bob = .ok ⟨24, by decide⟩ := by decide +kernel
  exact locked_accounts_fully_backed reached_slashed hrun hholder hdelegated

end StakeLock
