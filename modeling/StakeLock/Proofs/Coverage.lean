import StakeLock.Proofs.Irrevocable
import StakeLock.Proofs.Outcome.Strict

/-!
# Coverage of locked value

Locked value is covered by liquid balance and delegations together. A request that
the transaction check lets through and that then succeeds uncovers nobody: those who
are paid end up with delegations for all they have locked, the sender keeps what its
shortfall needs, and all others lose nothing.
-/

namespace StakeLock

variable {now : Timestamp} {sender x : Address}

/-- The balance of an address in the bond denomination. -/
def StrictLedger.liquid (l : StrictLedger) (x : Address) : Nat :=
  (l.books.balance x l.books.denom).toNat

namespace Chain

variable (c : Chain StrictLedger)

/-- Delegations alone cover what an address has locked. -/
def Backed (now : Timestamp) (x : Address) : Prop :=
  c.store.lockedSum x now ≤ c.ledger.books.delegatedSum x

/-- Balance and delegations together cover what an address has locked. -/
def Covered (now : Timestamp) (x : Address) : Prop :=
  c.store.lockedSum x now ≤ c.ledger.liquid x + c.ledger.books.delegatedSum x

/-- The balance of an address would still cover its shortfall after spending an amount. -/
def CanSpend (now : Timestamp) (x : Address) (amount : Nat) : Prop :=
  c.Backed now x ∨ amount ≤ c.ledger.liquid x -
    (c.store.lockedSum x now - c.ledger.books.delegatedSum x)

end Chain

/-! ## Payments -/

/-- What payments do to balances, delegations and locks. -/
structure Paid (now : Timestamp) (sender : Address) (payments : List CheckedPayment)
    (c c' : Chain StrictLedger) : Prop where
  denom : c'.ledger.books.denom = c.ledger.books.denom
  backed : ∀ x ∈ payments.map CheckedPayment.recipient, c'.Backed now x
  locked : ∀ x ∉ payments.map CheckedPayment.recipient,
    c'.store.lockedSum x now = c.store.lockedSum x now
  delegated : ∀ x ∉ payments.map CheckedPayment.recipient,
    c.ledger.books.delegatedSum x ≤ c'.ledger.books.delegatedSum x
  liquid : ∀ x ∉ payments.map CheckedPayment.recipient, c'.ledger.liquid x +
    (if x = sender then (payments.map fun p => p.amount.toNat).sum else 0) = c.ledger.liquid x

variable {c c' c'' : Chain StrictLedger} {payment : CheckedPayment} {payments : List CheckedPayment}

theorem Paid.backed_of_backed (h : Paid now sender payments c c') (hx : c.Backed now x) :
    c'.Backed now x := by
  by_cases hmem : x ∈ payments.map CheckedPayment.recipient
  · exact h.backed x hmem
  · unfold Chain.Backed
    rw [h.locked x hmem]
    exact le_trans hx (h.delegated x hmem)

theorem Paid.cons (hfirst : Paid now sender [payment] c c')
    (hrest : Paid now sender payments c' c'') : Paid now sender (payment :: payments) c c'' where
  denom := hrest.denom.trans hfirst.denom
  backed x hx := by
    rcases List.mem_cons.1 hx with rfl | hx
    · exact hrest.backed_of_backed (hfirst.backed _ (List.mem_cons_self ..))
    · exact hrest.backed x hx
  locked x hx := by
    rw [List.map_cons, List.mem_cons, not_or] at hx
    exact (hrest.locked x hx.2).trans (hfirst.locked x (by simpa using hx.1))
  delegated x hx := by
    rw [List.map_cons, List.mem_cons, not_or] at hx
    exact le_trans (hfirst.delegated x (by simpa using hx.1)) (hrest.delegated x hx.2)
  liquid x hx := by
    rw [List.map_cons, List.mem_cons, not_or] at hx
    have hthis := hfirst.liquid x (by simpa using hx.1)
    have hthen := hrest.liquid x hx.2
    simp only [List.map_cons, List.sum_cons, List.map_nil, List.sum_nil, Nat.add_zero] at hthis ⊢
    split at hthis <;> simp_all only [if_true, if_false] <;> omega

theorem Locks.lockedSum_of_ne {l : StrictLedger} {locks : List (Date × Amount)} {s t : Store}
    {address : Address} (h : Locks now l address locks s t) (hs : s.Keyed) (hne : x ≠ address) :
    t.lockedSum x now = s.lockedSum x now := by
  obtain ⟨account, opened, d, delegated, hopens, hadds, rfl, -, -⟩ := h
  rw [Store.lockedSum_eq_lockedWhere, Store.lockedSum_eq_lockedWhere,
    hadds.lockedWhere_saved hs hopens, if_neg hne, Nat.add_zero]

theorem Locks.lockedSum_le {l : StrictLedger} {locks : List (Date × Amount)} {s t : Store}
    {address : Address} (h : Locks now l address locks s t) (hs : s.Keyed) :
    t.lockedSum address now ≤ l.books.delegatedSum address := by
  obtain ⟨account, opened, d, delegated, hopens, hadds, rfl, hdelegated, hle⟩ := h
  rw [← Books.toNat_of_totalDelegated hdelegated]
  refine le_trans ?_ hle
  rw [Store.lockedSum_eq_lockedWhere, hadds.lockedWhere_saved hs hopens, if_pos rfl,
    ← hopens.amountWhere_eq, ← Schedule.lockedSum_eq_amountWhere]
  apply Nat.add_le_add_left
  apply List.sum_le_sum
  intro lock _
  split
  · exact le_rfl
  · exact Nat.zero_le _

theorem Pays.paid (h : Pays now sender c.ledger.books.denom payment c c') (hs : c.store.Keyed) :
    Paid now sender [payment] c c' := by
  obtain ⟨sent, shares, hsent, hbonded, hlocks⟩ := h
  have htransfer := StrictLedger.ends_sendCoins.of_ok hsent
  obtain ⟨v, hv, hbond⟩ := StrictLedger.ends_delegate.of_ok hbonded
  have hbalances : c'.ledger.books.balances = sent.books.balances ∧
      c'.ledger.books.denom = sent.books.denom := by
    obtain ⟨_, _, -, -, hafter⟩ := Books.bond?_eq_some hbond
    rw [hafter]
    exact ⟨rfl, rfl⟩
  constructor
  · exact hbalances.2.trans htransfer.denom_eq
  · intro x hx
    rw [List.map_singleton, List.mem_singleton] at hx
    subst hx
    exact hlocks.lockedSum_le hs
  · intro x hx
    rw [List.map_singleton, List.mem_singleton] at hx
    exact hlocks.lockedSum_of_ne hs hx
  · intro x hx
    rw [List.map_singleton, List.mem_singleton] at hx
    have hsame : sent.books.delegatedSum x = c.ledger.books.delegatedSum x := by
      unfold Books.delegatedSum Books.delegationsOf Books.worth
      rw [htransfer.validators, htransfer.delegations]
    rw [← hsame]
    exact Books.delegatedSum_le_of_bond hv hbond hx
  · intro x hx
    rw [List.map_singleton, List.mem_singleton] at hx
    have hbalance := htransfer.balance x hx
    unfold Books.balance at hbalance
    unfold StrictLedger.liquid Books.balance
    rw [hbalances.1, hbalances.2, htransfer.denom_eq]
    simpa using hbalance

theorem paid_nil : Paid now sender [] c c where
  denom := rfl
  backed x hx := by cases hx
  locked x _ := rfl
  delegated x _ := le_rfl
  liquid x _ := by simp

theorem PaysAll.paid {bondDenom : String} {terms : Option Config}
    (h : PaysAll now sender bondDenom c payments c') (hdenom : c.ledger.books.denom = bondDenom)
    (hp : ∀ p ∈ payments, p.Payable terms now) (hs : c.store.Keyed) :
    Paid now sender payments c c' := by
  induction h with
  | nil => exact paid_nil
  | cons hfirst _ ih =>
    have hpayable := hp _ (List.mem_cons_self ..)
    subst hdenom
    have hpaid := hfirst.paid hs
    exact hpaid.cons (ih hpaid.denom (fun p hmem => hp p (List.mem_cons_of_mem _ hmem))
      ((hfirst.change hpayable).keyed hs))

/-- Payments that the sender can afford beside its shortfall uncover nobody. -/
theorem Paid.covered (h : Paid now sender payments c c')
    (hspend : c.CanSpend now sender (payments.map fun p => p.amount.toNat).sum)
    (hx : c.Covered now x) : c'.Covered now x := by
  by_cases hmem : x ∈ payments.map CheckedPayment.recipient
  · exact le_trans (h.backed x hmem) (Nat.le_add_left _ _)
  · have hlocked := h.locked x hmem
    have hdelegated := h.delegated x hmem
    have hliquid := h.liquid x hmem
    unfold Chain.Covered at hx ⊢
    by_cases hsender : x = sender
    · subst hsender
      rw [if_pos rfl] at hliquid
      unfold Chain.CanSpend Chain.Backed at hspend
      omega
    · rw [if_neg hsender] at hliquid
      omega

/-! ## The transaction check -/

theorem Backing.fullyBacked_iff {b : Backing} :
    b.fullyBacked ↔ b.locked.toNat ≤ b.delegated.toNat := by
  unfold fullyBacked
  rw [decide_eq_true_iff, Amount.le_def]

section

variable {σ : Type} {ctx : BackingContext σ} {account : LockupAccount} {b : Backing}

theorem BackingContext.eq_of_lockup?_eq_ok [AddressRule] {text : String}
    {found : Option LockupAccount} (h : ctx.lockup? text = .ok found) :
    found = ctx.store.lockup? ⟨text⟩ := by
  unfold lockup? at h
  obtain ⟨address, haddress, h⟩ := except_bind_eq_ok_iff.1 h
  rw [Check.ofResult_eq_ok_iff] at haddress
  rw [← Address.eq_of_ofText haddress]
  exact (Except.ok.inj h).symm

variable [HostLedger σ]

theorem LockupAccount.backing_eq_ok_iff {ledger : σ} {now : Timestamp} :
    account.backing ledger now = .ok b ↔
      account.schedule.lockedAmount? now = some b.locked ∧
        totalDelegated ledger account.address = .ok b.delegated := by
  unfold backing
  simp only [except_bind_eq_ok_iff, Check.orAbort_eq_ok_iff]
  constructor
  · rintro ⟨locked, hlocked, delegated, hdelegated, heq⟩
    cases heq
    exact ⟨hlocked, hdelegated⟩
  · rintro ⟨hlocked, hdelegated⟩
    exact ⟨b.locked, hlocked, b.delegated, hdelegated, rfl⟩

theorem le_available_of_checkCoin {backing : Backing} {coin : Coin}
    (hdenom : coin.denom = ctx.bondDenom) (h : ctx.checkCoin sender backing coin = .ok ()) :
    ∃ balance, HostLedger.balance ctx.ledger sender ctx.bondDenom = .ok balance ∧
      coin.amount ≤ backing.available balance := by
  unfold BackingContext.checkCoin at h
  rw [if_pos hdenom] at h
  obtain ⟨balance, hbalance, h⟩ := except_bind_eq_ok_iff.1 h
  rw [Check.ofSystem_eq_ok_iff, hdenom] at hbalance
  refine ⟨balance, hbalance, ?_⟩
  simp only at h
  split at h
  · cases h
  · rename_i hge
    exact Nat.not_lt.1 hge

/-- When a spend passes the check, the account is fully backed, or each bond coin by itself
leaves the balance enough to cover the shortfall. -/
theorem fits_of_checkSpend [AddressRule] {coins : List Coin}
    (haccount : ctx.store.lockup? sender = some account)
    (h : ctx.checkSpend sender.text coins = .ok ()) : ∃ delegated,
    totalDelegated ctx.ledger account.address = .ok delegated ∧
      (account.schedule.lockedSum ctx.now ≤ delegated.toNat ∨
        ∀ coin ∈ coins, coin.denom = ctx.bondDenom → ∃ balance,
          HostLedger.balance ctx.ledger account.address ctx.bondDenom = .ok balance ∧
          coin.amount.toNat ≤
            balance.toNat - (account.schedule.lockedSum ctx.now - delegated.toNat)) := by
  unfold BackingContext.checkSpend at h
  obtain ⟨found, hfound, h⟩ := except_bind_eq_ok_iff.1 h
  obtain rfl : found = some account :=
    (BackingContext.eq_of_lockup?_eq_ok hfound).trans haccount
  obtain ⟨backing, hbacking, h⟩ := except_bind_eq_ok_iff.1 h
  obtain ⟨hlocked, hdelegated⟩ := LockupAccount.backing_eq_ok_iff.1 hbacking
  rw [Schedule.lockedAmount?_eq, Amount.ofNat?_eq_some_iff] at hlocked
  refine ⟨backing.delegated, hdelegated, ?_⟩
  rw [hlocked]
  by_cases hbacked : backing.fullyBacked
  · exact .inl (Backing.fullyBacked_iff.1 hbacked)
  · right
    rw [if_neg hbacked, forM_eq_ok_iff] at h
    exact fun coin hcoin hdenom => le_available_of_checkCoin hdenom (h coin hcoin)

end

theorem canSpend_of_checkSpend [AddressRule] {coin : Coin} (hs : c.store.Keyed)
    (hdenom : coin.denom = c.ledger.books.denom)
    (h : BackingContext.checkSpend ⟨c.store, c.ledger, now, c.ledger.books.denom⟩ sender.text
      [coin] = .ok ()) : c.CanSpend now sender coin.amount.toNat := by
  unfold Chain.CanSpend Chain.Backed Store.lockedSum
  cases haccount : c.store.lockup? sender with
  | none => exact .inl (Nat.zero_le _)
  | some account =>
    obtain ⟨delegated, hdelegated, hfits⟩ := fits_of_checkSpend haccount h
    rw [hs.lockup_address haccount] at hdelegated hfits
    rw [← Books.toNat_of_totalDelegated hdelegated]
    refine hfits.imp_right fun hfits => ?_
    obtain ⟨balance, hbalance, hle⟩ := hfits coin (List.mem_singleton_self _) hdenom
    cases hbalance
    exact hle

section

variable [AddressRule] {block : Block} {request : Request} {payer : Option String}
variable {response : Response}

theorem canSpend_of_checkTx {coin : Coin} (hs : c.store.Keyed)
    (h : (checkTx block ⟨[.lockup sender.text request], payer⟩).run c = .ok () c')
    (hfunds : request.funds? c.ledger.books.denom = some coin)
    (hdenom : coin.denom = c.ledger.books.denom) :
    c.CanSpend block.time sender coin.amount.toNat := by
  obtain ⟨-, bondDenom, hbond, hmsgs⟩ := ends_checkTx.of_ok h
  cases hbond
  simp only [BackingContext.checkMsgs] at hmsgs
  obtain ⟨_, hmsg, -⟩ := except_bind_eq_ok_iff.1 hmsgs
  simp only [BackingContext.checkMsg, TxMsg.demands, hfunds, Option.map_some,
    Option.toList_some] at hmsg
  obtain ⟨_, hdemand, -⟩ := except_bind_eq_ok_iff.1 hmsg
  exact canSpend_of_checkSpend hs hdenom hdemand

theorem sum_amount_of_checks {l : StrictLedger} {config : Config} {asked : List LockedPayment}
    (h : (asked.mapM fun p => p.check config l now) = .ok payments) :
    (payments.map fun p => p.amount.toNat).sum = (asked.map fun p => p.amount.toNat).sum := by
  rw [mapM_eq_ok_iff] at h
  induction h with
  | nil => rfl
  | cons hcheck _ ih =>
    rw [List.map_cons, List.sum_cons, List.map_cons, List.sum_cons, ih,
      (LockedPayment.of_check hcheck).2.2.1]

theorem covered_of_execute (hs : c.store.Keyed)
    (hcheck : (checkTx block ⟨[.lockup sender.text request], payer⟩).run c = .ok () c')
    (hrun : (execute block.time sender request).run c = .ok response c'')
    (hx : c.Covered block.time x) : c''.Covered block.time x := by
  cases request with
  | lock entries =>
    obtain ⟨hledger, locks, -, hlocks⟩ := ends_executeLock.of_ok hrun
    unfold Chain.Covered at hx ⊢
    rw [hledger]
    by_cases hsender : x = sender
    · subst hsender
      exact le_trans (hlocks.lockedSum_le hs) (Nat.le_add_left _ _)
    · rw [hlocks.lockedSum_of_ne hs hsender]
      exact hx
  | extend extensions =>
    obtain ⟨hledger, -⟩ := ends_executeExtend.of_ok hrun
    unfold Chain.Covered at hx ⊢
    rw [hledger, lockedSum_of_extend hs hrun x]
    exact hx
  | pay payment =>
    obtain ⟨bondDenom, config, checked, hdenom, hchecked, -, hpays⟩ := ends_executePay.of_ok hrun
    cases hdenom
    refine (hpays.paid hs).covered ?_ hx
    have hspend := canSpend_of_checkTx hs hcheck rfl rfl
    simpa [(LockedPayment.of_check hchecked).2.2.1] using hspend
  | payMany total payments =>
    obtain ⟨bondDenom, config, checked, hdenom, hsum, hchecked, hp, hall⟩ :=
      ends_executePayMany.of_ok hrun
    cases hdenom
    refine (hall.paid rfl hp hs).covered ?_ hx
    rw [sum_amount_of_checks hchecked, hsum]
    exact canSpend_of_checkTx hs hcheck rfl rfl
  | updateConfig change =>
    have hsame : Ends (fun _ c'' => c''.store.accounts = c.store.accounts ∧ c''.ledger = c.ledger)
        (fun _ _ => True) ((execute block.time sender (.updateConfig change)).run c) := by
      refine ChainM.ends_onStore.2 (ends_updateConfig.mono ?_ fun _ _ _ => trivial)
      rintro _ k ⟨-, config, -, hk⟩
      change k.store.accounts = _ ∧ _
      rw [hk]
      exact ⟨rfl, rfl⟩
    obtain ⟨haccounts, hledger⟩ := hsame.of_ok hrun
    unfold Chain.Covered at hx ⊢
    rw [hledger, Store.lockedSum_eq_lockedWhere, Store.lockedWhere_congr haccounts,
      ← Store.lockedSum_eq_lockedWhere]
    exact hx

end

namespace FirstLock

/-- The chain after the first lock, when the validator has been slashed by 70 of 100 tokens. -/
def slashed : Chain StrictLedger :=
  ⟨chain.journal,
    finalState ((StrictLedger.slash "val" ⟨⟨7 * 10 ^ 17, by decide⟩⟩).run ledger)⟩

def delegated : Amount := ⟨30, by decide⟩

theorem slashed_store : slashed.store = chain.store := by
  simp only [slashed, Chain.store]

theorem reached_slashed : Host.lenient.Reaches block.time slashed.store := by
  rw [slashed_store]
  exact reached.lenient

def given : Amount := ⟨15, by decide⟩

def gift : Request := .pay ⟨"bob", "val", given, "1970-03-01"⟩

def tx : Tx := ⟨[.lockup alice.text gift], none⟩

def checked : Chain StrictLedger := finalState ((checkTx block tx).run slashed)

def paid : Chain StrictLedger := finalState ((execute block.time alice gift).run checked)

end FirstLock

/-- In every reachable store and on every strict ledger: if the transaction check lets a
request through and the request then succeeds, every address whose balance and
delegations covered what it has locked is covered afterwards as well. -/
theorem accepted_request_uncovers_nobody [AddressRule] {last : Timestamp}
    {c checked after : Chain StrictLedger} {block : Block} {sender x : Address}
    {request : Request} {payer : Option String} {response : Response}
    (h : Host.lenient.Reaches last c.store)
    (hcheck : (checkTx block ⟨[.lockup sender.text request], payer⟩).run c = .ok () checked)
    (hrun : (execute block.time sender request).run checked = .ok response after)
    {delegated delegated' : Amount} (hbefore : totalDelegated c.ledger x = .ok delegated)
    (hafter : totalDelegated after.ledger x = .ok delegated')
    (hcovered : c.store.lockedSum x block.time ≤
      (c.ledger.books.balance x c.ledger.books.denom).toNat + delegated.toNat) :
    after.store.lockedSum x block.time ≤
      (after.ledger.books.balance x after.ledger.books.denom).toNat + delegated'.toNat := by
  obtain ⟨rfl, -⟩ := ends_checkTx.of_ok hcheck
  rw [Books.toNat_of_totalDelegated hbefore] at hcovered
  rw [Books.toNat_of_totalDelegated hafter]
  exact covered_of_execute h.keyed hcheck hrun hcovered

/-- Alice pays 15 of her 40 tokens while 20 of them cover the shortfall of her first lock. -/
theorem first_lock_stays_covered : FirstLock.paid.store.lockedSum FirstLock.alice
    FirstLock.block.time ≤ (FirstLock.paid.ledger.books.balance FirstLock.alice
      FirstLock.paid.ledger.books.denom).toNat + FirstLock.delegated.toNat := by
  obtain ⟨_, hcheck⟩ : ∃ u, (checkTx FirstLock.block FirstLock.tx).run FirstLock.slashed =
      .ok u FirstLock.checked := exists_ok_of_succeeds (by decide +kernel)
  obtain ⟨response, hrun⟩ : ∃ response, (execute FirstLock.block.time FirstLock.alice
      FirstLock.gift).run FirstLock.checked = .ok response FirstLock.paid :=
    exists_ok_of_succeeds (by decide +kernel)
  have hbefore : totalDelegated FirstLock.slashed.ledger FirstLock.alice =
      .ok FirstLock.delegated := by decide +kernel
  have hafter : totalDelegated FirstLock.paid.ledger FirstLock.alice =
      .ok FirstLock.delegated := by decide +kernel
  have hcovered : FirstLock.slashed.store.lockedSum FirstLock.alice FirstLock.block.time ≤
      (FirstLock.slashed.ledger.books.balance FirstLock.alice
        FirstLock.slashed.ledger.books.denom).toNat + FirstLock.delegated.toNat := by
    decide +kernel
  exact accepted_request_uncovers_nobody FirstLock.reached_slashed hcheck hrun hbefore hafter
    hcovered

end StakeLock
