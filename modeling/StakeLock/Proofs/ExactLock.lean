import StakeLock.Proofs.Effect.Store
import StakeLock.Proofs.Extension
import StakeLock.Proofs.RoundTrip

/-!
# Locking, exactly

A request for locks succeeds under just these conditions: it carries as many entries as one
request may, each of them asks for a lock that the window admits, the delegations cover the
new locks together with the old ones, and there is room for them. What is entered then is a
sum for each date, whatever the order of the entries and however often a date comes up.
-/

namespace StakeLock

/-! ## Entries -/

section

variable {now : Timestamp} {date : Date} {config : Config} {bondDenom : String}

/-- An entry asks for a positive amount of the bond denomination to be locked until a date
that lies in the window. -/
structure LockEntry.Asks (config : Config) (bondDenom : String) (now : Timestamp)
    (entry : LockEntry) (l : Date × Amount) : Prop where
  denom : entry.amount.denom = bondDenom
  amount : entry.amount.amount = l.2
  positive : 0 < l.2.toNat
  date : parseDate entry.date = .ok l.1
  earliest : (blockDate now).monthsFrom config.minMonths ≤ l.1
  latest : l.1 ≤ (blockDate now).monthsFrom config.maxMonths

theorem LockEntry.check_eq_ok_iff {entry : LockEntry} {l : Date × Amount} :
    entry.check config bondDenom now = .ok l ↔ entry.Asks config bondDenom now l := by
  unfold check
  simp only [except_bind_eq_ok_iff]
  constructor
  · intro h
    obtain ⟨_, hcoin, date, hdate, _, hwindow, hl⟩ := h
    cases hl
    obtain ⟨hne, hdenom⟩ := checkBondCoin_eq_ok_iff.1 hcoin
    obtain ⟨hearliest, hlatest⟩ := checkUnlockWindow_eq_ok_iff.1 hwindow
    exact ⟨hdenom, rfl, Amount.toNat_pos hne, hdate, hearliest, hlatest⟩
  · intro h
    have hne : entry.amount.amount ≠ Amount.zero := h.amount ▸ Amount.ne_zero_of_pos h.positive
    have hcoin := checkBondCoin_eq_ok_iff.2 ⟨hne, h.denom⟩
    have hwindow := checkUnlockWindow_eq_ok_iff.2 ⟨h.earliest, h.latest⟩
    refine ⟨(), hcoin, l.1, h.date, (), hwindow, ?_⟩
    rw [h.amount]
    rfl

theorem LockEntry.rightUnique_asks : Relator.RightUnique (LockEntry.Asks config bondDenom now) := by
  intro entry l l' h h'
  have hchecked := LockEntry.check_eq_ok_iff.2 h
  rw [LockEntry.check_eq_ok_iff.2 h'] at hchecked
  exact (Except.ok.inj hchecked).symm

variable {σ : Type} [HostLedger σ] {c : Chain σ} {entries : List LockEntry}

theorem planLock_eq_ok_iff (hconfig : c.store.config = some config)
    (hdenom : HostLedger.bondDenom c.ledger = .ok bondDenom) {plan : LockPlan} :
    planLock now entries c = .ok plan ↔
      (1 ≤ entries.length ∧ entries.length ≤ config.maxEntries) ∧ plan.bondDenom = bondDenom ∧
      List.Forall₂ (LockEntry.Asks config bondDenom now) entries plan.locks := by
  unfold planLock
  simp only [except_bind_eq_ok_iff, mapError_eq_ok_iff, Store.getConfig_eq_ok_iff, hconfig, hdenom,
    mapM_eq_ok_iff, LockEntry.check_eq_ok_iff]
  constructor
  · intro h
    obtain ⟨_, heq, _, hcount, _, heq', locks, hlocks, hplan⟩ := h
    cases heq
    cases heq'
    cases hplan
    exact ⟨Config.checkEntryCount_eq_ok_iff.1 hcount, rfl, hlocks⟩
  · intro h
    obtain ⟨hcount, hbond, hlocks⟩ := h
    have hcounted := Config.checkEntryCount_eq_ok_iff.2 hcount
    refine ⟨config, rfl, (), hcounted, bondDenom, rfl, plan.locks, hlocks, ?_⟩
    rw [← hbond]
    rfl

end

/-! ## Success -/

/-- The locks of a plan can be added for a sender: there is an account or a number for one,
the delegations cover all that is locked then, and nothing gets too large. -/
structure LockPlan.Addable {σ : Type} [HostLedger σ] (plan : LockPlan) (now : Timestamp)
    (sender : Address) (c : Chain σ) : Prop where
  openable : c.store.Openable sender
  covered : ∃ delegated, totalDelegated c.ledger sender = .ok delegated ∧
    c.store.lockedSum sender now + (plan.locks.map fun l => l.2.toNat).sum ≤ delegated.toNat
  fits : c.store.Fits sender plan.locks

section

variable {σ : Type} [HostLedger σ] {now : Timestamp} {sender : Address}

theorem Store.Mirrors.lockedOn_lt {s : Store} (h : s.Mirrors now) (a : Address) (date : Date) :
    s.lockedOn a date < 2 ^ 128 := by
  cases haccount : s.lockup? a with
  | none =>
    rw [lockedOn_of_lockup?_eq_none haccount]
    decide
  | some account =>
    rw [lockedOn_of_lockup? haccount]
    exact (h.ordered haccount).amountOn_lt date

section

variable {ledger : σ} {locks : List (Date × Amount)} {s t : Store}

theorem Locks.undergoes (h : Locks now ledger sender locks s t)
    (hne : ∀ l ∈ locks, l.2 ≠ Amount.zero) : s.Undergoes sender (.ofLocks locks) t := by
  obtain ⟨account, opened, d, delegated, hopens, hadds, ht, -, -⟩ := h
  exact ⟨account, opened, d, hopens, hadds.alters hne, ht⟩

theorem Locks.fits (hs : s.Mirrors now) (h : Locks now ledger sender locks s t)
    (hne : ∀ l ∈ locks, l.2 ≠ Amount.zero) : s.Fits sender locks := by
  have ht : t.Mirrors now := by
    obtain ⟨account, opened, d, delegated, hopens, hadds, rfl, -, -⟩ := h
    exact hadds.mirrors hne (hs.opens hopens)
  have hundergoes := h.undergoes hne
  constructor
  · have htotal := hundergoes.total_eq
    have hlt := t.total.toNat_lt
    simp only [Effect.ofLocks] at htotal
    omega
  · intro date
    have hlocked := hundergoes.lockedOn_add hs.keyed date
    have hlt := ht.lockedOn_lt sender date
    simp only [Effect.ofLocks, amountsOn] at hlocked
    omega

end

variable {c : Chain σ} {entries : List LockEntry}

theorem Locks.addable {plan : LockPlan} {t : Store} (hs : c.store.Mirrors now)
    (h : Locks now c.ledger sender plan.locks c.store t)
    (hne : ∀ l ∈ plan.locks, l.2 ≠ Amount.zero) : plan.Addable now sender c := by
  have hfits := h.fits hs hne
  obtain ⟨account, opened, d, delegated, hopens, -, -, htold, hle⟩ := h
  rw [hopens.lockedSum_eq] at hle
  exact ⟨hopens.openable, ⟨delegated, htold, hle⟩, hfits⟩

/-- What a request for locks has done when it succeeds. -/
theorem Store.Mirrors.ends_executeLock (h : c.store.Mirrors now) : Ends
    (fun response c' => ∃ plan, planLock now entries c = .ok plan ∧ plan.Addable now sender c ∧
      response = ⟨[("action", "lock"), ("from", sender.text)],
        plan.locks.map fun l => .locked sender l.1 ⟨plan.bondDenom, l.2⟩⟩ ∧
      c'.ledger = c.ledger ∧ c.store.Undergoes sender (.ofLocks plan.locks) c'.store)
    (fun _ _ => True) ((executeLock now sender entries).run c) := by
  refine ends_executeLock_planned.mono ?_ fun _ _ _ => trivial
  intro response c' hlocked
  obtain ⟨plan, hplan, hresponse, hledger, hlocks⟩ := hlocked
  have hne : ∀ l ∈ plan.locks, l.2 ≠ Amount.zero := fun l hl => (of_planLock hplan l hl).2
  have hadd := hlocks.addable h hne
  exact ⟨plan, hplan, hadd, hresponse, hledger, hlocks.undergoes hne⟩

theorem Store.Mirrors.executeLock_succeeds (h : c.store.Mirrors now) {plan : LockPlan}
    (hplan : planLock now entries c = .ok plan) (hadd : plan.Addable now sender c) :
    succeeds ((executeLock now sender entries).run c) := by
  obtain ⟨delegated, htold, hcovered⟩ := hadd.covered
  have hmeasured := Nat.lt_of_le_of_lt hcovered delegated.toNat_lt
  rw [succeeds_iff, ends_executeLock_iff, ends_bind, ends_accept, hplan]
  constructor
  · intro same hsame
    cases hsame
    rw [ends_bind]
    refine (h.ends_lockDelegated (of_planLock hplan) hadd.fits hmeasured htold).mono
      (fun _ _ _ => trivial) ?_
    intro fault c' hfails
    obtain ⟨locked, hlocked, hlt, -⟩ := hfails hadd.openable
    rw [hlocked] at hcovered
    exact absurd hlt (Nat.not_lt.2 hcovered)
  · intro reason hnone
    cases hnone

end

/-! ## The result -/

namespace Store

/-- Locks are entered for an address: on each date its schedule and its queue entry grow by
what is asked for that date, and the aggregate by all of it. The account is opened if need
be, and all else stays as it is. -/
structure Enters (s : Store) (address : Address) (locks : List (Date × Amount)) (t : Store) :
    Prop where
  locked : ∀ date, t.lockedOn address date = s.lockedOn address date + amountsOn locks date
  queued : ∀ date time, unlockTime? date = some time →
    t.queuedAt ⟨time, address⟩ = s.queuedAt ⟨time, address⟩ + amountsOn locks date
  total : t.total.toNat = s.total.toNat + (locks.map fun l => l.2.toNat).sum
  account : ∃ account opened x, s.Opens address account opened ∧
    t.account? address = some (.lockup x) ∧ x.base = account.base ∧
    t = { opened with accounts := t.accounts, queue := t.queue, totalLocked := t.totalLocked }
  accounts : ∀ a, a ≠ address → t.account? a = s.account? a
  entries : ∀ key, key.address ≠ address → t.queue.get? key = s.queue.get? key

theorem Undergoes.enters {s t : Store} {address : Address} {locks : List (Date × Amount)}
    (hs : s.Keyed) (h : s.Undergoes address (.ofLocks locks) t) : s.Enters address locks t where
  locked := h.lockedOn_add hs
  queued _ _ hdate := h.queuedAt_add hs hdate
  total := h.total_eq
  account := h.exists_opens hs
  accounts _ hne := h.account?_of_ne hs hne
  entries _ hne := h.get?_of_ne hs hne

theorem openable_iff {s : Store} {address : Address} : s.Openable address ↔
    (s.account? address = none → s.nextAccountNumber.getD 0 + 1 ≤ 2 ^ 64 - 1) := by
  unfold Openable accountNumberBound
  by_cases hnone : s.account? address = none <;> simp [hnone]
  omega

end Store

section

variable {σ : Type} [HostLedger σ] [AddressRule] {c : Chain σ} {last now : Timestamp}
variable {config : Config} {bondDenom : String} {sender : Address} {delegated : Amount}

/-- In a store that a host with an orderly clock can reach, at every time from the last block
on, and with a ledger that answers: a request for locks succeeds exactly if it has at least
one entry and no more than a request may carry, each entry asks for a positive amount of the
bond denomination until a date inside the window, what is locked and what is asked for
together are at most what the sender has delegated, and neither the aggregate, nor what is
locked until any date, nor for a sender without an account the account counter gets too
large. It then announces the locks in order, and enters them and nothing else. -/
theorem lock_succeeds_exactly (h : Host.anyTotal.Reaches last c.store) (hnow : last ≤ now)
    (hconfig : c.store.config = some config)
    (hdenom : HostLedger.bondDenom c.ledger = .ok bondDenom)
    (htold : totalDelegated c.ledger sender = .ok delegated) (entries : List LockEntry) :
    ((∃ response c', (execute now sender (.lock entries)).run c = .ok response c') ↔
      (1 ≤ entries.length ∧ entries.length ≤ config.maxEntries) ∧
      ∃ locks, List.Forall₂ (LockEntry.Asks config bondDenom now) entries locks ∧
        c.store.lockedSum sender now + (locks.map fun l => l.2.toNat).sum ≤ delegated.toNat ∧
        c.store.total.toNat + (locks.map fun l => l.2.toNat).sum ≤ 2 ^ 128 - 1 ∧
        (∀ date, c.store.lockedOn sender date + amountsOn locks date ≤ 2 ^ 128 - 1) ∧
        (c.store.account? sender = none →
          c.store.nextAccountNumber.getD 0 + 1 ≤ 2 ^ 64 - 1)) ∧
    ∀ response c', (execute now sender (.lock entries)).run c = .ok response c' →
      ∃ locks, List.Forall₂ (LockEntry.Asks config bondDenom now) entries locks ∧
        response = ⟨[("action", "lock"), ("from", sender.text)],
          locks.map fun l => .locked sender l.1 ⟨bondDenom, l.2⟩⟩ ∧
        c'.ledger = c.ledger ∧ c.store.Enters sender locks c'.store := by
  have hs : c.store.Mirrors now := h.mirrors hnow
  refine ⟨⟨?_, ?_⟩, ?_⟩
  · intro hrun
    obtain ⟨response, c', hrun⟩ := hrun
    obtain ⟨plan, hplan, hadd, -⟩ := hs.ends_executeLock.of_ok hrun
    obtain ⟨hcount, -, hasks⟩ := (planLock_eq_ok_iff hconfig hdenom).1 hplan
    obtain ⟨told, htold', hcovered⟩ := hadd.covered
    cases htold.symm.trans htold'
    refine ⟨hcount, plan.locks, hasks, hcovered, ?_, ?_, Store.openable_iff.1 hadd.openable⟩
    · exact Nat.le_sub_one_of_lt hadd.fits.total
    · exact fun date => Nat.le_sub_one_of_lt (hadd.fits.dates date)
  · intro hconditions
    obtain ⟨hcount, locks, hasks, hcovered, htotal, hdates, hcounter⟩ := hconditions
    have hplan : planLock now entries c = .ok ⟨bondDenom, locks⟩ :=
      (planLock_eq_ok_iff hconfig hdenom).2 ⟨hcount, rfl, hasks⟩
    have hfits : c.store.Fits sender locks :=
      ⟨Nat.lt_of_le_sub_one (by decide) htotal, fun date =>
        Nat.lt_of_le_sub_one (by decide) (hdates date)⟩
    have hadd : LockPlan.Addable ⟨bondDenom, locks⟩ now sender c :=
      ⟨Store.openable_iff.2 hcounter, ⟨delegated, htold, hcovered⟩, hfits⟩
    obtain ⟨response, hrun⟩ := exists_ok_of_succeeds (hs.executeLock_succeeds hplan hadd)
    exact ⟨response, _, hrun⟩
  · intro response c' hrun
    obtain ⟨plan, hplan, -, hresponse, hledger, hundergoes⟩ := hs.ends_executeLock.of_ok hrun
    obtain ⟨-, hbond, hasks⟩ := (planLock_eq_ok_iff hconfig hdenom).1 hplan
    rw [hbond] at hresponse
    exact ⟨plan.locks, hasks, hresponse, hledger, hundergoes.enters hs.keyed⟩

end

namespace FirstLock

/-- Two amounts for the date that alice has locked 50 tokens until. -/
def again : List LockEntry :=
  [⟨"1970-03-01", "stake", tokens 20⟩, ⟨"1970-03-01", "stake", tokens 30⟩]

def againLocks : List (Date × Amount) :=
  [(firstDate, tokens 20), (firstDate, tokens 30)]

end FirstLock

open FirstLock in
/-- Alice may lock the rest of what she has delegated, in two entries for one date. Both are
announced, and both are added to what she has locked until then. -/
theorem rest_of_delegations_locked : ∃ response c',
    (execute block.time alice (.lock again)).run chain = .ok response c' ∧
    response.events = againLocks.map (fun l => .locked alice l.1 ⟨"stake", l.2⟩) ∧
    c'.store.lockedOn alice ⟨59, by decide, by decide⟩ = 100 ∧ c'.store.total.toNat = 100 := by
  have hconfig : chain.store.config = some ⟨alice, 0, 24, 100⟩ := by decide +kernel
  have hdenom : HostLedger.bondDenom chain.ledger = .ok "stake" := by decide +kernel
  have htold : totalDelegated chain.ledger alice = .ok ⟨100, by decide⟩ := by decide +kernel
  have hholder : chain.store.lockup? alice = some holder := by decide +kernel
  have hsum : chain.store.lockedSum alice block.time = 50 := by decide +kernel
  have htotal : chain.store.total.toNat = 50 := by decide +kernel
  have hlocked : ∀ date, chain.store.lockedOn alice date = holder.schedule.amountOn date :=
    fun date => Store.lockedWhere_of_lockup? hholder _
  have hasks : List.Forall₂ (LockEntry.Asks ⟨alice, 0, 24, 100⟩ "stake" block.time) again
      againLocks := by
    refine .cons ⟨rfl, rfl, by decide, ?_, ?_, ?_⟩ (.cons ⟨rfl, rfl, by decide, ?_, ?_, ?_⟩ .nil)
    all_goals decide +kernel
  have hroom : ∀ date, chain.store.lockedOn alice date + amountsOn againLocks date ≤
      2 ^ 128 - 1 := by
    intro date
    rw [hlocked]
    simp only [Schedule.amountOn, Schedule.amountWhere, Schedule.weight, holder, firstDate,
      amountsOn, againLocks, List.map_cons, List.map_nil, List.sum_cons, List.sum_nil,
      decide_eq_true_eq]
    split <;> decide
  obtain ⟨hiff, heffect⟩ := lock_succeeds_exactly reached.anyTotal (Nat.le_refl _) hconfig hdenom
    htold again
  obtain ⟨response, c', hrun⟩ := hiff.2 ⟨by decide, againLocks, hasks, by rw [hsum]; decide,
    by rw [htotal]; decide, hroom, fun hnone => by simp [Store.lockup?, hnone] at hholder⟩
  obtain ⟨locks, hasks', hresponse, -, henters⟩ := heffect response c' hrun
  cases LockEntry.rightUnique_asks.forall₂ hasks' hasks
  refine ⟨response, c', hrun, by rw [hresponse], ?_, ?_⟩
  · rw [henters.locked, hlocked]
    decide
  · rw [henters.total, htotal]
    decide

end StakeLock
