import StakeLock.Proofs.EndOfBlock
import StakeLock.Proofs.Interchange

/-!
# Announced totals

Whoever adds up the events of a run knows what has been locked for an account. What expires
is announced on two paths, from the schedule of a fee payer and from the queue, and each
path announces no more than has been locked. But both announce the same locks: a sweep
leaves them in the schedule, where they are found again when their owner pays fees.
-/

namespace StakeLock

/-! ## Totals of events -/

namespace Event

/-- How much an event announces as locked for an address. -/
def lockedFor (a : Address) : Event → Nat
  | locked b _ amount => if b = a then amount.amount.toNat else 0
  | _ => 0

/-- How much an event announces as expired for an address. -/
def expiredFor (a : Address) : Event → Nat
  | expired b _ amount => if b = a then amount.toNat else 0
  | _ => 0

end Event

def lockedTotal (a : Address) (events : List Event) : Nat := (events.map (Event.lockedFor a)).sum

def expiredTotal (a : Address) (events : List Event) : Nat :=
  (events.map (Event.expiredFor a)).sum

section

variable {a : Address} {events more : List Event}

@[simp] theorem expiredTotal_nil : expiredTotal a [] = 0 := rfl

@[simp] theorem lockedTotal_append :
    lockedTotal a (events ++ more) = lockedTotal a events + lockedTotal a more := by
  simp [lockedTotal]

@[simp] theorem expiredTotal_append :
    expiredTotal a (events ++ more) = expiredTotal a events + expiredTotal a more := by
  simp [expiredTotal]

section

variable {α : Type} {f : α → Event} (xs : List α)

theorem lockedTotal_map_eq_zero (h : ∀ x, (f x).lockedFor a = 0) :
    lockedTotal a (xs.map f) = 0 := by
  unfold lockedTotal
  rw [List.map_map]
  exact List.sum_eq_zero (List.forall_mem_map.2 fun x _ => h x)

theorem expiredTotal_map_eq_zero (h : ∀ x, (f x).expiredFor a = 0) :
    expiredTotal a (xs.map f) = 0 := by
  unfold expiredTotal
  rw [List.map_map]
  exact List.sum_eq_zero (List.forall_mem_map.2 fun x _ => h x)

end

variable (address : Address)

theorem lockedTotal_map_locked (denom : String) (locks : List (Date × Amount)) :
    lockedTotal a (locks.map fun l => .locked address l.1 ⟨denom, l.2⟩) =
      if address = a then (locks.map fun l => l.2.toNat).sum else 0 := by
  unfold lockedTotal
  rw [List.map_map]
  change (locks.map fun l => if address = a then l.2.toNat else 0).sum = _
  split <;> simp

theorem expiredTotal_map_expired (locks : List Lock) :
    expiredTotal a (locks.map fun l => .expired address (.date l.date) l.amount) =
      if address = a then (locks.map fun l => l.amount.toNat).sum else 0 := by
  unfold expiredTotal
  rw [List.map_map]
  change (locks.map fun l => if address = a then l.amount.toNat else 0).sum = _
  split <;> simp

end

/-! ## What is scheduled and queued for an account -/

namespace Store

variable {s t u : Store} {a : Address}

/-- All that the schedule of an account holds, expired or not. -/
def scheduledSum (s : Store) (a : Address) : Nat := s.lockedWhere a fun _ => true

def queuedFor (s : Store) (a : Address) : Nat := s.queuedWhere fun key => key.address = a

/-- What is announced of an account accounts for its schedule, and for its part of the queue
up to the entries that are cleared. -/
structure Tallies (s t : Store) (a : Address) (locked drained swept : Nat) : Prop where
  scheduled : t.scheduledSum a + drained = s.scheduledSum a + locked
  queued : t.queuedFor a + swept ≤ s.queuedFor a + locked

theorem tallies_of_eq (haccounts : t.accounts = s.accounts) (hqueue : t.queue = s.queue) :
    s.Tallies t a 0 0 0 := by
  constructor
  · exact lockedWhere_congr haccounts a _
  · unfold queuedFor queuedWhere
    rw [hqueue]

theorem Tallies.trans {locked locked' drained drained' swept swept' : Nat}
    (h : s.Tallies t a locked drained swept) (h' : t.Tallies u a locked' drained' swept') :
    s.Tallies u a (locked + locked') (drained + drained') (swept + swept') := by
  have hscheduled := h.scheduled
  have hqueued := h.queued
  have hscheduled' := h'.scheduled
  have hqueued' := h'.queued
  constructor <;> omega

theorem queuedFor_enqueue (s : Store) (time : Nat) (address a : Address) (amount : Amount) :
    (s.enqueue ⟨time, address⟩ amount).queuedFor a +
        (if address = a then s.queuedAt ⟨time, address⟩ else 0) =
      s.queuedFor a + if address = a then amount.toNat else 0 := by
  have h := s.queuedWhere_enqueue (fun key => key.address = a) ⟨time, address⟩ amount
  simp only [decide_eq_true_eq] at h
  exact h

theorem queuedFor_leaveQueued (s : Store) (time : Nat) (address a : Address) (rest : Amount) :
    (s.leaveQueued ⟨time, address⟩ rest).queuedFor a +
        (if address = a then s.queuedAt ⟨time, address⟩ else 0) =
      s.queuedFor a + if address = a then rest.toNat else 0 := by
  have h := s.queuedWhere_leaveQueued (fun key => key.address = a) ⟨time, address⟩ rest
  simp only [decide_eq_true_eq] at h
  exact h

theorem Releases.queuedFor_le {address : Address} {locks : List Lock}
    (h : s.Releases address locks t) (a : Address) : t.queuedFor a ≤ s.queuedFor a := by
  induction h with
  | nil => exact le_rfl
  | undated _ _ ih => exact ih
  | absent _ _ _ ih => exact ih
  | @taken s t _ _ time _ _ _ _ _ _ ih =>
    have hdequeued := s.queuedWhere_dequeue (fun key => key.address = a) ⟨time, address⟩
    unfold queuedFor at ih ⊢
    rw [queuedWhere_setTotal] at ih
    omega

end Store

namespace Draft

variable {d d' : Draft} {a : Address}

theorem Adds.queuedFor {locks : List (Date × Amount)} (h : d.Adds locks d') (a : Address) :
    d'.store.queuedFor a = d.store.queuedFor a +
      if d.account.address = a then (locks.map fun l => l.2.toNat).sum else 0 := by
  induction h with
  | nil => simp
  | @cons account s _ _ _ _ time _ queued _ _ _ hqueued _ _ ih =>
    have hadded := s.queuedFor_enqueue time account.address a queued
    rw [ih, List.map_cons, List.sum_cons]
    change (s.enqueue _ queued).queuedFor a + (if account.address = a then _ else 0) =
      s.queuedFor a + if account.address = a then _ else 0
    by_cases ha : account.address = a
    · simp only [if_pos ha] at hadded ⊢
      omega
    · simp only [if_neg ha] at hadded ⊢
      omega

theorem Moves.queuedFor {moves : List Move} (h : d.Moves moves d') (a : Address) :
    d'.store.queuedFor a = d.store.queuedFor a := by
  induction h with
  | nil => rfl
  | @cons account s _ _ _ sourceTime targetTime _ rest queued _ _ _ hrest hqueued _ ih =>
    have hleft := s.queuedFor_leaveQueued sourceTime account.address a rest
    have hadded := (s.leaveQueued ⟨sourceTime, account.address⟩ rest).queuedFor_enqueue
      targetTime account.address a queued
    rw [ih]
    by_cases ha : account.address = a
    · simp only [if_pos ha] at hleft hadded ⊢
      omega
    · simp only [if_neg ha] at hleft hadded ⊢
      omega

end Draft

/-! ## What a change announces -/

section

variable {now : Timestamp} {s opened t : Store} {address : Address} {account : LockupAccount}
variable {d : Draft}

theorem Draft.Adds.tallies {locks : List (Date × Amount)} (hs : s.Keyed)
    (hopens : s.Opens address account opened) (hadds : Draft.Adds ⟨account, opened⟩ locks d)
    (a : Address) : s.Tallies d.saved a
      (if address = a then (locks.map fun l => l.2.toNat).sum else 0) 0 0 := by
  constructor
  · have hlocked := hadds.lockedWhere_saved hs hopens a fun _ => true
    simp only [if_true, eq_comm (a := a)] at hlocked
    exact hlocked
  · have hqueued := hadds.queuedFor a
    simp only [hopens.address_eq hs] at hqueued
    have hopened : opened.queuedFor a = s.queuedFor a := by
      unfold Store.queuedFor Store.queuedWhere
      rw [hopens.queue_eq]
    rw [hopened] at hqueued
    exact hqueued.le

theorem Draft.Moves.tallies {moves : List Move} (hs : s.Keyed)
    (haccount : s.lockup? address = some account) (hmoves : Draft.Moves ⟨account, s⟩ moves d)
    (a : Address) : s.Tallies d.saved a 0 0 0 where
  scheduled := hmoves.lockedWhere_saved_eq hs haccount (fun _ _ => rfl) a
  queued := (hmoves.queuedFor a).le

theorem Store.Releases.tallies (hs : s.Keyed) (haccount : s.lockup? address = some account)
    (hreleases : s.Releases account.address (account.schedule.expired now) t) (a : Address) :
    s.Tallies (Draft.saved ⟨{ account with schedule := account.schedule.unexpired now }, t⟩) a 0
      (if address = a then ((account.schedule.expired now).map fun l => l.amount.toNat).sum else 0)
      0 := by
  have haddress : account.address = address := hs.lockup_address haccount
  constructor
  · have hsaved := Draft.lockedWhere_saved_of
      ⟨{ account with schedule := account.schedule.unexpired now }, t⟩
      hreleases.requeued.accounts_eq haddress a fun _ => true
    unfold Store.scheduledSum
    rw [hsaved]
    by_cases ha : address = a
    · rw [if_pos ha, if_pos ha.symm, ← ha, Store.lockedWhere_of_lockup? haccount]
      exact account.schedule.amountWhere_unexpired_add now fun _ => true
    · rw [if_neg ha, if_neg (Ne.symm ha)]
  · exact hreleases.queuedFor_le a

/-- A sweep takes from the queue just what it announces, and nothing from a schedule. -/
theorem Store.tallies_sweep {seconds : Nat} {total : Option Amount}
    {amounts : List (QueueKey × Amount)} (hdue : s.due seconds = Store.entriesOf amounts)
    (a : Address) :
    s.Tallies (s.withQueue (s.queue.filter fun e => !decide (e.1.time ≤ seconds)) total) a 0 0
      (expiredTotal a (amounts.map expiry)) := by
  constructor
  · rfl
  · have hsum := s.queue.weigh_filter_add
      (fun key entry => if key.address = a then entry.value else 0)
      fun e => decide (e.1.time ≤ seconds)
    have hswept : expiredTotal a (amounts.map expiry) =
        ((s.due seconds).map fun e => if e.1.address = a then e.2.value else 0).sum := by
      rw [hdue]
      unfold expiredTotal Store.entriesOf
      rw [List.map_map, List.map_map]
      rfl
    rw [hswept]
    unfold Store.queuedFor Store.queuedWhere
    simp only [decide_eq_true_eq]
    exact hsum.le

end

/-! ## What a call announces -/

section

variable {σ : Type} {c c' c'' : Chain σ} {now : Timestamp} {sender a : Address}

namespace Chain

/-- A request announces all that it locks, and nothing as expired. -/
def Announces (c : Chain σ) (a : Address) (events : List Event) (c' : Chain σ) : Prop :=
  expiredTotal a events = 0 ∧ c.store.Tallies c'.store a (lockedTotal a events) 0 0

theorem Announces.trans {events more : List Event} (h : c.Announces a events c')
    (h' : c'.Announces a more c'') : c.Announces a (events ++ more) c'' := by
  obtain ⟨hexpired, htallies⟩ := h
  obtain ⟨hexpired', htallies'⟩ := h'
  unfold Announces
  rw [expiredTotal_append, hexpired, hexpired', lockedTotal_append]
  exact ⟨rfl, htallies.trans htallies'⟩

theorem announces_nil {k : Journal} (haccounts : k.store.accounts = c.store.accounts)
    (hqueue : k.store.queue = c.store.queue) : c.Announces a [] ⟨k, c.ledger⟩ :=
  ⟨rfl, Store.tallies_of_eq haccounts hqueue⟩

end Chain

/-- Only the end of a block announces what it takes from the queue. All other calls announce
what they take from a schedule. -/
def Call.sweeps : Call → Bool
  | .hook .endBlock => true
  | _ => false

/-- What a successful call announces accounts for what it does. -/
def Call.Tallies (call : Call) (s t : Store) (a : Address) (events : List Event) : Prop :=
  s.Tallies t a (lockedTotal a events)
    (if !call.sweeps then expiredTotal a events else 0)
    (if call.sweeps then expiredTotal a events else 0)

theorem Chain.Announces.tallies {call : Call} {events : List Event} (h : c.Announces a events c') :
    call.Tallies c.store c'.store a events := by
  obtain ⟨hexpired, htallies⟩ := h
  unfold Call.Tallies
  rw [hexpired, ite_self, ite_self]
  exact htallies

variable [HostLedger σ]

theorem Locks.tallies {ledger : σ} {address : Address} {locks : List (Date × Amount)} {s t : Store}
    (h : Locks now ledger address locks s t) (hs : s.Keyed) (a : Address) : s.Tallies t a
      (if address = a then (locks.map fun l => l.2.toNat).sum else 0) 0 0 := by
  obtain ⟨account, opened, d, -, hopens, hadds, rfl, -, -⟩ := h
  exact hadds.tallies hs hopens a

theorem ends_executeLock_announces {entries : List LockEntry} (hs : c.store.Keyed) (a : Address) :
    Ends (fun r c' => c.Announces a r.events c') (fun _ _ => True)
      ((executeLock now sender entries).run c) := by
  refine ends_executeLock_planned.mono ?_ fun _ _ _ => trivial
  rintro _ c' ⟨plan, -, rfl, -, hlocks⟩
  constructor
  · exact expiredTotal_map_eq_zero _ fun _ => rfl
  · rw [lockedTotal_map_locked]
    exact hlocks.tallies hs a

theorem ends_executeExtend_announces {extensions : List Extension} (hs : c.store.Keyed)
    (a : Address) : Ends (fun r c' => c.Announces a r.events c') (fun _ _ => True)
      ((executeExtend now sender extensions).run c) := by
  refine ends_executeExtend_planned.mono ?_ fun _ _ _ => trivial
  rintro _ c' ⟨plan, hplan, rfl, -, d, hdraft, hc'⟩
  obtain ⟨-, haccount, -⟩ := of_planExtension hplan
  constructor
  · exact expiredTotal_map_eq_zero _ fun _ => rfl
  · rw [lockedTotal_map_eq_zero _ fun _ => rfl, hc']
    exact hdraft.tallies hs haccount a

theorem ends_pay_announces {bondDenom : String} {payment : CheckedPayment} {terms : Option Config}
    (hp : payment.Payable terms now) (hs : c.store.Keyed) (a : Address) :
    Ends (fun events c' => c.Announces a events c' ∧ c'.store.Keyed) (fun _ _ => True)
      ((pay now sender bondDenom payment).run c) := by
  refine (ends_pay hp).mono ?_ fun _ _ _ => trivial
  rintro _ c' ⟨hpays, shares, rfl⟩
  have hkeyed := (hpays.change hp).keyed hs
  obtain ⟨-, -, -, -, hlocks⟩ := hpays
  refine ⟨⟨rfl, ?_⟩, hkeyed⟩
  simpa [lockedTotal, Event.lockedFor] using hlocks.tallies hs a

theorem ends_payAll_announces {bondDenom : String} {payments : List CheckedPayment}
    {terms : Option Config} (hp : ∀ p ∈ payments, p.Payable terms now) (hs : c.store.Keyed)
    (a : Address) : Ends (fun events c' => c.Announces a events c') (fun _ _ => True)
      ((payAll now sender bondDenom payments).run c) := by
  induction payments generalizing c with
  | nil => exact Chain.announces_nil rfl rfl
  | cons payment payments ih =>
    obtain ⟨hfirst, hrest⟩ := List.forall_mem_cons.1 hp
    unfold payAll
    rw [ends_bind]
    apply (ends_pay_announces hfirst hs a).mono_ok
    rintro events c' ⟨hannounced, hkeyed⟩
    rw [ends_bind]
    apply (ih hrest hkeyed).mono_ok
    intro more c'' hmore
    exact hannounced.trans hmore

theorem ends_execute_announces [AddressRule] {request : Request} (hs : c.store.Keyed)
    (a : Address) : Ends (fun r c' => c.Announces a r.events c') (fun _ _ => True)
      ((execute now sender request).run c) := by
  cases request with
  | lock entries => exact ends_executeLock_announces hs a
  | extend extensions => exact ends_executeExtend_announces hs a
  | pay payment =>
    refine ends_executePay_of (fun _ => trivial) fun _ _ _ _ _ hp => ?_
    exact (ends_pay_announces hp hs a).mono (fun _ _ h => h.1) fun _ _ h => h
  | payMany total payments =>
    exact ends_executePayMany_of (fun _ => trivial)
      fun _ _ _ _ _ _ hp => ends_payAll_announces hp hs a
  | updateConfig change =>
    refine ChainM.ends_onStore.2 (ends_updateConfig.mono ?_ fun _ _ _ => trivial)
    rintro r k ⟨hevents, config, -, hk⟩
    rw [hevents]
    exact Chain.announces_nil (by rw [hk]; rfl) (by rw [hk]; rfl)

section

variable {block : Block}

theorem ends_clearPayer_tallies [AddressRule] {tx : Tx} {simulate success : Bool} {j : Journal}
    (hs : j.store.Keyed) (a : Address) :
    Ends (fun r k => (Call.hook (.afterTx tx simulate success)).Tallies j.store k.store a r.events)
      (fun _ _ => True) ((clearPayer now tx simulate success).run j) := by
  refine ends_clearPayer_of_payer.mono ?_ fun _ _ _ => trivial
  intro r k hk
  unfold Call.Tallies
  cases hpayer : lockupPayer? j.store tx simulate success with
  | none =>
    rw [hpayer] at hk
    obtain ⟨hevents, hstore⟩ := hk
    rw [hevents, hstore]
    exact Store.tallies_of_eq rfl rfl
  | some payer =>
    obtain ⟨address, account⟩ := payer
    rw [hpayer] at hk
    obtain ⟨hevents, hk⟩ := hk
    rw [hevents, lockedTotal_map_eq_zero _ fun _ => rfl, expiredTotal_map_expired]
    rcases hk with ⟨hnil, hstore⟩ | ⟨t, hreleases, hstore⟩
    · rw [hnil, hstore, List.map_nil, List.sum_nil, ite_self]
      exact Store.tallies_of_eq rfl rfl
    · rw [hstore]
      exact hreleases.tallies hs (lockupPayer?_eq_some hpayer) a

theorem ends_endBlock_tallies {j : Journal} (a : Address) :
    Ends (fun r k => (Call.hook .endBlock).Tallies j.store k.store a r.events)
      (fun _ _ => True) ((endBlock block).run j) := by
  refine ends_endBlock.mono ?_ fun _ _ _ => trivial
  rintro _ k ⟨amounts, hdue, rfl, hk⟩
  unfold Call.Tallies
  rw [lockedTotal_map_eq_zero _ fun _ => rfl]
  rcases hk with ⟨rfl, hstore⟩ | ⟨-, total, -, hstore⟩
  · rw [hstore]
    exact Store.tallies_of_eq rfl rfl
  · rw [hstore]
    exact Store.tallies_sweep hdue a

theorem ends_call_tallies [AddressRule] {call : Call} (hs : c.store.Keyed) (a : Address) :
    Ends (fun r c' => call.Tallies c.store c'.store a r.events) (fun _ _ => True)
      ((call.run block).run c) := by
  cases call with
  | setUp sender setup =>
    refine ChainM.ends_onStore.2 (ends_instantiate.mono ?_ fun _ _ _ => trivial)
    rintro r k ⟨hevents, config, -, hk⟩
    rw [hevents]
    exact (Chain.announces_nil (by rw [hk]; rfl) (by rw [hk]; rfl)).tallies
  | request sender req =>
    exact (ends_execute_announces hs a).mono (fun _ _ h => h.tallies) fun _ _ h => h
  | hook hook =>
    cases hook with
    | beforeTx tx =>
      unfold Call.run runHook
      simp only
      rw [ends_bind]
      refine ends_checkTx.mono ?_ fun _ _ _ => trivial
      rintro _ c' ⟨rfl, -⟩
      exact (Chain.announces_nil rfl rfl).tallies
    | afterTx tx simulate success => exact ChainM.ends_onStore.2 (ends_clearPayer_tallies hs a)
    | endBlock => exact ChainM.ends_onStore.2 (ends_endBlock_tallies a)

end

end

/-! ## What a run announces -/

/-- All that is announced in the steps of a run, in order. -/
def announced (steps : List Step) : List Event := steps.flatMap Step.events

def announcedBySweeps (steps : List Step) : List Event :=
  announced (steps.filter fun step => step.call.sweeps)

def announcedByOthers (steps : List Step) : List Event :=
  announced (steps.filter fun step => !step.call.sweeps)

/-- Time does not run backwards, and what a failed call wrote is discarded. -/
def Host.transactional : Host := ⟨fun s => s.queue = .empty ∧ s.Plain, (· ≤ ·), fun _ => False⟩

section

variable {steps : List Step} {step : Step} {now : Timestamp} {s t : Store} {a : Address}

theorem expiredTotal_announced (steps : List Step) (a : Address) :
    expiredTotal a (announced steps) =
      expiredTotal a (announcedBySweeps steps) + expiredTotal a (announcedByOthers steps) := by
  unfold announcedBySweeps announcedByOthers announced
  rw [← expiredTotal_append, ← List.flatMap_append]
  have hsplit := (List.filter_append_perm (fun step : Step => step.call.sweeps) steps).symm
  exact ((hsplit.flatMap_right Step.events).map (Event.expiredFor a)).sum_eq

theorem lockedTotal_announced_snoc : lockedTotal a (announced (steps ++ [step])) =
    lockedTotal a (announced steps) + lockedTotal a step.events := by
  unfold announced
  rw [List.flatMap_append, List.flatMap_singleton, lockedTotal_append]

theorem expiredTotal_announced_filter_snoc (p : Step → Bool) :
    expiredTotal a (announced ((steps ++ [step]).filter p)) =
      expiredTotal a (announced (steps.filter p)) +
        if p step then expiredTotal a step.events else 0 := by
  unfold announced
  rw [List.filter_append, List.flatMap_append, expiredTotal_append]
  cases hp : p step <;> simp [hp]

/-- All that is scheduled and queued in the end has been announced since the start, and has
not expired on the same path. -/
theorem Host.Runs.tallies (h : Host.transactional.Runs now steps s) (a : Address) :
    ∃ start, Host.transactional.starts start ∧ start.Tallies s a (lockedTotal a (announced steps))
      (expiredTotal a (announcedByOthers steps)) (expiredTotal a (announcedBySweeps steps)) := by
  induction h with
  | start hs => exact ⟨_, hs, Store.tallies_of_eq rfl rfl⟩
  | pass _ _ ih => exact ih
  | done hbefore _ hrun ih =>
    obtain ⟨start, hstart, htallies⟩ := ih
    have hkeyed : Host.transactional.Maintains fun _ s => s.Keyed :=
      Host.maintains_keyed fun _ hs => hs.2.keyed
    have hcall := (ends_call_tallies (hkeyed.reaches hbefore.reaches) a).of_ok hrun
    refine ⟨start, hstart, ?_⟩
    unfold announcedByOthers announcedBySweeps at htallies ⊢
    rw [lockedTotal_announced_snoc, expiredTotal_announced_filter_snoc,
      expiredTotal_announced_filter_snoc]
    exact htallies.trans hcall
  | failed _ _ _ hkept _ => exact hkept.elim

/-- In every run that discards failed calls, all that has been announced as locked for an
address is scheduled for it still or has been announced as expired from its schedule, and the
sweeps announce no more than that as well. Together they announce at most twice as much, and
no more than was locked if only one of the two announces anything. -/
theorem each_path_announces_once (h : Host.transactional.Runs now steps s) (a : Address) :
    expiredTotal a (announcedByOthers steps) + s.scheduledSum a =
        lockedTotal a (announced steps) ∧
      expiredTotal a (announcedBySweeps steps) + s.queuedFor a ≤
        lockedTotal a (announced steps) ∧
      expiredTotal a (announced steps) ≤ 2 * lockedTotal a (announced steps) ∧
      (expiredTotal a (announcedByOthers steps) = 0 ∨
          expiredTotal a (announcedBySweeps steps) = 0 →
        expiredTotal a (announced steps) ≤ lockedTotal a (announced steps)) := by
  obtain ⟨start, ⟨hqueue, hplain⟩, hscheduled, hqueued⟩ := h.tallies a
  have hnoschedule : start.scheduledSum a = 0 := by
    unfold Store.scheduledSum Store.lockedWhere
    rw [hplain.lockup?_eq_none]
  have hnoqueue : start.queuedFor a = 0 := by
    unfold Store.queuedFor Store.queuedWhere
    rw [hqueue]
    rfl
  have htotal := expiredTotal_announced steps a
  refine ⟨?_, ?_, ?_, ?_⟩ <;> omega

end

namespace FirstLock

/-- Alice locks. Later the end of a block finds her lock due, and then she pays for a
transaction. -/
def dueTwice : List (Block × Call) :=
  [(block, call), (dueBlock, .hook .endBlock), (dueBlock, .hook (.afterTx aliceTx false true))]

theorem runs_dueTwice {steps : List Step} {c : Chain StrictLedger}
    (hplay : Host.play start dueTwice = some (steps, c)) :
    Host.transactional.Runs dueBlock.time steps c.store := by
  have hstart : Host.transactional.Runs block.time [] start.store :=
    .start ⟨rfl, fun _ _ haccount => nomatch haccount⟩
  have htimes : List.IsChain (fun earlier later : Timestamp => earlier ≤ later)
      (block.time :: dueTwice.map fun call => call.1.time) := by decide
  exact hstart.play htimes hplay

end FirstLock

open FirstLock in
/-- Each path announces the 50 tokens of the first lock once. -/
theorem first_lock_announced_on_each_path : ∃ steps s,
    Host.transactional.Runs dueBlock.time steps s ∧ lockedTotal alice (announced steps) = 50 ∧
    expiredTotal alice (announcedByOthers steps) + s.scheduledSum alice = 50 ∧
    expiredTotal alice (announcedBySweeps steps) + s.queuedFor alice ≤ 50 := by
  have hplay : (Host.play start dueTwice).map
      (fun played => lockedTotal alice (announced played.1)) = some 50 := by decide +kernel
  obtain ⟨⟨steps, c⟩, hplayed, hlocked⟩ := Option.map_eq_some_iff.1 hplay
  have hruns := runs_dueTwice hplayed
  obtain ⟨hothers, hsweeps, -⟩ := each_path_announces_once hruns alice
  rw [hlocked] at hothers hsweeps
  exact ⟨steps, c.store, hruns, hlocked, hothers, hsweeps⟩

open FirstLock in
/-- Both paths announce the first lock, so 100 tokens expire of the 50 that were locked. -/
theorem first_lock_announced_twice : ∃ steps s,
    Host.transactional.Runs dueBlock.time steps s ∧
    lockedTotal alice (announced steps) < expiredTotal alice (announced steps) := by
  have hplay : (Host.play start dueTwice).map (fun played =>
      (lockedTotal alice (announced played.1), expiredTotal alice (announced played.1))) =
      some (50, 100) := by decide +kernel
  obtain ⟨⟨steps, c⟩, hplayed, heq⟩ := Option.map_eq_some_iff.1 hplay
  simp only [Prod.mk.injEq] at heq
  obtain ⟨hlocked, hexpired⟩ := heq
  refine ⟨steps, c.store, runs_dueTwice hplayed, ?_⟩
  rw [hlocked, hexpired]
  decide

end StakeLock
