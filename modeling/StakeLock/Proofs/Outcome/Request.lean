import StakeLock.Proofs.Checks
import StakeLock.Proofs.Outcome.Locking
import StakeLock.Proofs.Refusal

/-!
# Outcomes of requests

What a request does to the store and to the ledger when it succeeds, and what
it leaves of the store when it fails. Checks come before writing, so a failure
that tears an account is never an ordinary one.
-/

namespace StakeLock

variable {σ : Type} [HostLedger σ]
variable {now : Timestamp} {terms : Option Config} {sender address : Address} {bondDenom : String}

/-- What a call that fails leaves of a store: some changes, and a torn rest after them. -/
def Leaves (now : Timestamp) (terms : Option Config) (s : Store) (fault : Fault LockError)
    (t : Store) : Prop :=
  ∃ m, Changes now terms s m ∧ (t = m ∨ Torn m fault t)

theorem leaves_self {s : Store} {fault : Fault LockError} : Leaves now terms s fault s :=
  ⟨s, .refl, .inl rfl⟩

theorem Torn.leaves {s t : Store} {fault : Fault LockError} (h : Torn s fault t) :
    Leaves now terms s fault t :=
  ⟨s, .refl, .inr h⟩

theorem Leaves.of_changes {s t u : Store} {fault : Fault LockError} (h : Changes now terms s t)
    (ht : Leaves now terms t fault u) : Leaves now terms s fault u := by
  obtain ⟨m, hm, hu⟩ := ht
  exact ⟨m, h.trans hm, hu⟩

theorem Store.Opens.changes {s t : Store} {account : LockupAccount}
    (h : s.Opens address account t) : Changes now terms s t := by
  cases h with
  | upgraded _ => exact .refl
  | registered _ hlt => exact .single (.register hlt)

/-! ## Locking -/

section

variable {fault : Fault LockError} {ledger : σ}

theorem not_ordinary_of_ofSystem {α : Type} {result : Except SystemError α}
    (h : Check.ofSystem result = .error fault) : ¬fault.Ordinary := by
  cases result with
  | ok a => cases h
  | error cause =>
    cases h
    exact not_ordinary_system cause

theorem not_ordinary_of_orAbort {α : Type} {result : Option α}
    (h : Check.orAbort result = .error fault) : ¬fault.Ordinary := by
  cases result with
  | some a => cases h
  | none =>
    cases h
    exact not_ordinary_aborted

theorem not_ordinary_of_addDelegated {total : Amount} {d : Delegation}
    (h : addDelegated ledger total d = .error fault) : ¬fault.Ordinary := by
  unfold addDelegated at h
  rcases except_bind_eq_error_iff.1 h with h | ⟨found, -, h⟩
  · exact not_ordinary_of_ofSystem h
  · cases found with
    | none =>
      cases h
      exact not_ordinary_system _
    | some v =>
      rcases except_bind_eq_error_iff.1 h with h | ⟨tokens, -, h⟩
      · exact not_ordinary_of_orAbort h
      · exact not_ordinary_of_ofSystem h

theorem not_ordinary_of_totalDelegated {x : Address}
    (h : totalDelegated ledger x = .error fault) : ¬fault.Ordinary := by
  unfold totalDelegated at h
  rcases except_bind_eq_error_iff.1 h with h | ⟨delegations, -, h⟩
  · exact not_ordinary_of_ofSystem h
  · generalize Amount.zero = start at h
    induction delegations generalizing start with
    | nil => cases h
    | cons d ds ih =>
      rw [List.foldlM_cons] at h
      rcases except_bind_eq_error_iff.1 h with h | ⟨next, -, h⟩
      · exact not_ordinary_of_addDelegated h
      · exact ih next h

end

/-- Locks are added to the account of an address, and delegations cover all it has locked. -/
def Locks (now : Timestamp) (ledger : σ) (address : Address) (locks : List (Date × Amount))
    (s t : Store) : Prop :=
  ∃ account opened d delegated, s.Opens address account opened ∧
    Draft.Adds ⟨account, opened⟩ locks d ∧ t = d.saved ∧
    totalDelegated ledger address = .ok delegated ∧
    account.schedule.lockedSum now + (locks.map fun l => l.2.toNat).sum ≤ delegated.toNat

theorem Locks.change {ledger : σ} {locks : List (Date × Amount)} {s t : Store}
    (h : Locks now ledger address locks s t)
    (hlocks : ∀ l ∈ locks, Admits terms now l.1 ∧ l.2 ≠ Amount.zero) : Change now terms s t := by
  obtain ⟨account, opened, d, delegated, hopens, hadds, rfl, -, -⟩ := h
  exact .lock hopens hlocks hadds

/-- The ways in which locking fails, and the stores that it leaves: no account number is
left; what would be locked is too much to be said; the delegations cannot be told, or do not
cover it; a lock cannot be added. -/
inductive LockFails (now : Timestamp) (ledger : σ) (s : Store) (address : Address)
    (locks : List (Date × Amount)) : Fault LockError → Store → Prop
  | unnumbered : ¬s.Openable address → LockFails now ledger s address locks .aborted s
  | unmeasured {account opened fault} : s.Opens address account opened →
      2 ^ 128 ≤ account.schedule.lockedSum now + (locks.map fun l => l.2.toNat).sum →
      ¬fault.Ordinary → LockFails now ledger s address locks fault opened
  | untold {account opened fault} : s.Opens address account opened →
      totalDelegated ledger address = .error fault →
      LockFails now ledger s address locks fault opened
  | uncovered {account opened delegated locked} : s.Opens address account opened →
      totalDelegated ledger address = .ok delegated →
      account.schedule.lockedSum now + (locks.map fun l => l.2.toNat).sum = locked.toNat →
      delegated < locked → LockFails now ledger s address locks
        (.refused (.lockExceedsDelegations delegated locked)) opened
  | broken {account fault} {j k : Journal} : s.Opens address account j.store →
      (locks.foldlM (fun account l => addLock account l.1 l.2) account).run j = .error fault k →
      Torn j.store fault k.store → LockFails now ledger s address locks fault k.store

theorem LockFails.leaves {ledger : σ} {s t : Store} {locks : List (Date × Amount)}
    {fault : Fault LockError} (h : LockFails now ledger s address locks fault t) :
    Leaves now terms s fault t := by
  cases h with
  | unnumbered _ => exact leaves_self
  | unmeasured hopens _ _ => exact leaves_self.of_changes hopens.changes
  | untold hopens _ => exact leaves_self.of_changes hopens.changes
  | uncovered hopens _ _ _ => exact leaves_self.of_changes hopens.changes
  | broken hopens _ htorn => exact htorn.leaves.of_changes hopens.changes

theorem ends_lockDelegated_fails {c : Chain σ} {locks : List (Date × Amount)}
    (hlocks : ∀ l ∈ locks, blockDate now ≤ l.1) : Ends
    (fun _ c' => c'.ledger = c.ledger ∧ Locks now c.ledger address locks c.store c'.store)
    (fun fault c' => c'.ledger = c.ledger ∧
      LockFails now c.ledger c.store address locks fault c'.store)
    ((lockDelegated now address locks).run c) := by
  unfold lockDelegated
  rw [ends_bind, ChainM.ends_onStore]
  refine ends_loadOrUpgrade.mono ?_ ?_
  rotate_left
  · rintro _ j ⟨rfl, hnone, rfl⟩
    exact ⟨rfl, .unnumbered hnone⟩
  intro account j hopens
  rw [ends_bind, ends_orAbort, Schedule.lockedAmount?_eq]
  refine ⟨fun before hbefore => ?_, fun hnone => ⟨rfl, .unmeasured hopens ?_ not_ordinary_aborted⟩⟩
  rotate_left
  · exact (Amount.ofNat?_eq_none_iff.1 hnone).trans (Nat.le_add_right _ _)
  rw [Amount.ofNat?_eq_some_iff] at hbefore
  rw [ends_bind, ends_acceptSystem]
  refine ⟨fun locked hlocked => ?_, fun cause hcause =>
    ⟨rfl, .unmeasured hopens ?_ (not_ordinary_system cause)⟩⟩
  rotate_left
  · rw [hbefore]
    have hlarge := Amount.le_of_sumFrom_eq_error hcause
    rwa [List.map_map] at hlarge
  rw [Amount.sumFrom_eq_ok_iff, List.map_map, ← hbefore] at hlocked
  rw [ends_bind, ChainM.ends_getLedger, ends_bind, ChainM.ends_ofCheck]
  refine ⟨fun delegated hdelegated => ?_, fun fault hfault => ⟨rfl, .untold hopens hfault⟩⟩
  rw [ends_ite]
  refine ⟨fun hlt => ?_, fun hge => ?_⟩
  · rw [ends_bind, ends_refuse]
    exact ⟨rfl, .uncovered hopens hdelegated hlocked hlt⟩
  have hdates : ∀ l ∈ locks, ∃ time, unlockTime? l.1 = some time :=
    fun l hl => exists_unlockTime_of_blockDate_le (hlocks l hl)
  rw [ends_bind, ChainM.ends_onStore]
  cases hadd : (locks.foldlM (fun account l => addLock account l.1 l.2) account).run j with
  | error fault k => exact ⟨rfl, .broken hopens hadd ((ends_addLocks hdates).of_error hadd).torn⟩
  | ok b k =>
    have hadds := (ends_addLocks hdates).of_ok hadd
    refine ⟨rfl, account, j.store, ⟨b, k.store⟩, delegated, hopens, hadds, rfl, hdelegated, ?_⟩
    rw [Amount.lt_def] at hge
    exact hlocked ▸ Nat.not_lt.1 hge

theorem ends_lockDelegated {c : Chain σ} {locks : List (Date × Amount)}
    (hlocks : ∀ l ∈ locks, blockDate now ≤ l.1) : Ends
    (fun _ c' => c'.ledger = c.ledger ∧ Locks now c.ledger address locks c.store c'.store)
    (fun fault c' => Leaves now terms c.store fault c'.store)
    ((lockDelegated now address locks).run c) :=
  (ends_lockDelegated_fails hlocks).mono (fun _ _ h => h) fun _ _ he => he.2.leaves

/-- What a request for locks comes to. -/
structure LockPlan where
  bondDenom : String
  locks : List (Date × Amount)
deriving DecidableEq

/-- All that is looked at before an account is opened. -/
def planLock (now : Timestamp) (entries : List LockEntry) (c : Chain σ) :
    Except LockError LockPlan := do
  let config ← c.store.getConfig.mapError .system
  config.checkEntryCount entries.length
  let bondDenom ← (HostLedger.bondDenom c.ledger).mapError .system
  let locks ← entries.mapM fun entry => entry.check config bondDenom now
  return ⟨bondDenom, locks⟩

section

variable {c : Chain σ} {entries : List LockEntry}

theorem admits_of_planLock {plan : LockPlan} (h : planLock now entries c = .ok plan) :
    ∀ l ∈ plan.locks, Admits c.store.config now l.1 ∧ l.2 ≠ Amount.zero := by
  unfold planLock at h
  obtain ⟨config, hconfig, h⟩ := except_bind_eq_ok_iff.1 h
  rw [mapError_eq_ok_iff, Store.getConfig_eq_ok_iff] at hconfig
  obtain ⟨_, -, h⟩ := except_bind_eq_ok_iff.1 h
  obtain ⟨bondDenom, -, h⟩ := except_bind_eq_ok_iff.1 h
  obtain ⟨locks, hchecked, h⟩ := except_bind_eq_ok_iff.1 h
  cases h
  rw [hconfig]
  exact forall_of_mapM_eq_ok hchecked fun _ _ => LockEntry.of_check

theorem of_planLock {plan : LockPlan} (h : planLock now entries c = .ok plan) :
    ∀ l ∈ plan.locks, blockDate now ≤ l.1 ∧ l.2 ≠ Amount.zero := by
  intro l hl
  obtain ⟨hdate, hne⟩ := admits_of_planLock h l hl
  exact ⟨hdate.blockDate_le, hne⟩

theorem ends_executeLock_iff {P : Response → Chain σ → Prop}
    {E : Fault LockError → Chain σ → Prop} :
    Ends P E ((executeLock now sender entries).run c) ↔ Ends P E ((do
      let plan ← accept (planLock now entries c)
      lockDelegated now sender plan.locks
      return ⟨[("action", "lock"), ("from", sender.text)],
        plan.locks.map fun l => .locked sender l.1 ⟨plan.bondDenom, l.2⟩⟩ :
          ChainM σ Response).run c) := by
  unfold executeLock planLock
  simp only [accept_bind, accept_mapError, accept_pure, bind_assoc, pure_bind, ends_bind,
    ends_accept, ends_acceptSystem, ChainM.ends_getStore, ChainM.ends_ask]

/-- Without a plan nothing happens. With one the ledger stays as it is, and the locks of the
plan are added and announced, unless locking fails. -/
theorem ends_executeLock_planned : Ends
    (fun response c' => ∃ plan, planLock now entries c = .ok plan ∧
      response = ⟨[("action", "lock"), ("from", sender.text)],
        plan.locks.map fun l => .locked sender l.1 ⟨plan.bondDenom, l.2⟩⟩ ∧
      c'.ledger = c.ledger ∧ Locks now c.ledger sender plan.locks c.store c'.store)
    (fun fault c' => (c' = c ∧ ∃ reason, planLock now entries c = .error reason) ∨
      ∃ plan, planLock now entries c = .ok plan ∧ c'.ledger = c.ledger ∧
        LockFails now c.ledger c.store sender plan.locks fault c'.store)
    ((executeLock now sender entries).run c) := by
  rw [ends_executeLock_iff, ends_bind, ends_accept]
  refine ⟨fun plan hplan => ?_, fun reason hplan => .inl ⟨rfl, reason, hplan⟩⟩
  rw [ends_bind]
  refine (ends_lockDelegated_fails fun l hl => (of_planLock hplan l hl).1).mono ?_ ?_
  · intro _ c' hlocked
    exact ⟨plan, hplan, rfl, hlocked⟩
  · intro fault c' hfails
    exact .inr ⟨plan, hplan, hfails⟩

theorem ends_executeLock : Ends
    (fun _ c' => c'.ledger = c.ledger ∧ ∃ locks,
      (∀ l ∈ locks, Admits c.store.config now l.1 ∧ l.2 ≠ Amount.zero) ∧
      Locks now c.ledger sender locks c.store c'.store)
    (fun fault c' => Leaves now c.store.config c.store fault c'.store)
    ((executeLock now sender entries).run c) := by
  apply ends_executeLock_planned.mono
  · intro _ c' hlocked
    obtain ⟨plan, hplan, -, hledger, hlocks⟩ := hlocked
    exact ⟨hledger, plan.locks, admits_of_planLock hplan, hlocks⟩
  · intro fault c' hfailed
    rcases hfailed with ⟨rfl, -⟩ | ⟨_, -, -, hfails⟩
    · exact leaves_self
    · exact hfails.leaves

end

/-! ## Extending -/

/-- What a request for extensions comes to: the moves that it asks for, the account that
they are made in, and the schedule that a copy of the account's gets from them. -/
structure ExtensionPlan where
  bondDenom : String
  moves : List Move
  account : LockupAccount
  final : Schedule
deriving DecidableEq

/-- All that is looked at before the first move. -/
def planExtension (now : Timestamp) (sender : Address) (extensions : List Extension)
    (c : Chain σ) : Except LockError ExtensionPlan := do
  let config ← c.store.getConfig.mapError .system
  config.checkEntryCount extensions.length
  let bondDenom ← (HostLedger.bondDenom c.ledger).mapError .system
  let moves ← extensions.mapM fun extension => extension.check config bondDenom now
  let account ← c.store.lockup sender
  let final ← account.schedule.shiftAll moves
  return ⟨bondDenom, moves, account, final⟩

section

variable {c : Chain σ} {extensions : List Extension}

theorem withinHorizon_of_planExtension {plan : ExtensionPlan}
    (h : planExtension now sender extensions c = .ok plan) :
    (∀ m ∈ plan.moves, WithinHorizon c.store.config now m.target ∧ isLocked now m.source ∧
      m.source < m.target ∧ m.amount ≠ Amount.zero) ∧
      c.store.lockup? sender = some plan.account ∧
      plan.account.schedule.shiftAll plan.moves = .ok plan.final := by
  unfold planExtension at h
  obtain ⟨config, hconfig, h⟩ := except_bind_eq_ok_iff.1 h
  rw [mapError_eq_ok_iff, Store.getConfig_eq_ok_iff] at hconfig
  obtain ⟨_, _, h⟩ := except_bind_eq_ok_iff.1 h
  obtain ⟨bondDenom, _, h⟩ := except_bind_eq_ok_iff.1 h
  obtain ⟨moves, hchecked, h⟩ := except_bind_eq_ok_iff.1 h
  obtain ⟨account, haccount, h⟩ := except_bind_eq_ok_iff.1 h
  obtain ⟨final, hfinal, h⟩ := except_bind_eq_ok_iff.1 h
  cases h
  rw [hconfig]
  exact ⟨forall_of_mapM_eq_ok hchecked fun _ _ => Extension.of_check,
    Store.lockup_eq_ok_iff.1 haccount, hfinal⟩

theorem of_planExtension {plan : ExtensionPlan}
    (h : planExtension now sender extensions c = .ok plan) :
    (∀ m ∈ plan.moves, isLocked now m.source ∧ m.source < m.target ∧ m.amount ≠ Amount.zero) ∧
      c.store.lockup? sender = some plan.account ∧
      plan.account.schedule.shiftAll plan.moves = .ok plan.final := by
  obtain ⟨hmoves, haccount, hfinal⟩ := withinHorizon_of_planExtension h
  exact ⟨fun m hm => (hmoves m hm).2, haccount, hfinal⟩

theorem refuses_planExtension :
    Refuses (fun reason => ¬reason.Desync) (planExtension now sender extensions c) := by
  unfold planExtension
  refine refuses_bind (LockError.refuses_mapError_system _) fun config => ?_
  refine refuses_bind ((refuses_checkEntryCount _).mono LockError.Ordinary.not_desync) fun _ => ?_
  refine refuses_bind (LockError.refuses_mapError_system _) fun bondDenom => ?_
  refine refuses_bind ((refuses_mapM _ Extension.refuses_check).mono
    LockError.Ordinary.not_desync) fun moves => ?_
  refine refuses_bind ((Store.refuses_lockup _ _).mono LockError.Ordinary.not_desync)
    fun account => ?_
  exact refuses_bind (Schedule.refuses_shiftAll _ _) fun final => refuses_ok _

theorem ends_executeExtend_iff {P : Response → Chain σ → Prop}
    {E : Fault LockError → Chain σ → Prop} :
    Ends P E ((executeExtend now sender extensions).run c) ↔ Ends P E ((do
      let plan ← accept (planExtension now sender extensions c)
      let (account, events) ← ChainM.onStore
        (moveLocks sender plan.bondDenom plan.account plan.moves)
      ChainM.onStore (saveLockup account)
      return ⟨[("action", "extend"), ("from", sender.text)], events⟩ :
        ChainM σ Response).run c) := by
  unfold executeExtend planExtension loadLockup
  simp only [accept_bind, accept_mapError, accept_pure, bind_assoc, pure_bind, ends_bind,
    ends_accept, ends_acceptSystem, ChainM.ends_getStore, ChainM.ends_ask, ChainM.ends_onStore,
    StoreM.ends_getStore]
  rfl

/-- Without a plan nothing happens. With one the ledger stays as it is, and the moves of the
plan are made and announced, unless the queue is torn. -/
theorem ends_executeExtend_planned : Ends
    (fun response c' => ∃ plan, planExtension now sender extensions c = .ok plan ∧
      response = ⟨[("action", "extend"), ("from", sender.text)],
        plan.moves.map fun m => .extended sender m.source m.target ⟨plan.bondDenom, m.amount⟩⟩ ∧
      c'.ledger = c.ledger ∧
      ∃ d, Draft.Moves ⟨plan.account, c.store⟩ plan.moves d ∧ c'.store = d.saved)
    (fun fault c' => (c' = c ∧ ∃ reason, planExtension now sender extensions c = .error reason ∧
        fault = .refused reason) ∨
      ∃ plan, planExtension now sender extensions c = .ok plan ∧ c'.ledger = c.ledger ∧
        Torn c.store fault c'.store)
    ((executeExtend now sender extensions).run c) := by
  rw [ends_executeExtend_iff, ends_bind, ends_accept]
  refine ⟨fun plan hplan => ?_, fun reason hplan => .inl ⟨rfl, reason, hplan, rfl⟩⟩
  obtain ⟨hmoves, -, hfinal⟩ := of_planExtension hplan
  rw [ends_bind, ChainM.ends_onStore]
  refine (ends_moveLocks (fun m hm => ?_) hfinal).mono ?_ ?_
  · obtain ⟨hsource, hlt, -⟩ := hmoves m hm
    exact exists_unlockTimes hsource hlt
  · rintro ⟨moved, events⟩ k ⟨hdraft, hevents⟩
    simp only at hevents
    subst hevents
    exact ⟨plan, hplan, rfl, rfl, ⟨moved, k.store⟩, hdraft, rfl⟩
  · intro fault k htorn
    exact .inr ⟨plan, hplan, rfl, htorn⟩

theorem ends_executeExtend : Ends
    (fun _ c' => c'.ledger = c.ledger ∧ ∃ account moves d, c.store.lockup? sender = some account ∧
      (∀ m ∈ moves, WithinHorizon c.store.config now m.target ∧ isLocked now m.source ∧
        m.source < m.target ∧ m.amount ≠ Amount.zero) ∧
      Draft.Moves ⟨account, c.store⟩ moves d ∧ c'.store = d.saved)
    (fun fault c' => Leaves now c.store.config c.store fault c'.store)
    ((executeExtend now sender extensions).run c) := by
  apply ends_executeExtend_planned.mono
  · intro _ c' hmoved
    obtain ⟨plan, hplan, -, hledger, d, hdraft, hc'⟩ := hmoved
    obtain ⟨hmoves, haccount, -⟩ := withinHorizon_of_planExtension hplan
    exact ⟨hledger, plan.account, plan.moves, d, haccount, hmoves, hdraft, hc'⟩
  · intro fault c' hfailed
    rcases hfailed with ⟨rfl, -⟩ | ⟨_, -, -, htorn⟩
    · exact leaves_self
    · exact htorn.leaves

end

/-! ## Paying -/

/-- What a payment does: it is sent and delegated on the ledger, and locked in the store. -/
def Pays (now : Timestamp) (sender : Address) (bondDenom : String) (payment : CheckedPayment)
    (c c' : Chain σ) : Prop :=
  ∃ sent shares,
    (HostLedger.sendCoins sender payment.recipient [⟨bondDenom, payment.amount⟩]).run c.ledger =
      .ok () sent ∧
    (HostLedger.delegate payment.recipient payment.validator payment.amount).run sent =
      .ok shares c'.ledger ∧
    Locks now c'.ledger payment.recipient [(payment.date, payment.amount)] c.store c'.store

/-- Payments one after another. -/
inductive PaysAll (now : Timestamp) (sender : Address) (bondDenom : String) :
    Chain σ → List CheckedPayment → Chain σ → Prop
  | nil {c} : PaysAll now sender bondDenom c [] c
  | cons {c c' c'' payment payments} : Pays now sender bondDenom payment c c' →
      PaysAll now sender bondDenom c' payments c'' →
      PaysAll now sender bondDenom c (payment :: payments) c''

/-- A payment that may be made: the configuration admits its date, and it is not empty. -/
def CheckedPayment.Payable (terms : Option Config) (now : Timestamp) (payment : CheckedPayment) :
    Prop :=
  Admits terms now payment.date ∧ payment.amount ≠ Amount.zero

theorem CheckedPayment.Payable.admits {payment : CheckedPayment} (hp : payment.Payable terms now) :
    ∀ l ∈ [(payment.date, payment.amount)], Admits terms now l.1 ∧ l.2 ≠ Amount.zero := by
  intro l hl
  rw [List.mem_singleton] at hl
  subst hl
  exact hp

theorem CheckedPayment.Payable.locks {payment : CheckedPayment} (hp : payment.Payable terms now) :
    ∀ l ∈ [(payment.date, payment.amount)], blockDate now ≤ l.1 ∧ l.2 ≠ Amount.zero := by
  intro l hl
  obtain ⟨hdate, hne⟩ := hp.admits l hl
  exact ⟨hdate.blockDate_le, hne⟩

theorem Pays.change {payment : CheckedPayment} {c c' : Chain σ}
    (h : Pays now sender bondDenom payment c c') (hp : payment.Payable terms now) :
    Change now terms c.store c'.store := by
  obtain ⟨_, _, -, -, hlocks⟩ := h
  exact hlocks.change hp.admits

theorem PaysAll.changes {payments : List CheckedPayment} {c c' : Chain σ}
    (h : PaysAll now sender bondDenom c payments c') (hp : ∀ p ∈ payments, p.Payable terms now) :
    Changes now terms c.store c'.store := by
  induction h with
  | nil => exact .refl
  | cons hfirst _ ih =>
    exact .head (hfirst.change (hp _ (List.mem_cons_self ..)))
      (ih fun p hmem => hp p (List.mem_cons_of_mem _ hmem))

theorem ends_pay {c : Chain σ} {payment : CheckedPayment} (hp : payment.Payable terms now) : Ends
    (fun events c' => Pays now sender bondDenom payment c c' ∧ ∃ shares, events =
      [.delegated payment.validator payment.recipient ⟨bondDenom, payment.amount⟩ shares,
        .locked payment.recipient payment.date ⟨bondDenom, payment.amount⟩])
    (fun fault c' => Leaves now terms c.store fault c'.store)
    ((pay now sender bondDenom payment).run c) := by
  unfold pay
  simp only
  rw [ends_bind, ChainM.ends_onLedger]
  cases hsent : (HostLedger.sendCoins sender payment.recipient
      [⟨bondDenom, payment.amount⟩]).run c.ledger with
  | error fault sent => exact leaves_self
  | ok _ sent =>
    simp only [ends_ok]
    rw [ends_bind, ChainM.ends_onLedger]
    cases hbonded : (HostLedger.delegate payment.recipient payment.validator
        payment.amount).run sent with
    | error fault bonded => exact leaves_self
    | ok shares bonded =>
      simp only [ends_ok]
      rw [ends_bind]
      apply (ends_lockDelegated fun l hl => (hp.locks l hl).1).mono_ok
      rintro _ c' ⟨hledger, hc'⟩
      refine ⟨⟨sent, shares, hsent, ?_, ?_⟩, shares, rfl⟩
      · rw [hledger]
        exact hbonded
      · rw [hledger]
        exact hc'

theorem ends_payAll {c : Chain σ} {payments : List CheckedPayment}
    (hp : ∀ p ∈ payments, p.Payable terms now) : Ends
    (fun _ c' => PaysAll now sender bondDenom c payments c')
    (fun fault c' => Leaves now terms c.store fault c'.store)
    ((payAll now sender bondDenom payments).run c) := by
  induction payments generalizing c with
  | nil => exact .nil
  | cons payment payments ih =>
    have hfirst := hp payment (List.mem_cons_self ..)
    unfold payAll
    rw [ends_bind]
    apply (ends_pay hfirst).mono_ok
    rintro _ c' ⟨hpays, -⟩
    rw [ends_bind]
    apply (ih fun p hmem => hp p (List.mem_cons_of_mem _ hmem)).mono
    · intro _ c'' hall
      exact .cons hpays hall
    · intro fault c'' hleft
      exact hleft.of_changes (.single (hpays.change hfirst))

section

variable [AddressRule]
variable {c : Chain σ} {P : Response → Chain σ → Prop} {E : Fault LockError → Chain σ → Prop}

theorem ends_executePay_of {payment : LockedPayment} (hE : ∀ fault, E fault c)
    (h : ∀ bondDenom config checked, HostLedger.bondDenom c.ledger = .ok bondDenom →
      payment.check config c.ledger now = .ok checked → checked.Payable c.store.config now →
      Ends (fun events c' =>
          P ⟨[("action", "send_delegate_and_lock"), ("from", sender.text)], events⟩ c') E
        ((pay now sender bondDenom checked).run c)) :
    Ends P E ((executePay now sender payment).run c) := by
  unfold executePay
  rw [ends_bind, ChainM.ends_getStore]
  refine ends_acceptSystem_bind hE fun config hconfig => ?_
  refine ChainM.ends_ask_bind hE fun bondDenom hdenom => ?_
  rw [ends_bind, ChainM.ends_getLedger]
  refine ends_accept_bind hE fun checked hchecked => ?_
  have hp : checked.Payable c.store.config now := by
    obtain ⟨hdate, hamount, -⟩ := LockedPayment.of_check hchecked
    rw [Store.getConfig_eq_ok_iff.1 hconfig]
    exact ⟨hdate, hamount⟩
  rw [ends_bind]
  exact h bondDenom config checked hdenom hchecked hp

theorem ends_executePay {payment : LockedPayment} : Ends
    (fun _ c' => ∃ bondDenom config checked, HostLedger.bondDenom c.ledger = .ok bondDenom ∧
      payment.check config c.ledger now = .ok checked ∧ checked.Payable c.store.config now ∧
      Pays now sender bondDenom checked c c')
    (fun fault c' => Leaves now c.store.config c.store fault c'.store)
    ((executePay now sender payment).run c) := by
  refine ends_executePay_of (fun _ => leaves_self)
    fun bondDenom config checked hdenom hchecked hp => ?_
  apply (ends_pay hp).mono_ok
  rintro _ c' ⟨hpays, -⟩
  exact ⟨bondDenom, config, checked, hdenom, hchecked, hp, hpays⟩

theorem ends_executePayMany_of {total : Amount} {payments : List LockedPayment}
    (hE : ∀ fault, E fault c)
    (h : ∀ bondDenom config checked, HostLedger.bondDenom c.ledger = .ok bondDenom →
      (payments.map fun p => p.amount.toNat).sum = total.toNat →
      (payments.mapM fun p => p.check config c.ledger now) = .ok checked →
      (∀ p ∈ checked, p.Payable c.store.config now) →
      Ends (fun events c' =>
          P ⟨[("action", "multi_send_delegate_and_lock"), ("from", sender.text),
            ("outputs", Nat.repr checked.length)], events⟩ c') E
        ((payAll now sender bondDenom checked).run c)) :
    Ends P E ((executePayMany now sender total payments).run c) := by
  unfold executePayMany
  rw [ends_bind, ChainM.ends_getStore]
  refine ends_acceptSystem_bind hE fun config hconfig => ?_
  refine ends_accept_bind hE fun _ _ => ?_
  refine ends_acceptSystem_bind hE fun sum hsum => ?_
  rw [Amount.sumFrom_eq_ok_iff, List.map_map, Amount.toNat_zero, Nat.zero_add] at hsum
  rw [ends_ite]
  refine ⟨fun _ => ?_, fun heq => ?_⟩
  · rw [ends_bind, ends_refuse]
    exact hE _
  rw [not_not] at heq
  rw [ends_bind, ChainM.ends_getLedger]
  refine ends_accept_bind hE fun checked hchecked => ?_
  have hp : ∀ p ∈ checked, p.Payable c.store.config now := by
    rw [Store.getConfig_eq_ok_iff.1 hconfig]
    exact forall_of_mapM_eq_ok hchecked fun _ _ h =>
      ⟨(LockedPayment.of_check h).1, (LockedPayment.of_check h).2.1⟩
  refine ChainM.ends_ask_bind hE fun bondDenom hdenom => ?_
  rw [ends_bind]
  exact h bondDenom config checked hdenom (heq ▸ hsum) hchecked hp

theorem ends_executePayMany {total : Amount} {payments : List LockedPayment} : Ends
    (fun _ c' => ∃ bondDenom config checked, HostLedger.bondDenom c.ledger = .ok bondDenom ∧
      (payments.map fun p => p.amount.toNat).sum = total.toNat ∧
      (payments.mapM fun p => p.check config c.ledger now) = .ok checked ∧
      (∀ p ∈ checked, p.Payable c.store.config now) ∧
      PaysAll now sender bondDenom c checked c')
    (fun fault c' => Leaves now c.store.config c.store fault c'.store)
    ((executePayMany now sender total payments).run c) := by
  refine ends_executePayMany_of (fun _ => leaves_self)
    fun bondDenom config checked hdenom hsum hchecked hp => ?_
  apply (ends_payAll hp).mono_ok
  intro _ c' hall
  exact ⟨bondDenom, config, checked, hdenom, hsum, hchecked, hp, hall⟩

end

end StakeLock
