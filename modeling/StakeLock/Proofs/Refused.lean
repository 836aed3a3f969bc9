import StakeLock.Proofs.Coverage

/-!
# Refused requests

A request can be refused for what it asks for, for who asks, or for an account that it
names. All of that is found out before anything is written: once the first coin has moved
or the first lock is being added, a request fails for lack of delegations or internally.
-/

namespace StakeLock

/-- The kinds of errors that find fault with a request, and neither with the delegations
behind it nor with the engine. -/
def requestKinds : List ErrorKind :=
  [.invalidAddress, .invalidRequest, .invalidCoins, .lockupNotFound, .invalidAccount,
    .unauthorized]

/-- The fault is found with the request. -/
def Fault.InRequest : Fault LockError → Prop
  | .refused reason => reason.kind ∈ requestKinds
  | .aborted => False

theorem Fault.InRequest.ordinary {fault : Fault LockError} (h : fault.InRequest) :
    fault.Ordinary := by
  cases fault with
  | aborted => exact h
  | refused reason =>
    intro hkind
    change reason.kind ∈ requestKinds at h
    rw [hkind] at h
    revert h
    decide

variable {σ : Type} {c : Chain σ}

/-- A fault that lies in the request leaves a chain as it was. -/
def Chain.KeptFor (c : Chain σ) (fault : Fault LockError) (c' : Chain σ) : Prop :=
  fault.InRequest → c' = c

theorem Chain.keptFor_self (c : Chain σ) (fault : Fault LockError) : c.KeptFor fault c :=
  fun _ => rfl

theorem Chain.keptFor_of_not_inRequest {fault : Fault LockError} {c' : Chain σ}
    (h : ¬fault.InRequest) : c.KeptFor fault c' := fun hin => absurd hin h

variable [HostLedger σ] {now : Timestamp} {sender address : Address}

/-! ## After the first write -/

theorem Torn.not_inRequest {s t : Store} {fault : Fault LockError} (h : Torn s fault t) :
    ¬fault.InRequest := fun hin => h.1 hin.ordinary

/-- Locks that have passed their checks are not found at fault while they are added. -/
theorem LockFails.not_inRequest {ledger : σ} {s t : Store} {locks : List (Date × Amount)}
    {fault : Fault LockError} (h : LockFails now ledger s address locks fault t) :
    ¬fault.InRequest := by
  cases h with
  | unnumbered _ => exact id
  | unmeasured _ _ hfault => exact fun hin => hfault hin.ordinary
  | untold _ htold => exact fun hin => not_ordinary_of_totalDelegated htold hin.ordinary
  | uncovered _ _ _ _ =>
    change ErrorKind.insufficientDelegations ∉ requestKinds
    decide
  | broken _ _ htorn => exact htorn.not_inRequest

theorem not_inRequest_of_onLedger {fault : Fault SystemError} :
    ¬(fault.map LockError.system).InRequest := by
  cases fault with
  | aborted => exact id
  | refused cause =>
    change ErrorKind.internal ∉ requestKinds
    decide

theorem ends_lockDelegated_not_inRequest {locks : List (Date × Amount)}
    (hlocks : ∀ l ∈ locks, blockDate now ≤ l.1) :
    Ends (fun _ _ => True) (fun fault _ => ¬fault.InRequest)
      ((lockDelegated now address locks).run c) :=
  (ends_lockDelegated_fails hlocks).mono (fun _ _ _ => trivial)
    fun _ _ hfails => hfails.2.not_inRequest

theorem ends_pay_not_inRequest {bondDenom : String} {terms : Option Config}
    {payment : CheckedPayment} (hp : payment.Payable terms now) :
    Ends (fun _ _ => True) (fun fault _ => ¬fault.InRequest)
      ((pay now sender bondDenom payment).run c) := by
  unfold pay
  simp only
  rw [ends_bind, ChainM.ends_onLedger]
  cases (HostLedger.sendCoins sender payment.recipient
      [⟨bondDenom, payment.amount⟩]).run c.ledger with
  | error fault sent => exact not_inRequest_of_onLedger
  | ok _ sent =>
    rw [ends_ok, ends_bind, ChainM.ends_onLedger]
    cases (HostLedger.delegate payment.recipient payment.validator payment.amount).run sent with
    | error fault bonded => exact not_inRequest_of_onLedger
    | ok shares bonded =>
      rw [ends_ok, ends_bind]
      exact (ends_lockDelegated_not_inRequest fun l hl => (hp.locks l hl).1).mono_ok
        fun _ _ _ => trivial

theorem ends_payAll_not_inRequest {bondDenom : String} {terms : Option Config}
    {payments : List CheckedPayment} (hp : ∀ p ∈ payments, p.Payable terms now) :
    Ends (fun _ _ => True) (fun fault _ => ¬fault.InRequest)
      ((payAll now sender bondDenom payments).run c) := by
  induction payments generalizing c with
  | nil => trivial
  | cons payment payments ih =>
    unfold payAll
    rw [ends_bind]
    apply (ends_pay_not_inRequest (hp payment (List.mem_cons_self ..))).mono_ok
    intro _ c' _
    rw [ends_bind]
    exact (ih fun p hmem => hp p (List.mem_cons_of_mem _ hmem)).mono_ok fun _ _ _ => trivial

/-! ## Whole requests -/

theorem ends_executeLock_kept {entries : List LockEntry} :
    Ends (fun _ _ => True) c.KeptFor ((executeLock now sender entries).run c) := by
  rw [ends_executeLock_iff]
  refine ends_accept_bind c.keptFor_self fun plan hplan => ?_
  rw [ends_bind]
  exact (ends_lockDelegated_not_inRequest fun l hl => (of_planLock hplan l hl).1).mono
    (fun _ _ _ => trivial) fun _ _ => Chain.keptFor_of_not_inRequest

theorem ends_executeExtend_kept {extensions : List Extension} :
    Ends (fun _ _ => True) c.KeptFor ((executeExtend now sender extensions).run c) := by
  rw [ends_executeExtend_iff]
  refine ends_accept_bind c.keptFor_self fun plan hplan => ?_
  obtain ⟨hmoves, -, hfinal⟩ := of_planExtension hplan
  have hdates : ∀ m ∈ plan.moves, (∃ time, unlockTime? m.source = some time) ∧
      ∃ time, unlockTime? m.target = some time := by
    intro m hm
    obtain ⟨hlocked, hlt, -⟩ := hmoves m hm
    exact exists_unlockTimes hlocked hlt
  rw [ends_bind, ChainM.ends_onStore]
  refine (ends_moveLocks hdates hfinal).mono (fun _ _ _ => trivial) fun _ _ htorn => ?_
  exact Chain.keptFor_of_not_inRequest htorn.not_inRequest

section

variable [AddressRule]

theorem ends_executePay_kept {payment : LockedPayment} :
    Ends (fun _ _ => True) c.KeptFor ((executePay now sender payment).run c) := by
  refine ends_executePay_of c.keptFor_self fun _ _ checked _ _ hp => ?_
  exact (ends_pay_not_inRequest hp).mono (fun _ _ _ => trivial)
    fun _ _ => Chain.keptFor_of_not_inRequest

theorem ends_executePayMany_kept {total : Amount} {payments : List LockedPayment} :
    Ends (fun _ _ => True) c.KeptFor ((executePayMany now sender total payments).run c) := by
  refine ends_executePayMany_of c.keptFor_self fun _ _ checked _ _ _ hp => ?_
  exact (ends_payAll_not_inRequest hp).mono (fun _ _ _ => trivial)
    fun _ _ => Chain.keptFor_of_not_inRequest

theorem ends_execute_kept {request : Request} :
    Ends (fun _ _ => True) c.KeptFor ((execute now sender request).run c) := by
  cases request with
  | lock entries => exact ends_executeLock_kept
  | extend extensions => exact ends_executeExtend_kept
  | pay payment => exact ends_executePay_kept
  | payMany total payments => exact ends_executePayMany_kept
  | updateConfig change =>
    refine ChainM.ends_onStore.2 (ends_updateConfig.mono (fun _ _ _ => trivial) ?_)
    rintro fault _ rfl
    exact c.keptFor_self fault

/-- In every store and on every ledger: a request that is refused for an address, for what it
asks for, for its coins, for a lock or an account that is not there, or because the sender
may not make it, leaves the whole chain as it was. -/
theorem refused_request_moves_nothing (c : Chain σ) (now : Timestamp) (sender : Address)
    (request : Request) {reason : LockError} {c' : Chain σ}
    (hrun : (execute now sender request).run c = .error (.refused reason) c')
    (hkind : reason.kind ∈ requestKinds) : c' = c :=
  ends_execute_kept.of_error hrun hkind

end

namespace FirstLock

/-- The second of two payments goes to a validator that is not there. -/
def misdirected : Request :=
  .payMany ⟨2 * given.toNat, by decide⟩
    [⟨"bob", "val", given, "1970-03-01"⟩, ⟨"carol", "nobody", given, "1970-03-01"⟩]

end FirstLock

open FirstLock in
/-- Bob is not paid when there is no validator for what carol is to get. -/
theorem misdirected_payment_moves_nothing : (execute block.time alice misdirected).run slashed =
    .error (.refused (.validatorNotFound "nobody")) slashed := by
  have hrefused : outcome ((execute block.time alice misdirected).run slashed) =
      .error (.refused (.validatorNotFound "nobody")) := by decide +kernel
  have hrun := eq_error_of_outcome hrefused
  have hkind : (LockError.validatorNotFound "nobody").kind ∈ requestKinds := by decide
  have hsame := refused_request_moves_nothing slashed block.time alice misdirected hrun hkind
  rw [hsame] at hrun
  exact hrun

end StakeLock
