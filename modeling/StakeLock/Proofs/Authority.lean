import StakeLock.Proofs.FailedLock

/-!
# The authority

The configuration is stored when the engine is set up. After that one kind of call changes it,
and that only for the authority that stands in it. Whoever has handed the authority over can
change nothing any more, and cannot take it back either.
-/

namespace StakeLock

/-! ## What calls do to the configuration -/

section

variable {σ α β : Type}

/-- However a call ends, the configuration is what it was. -/
def ChainM.KeepsConfig (x : ChainM σ α) : Prop :=
  ∀ c, Ends (fun _ c' => c'.store.config = c.store.config)
    (fun _ c' => c'.store.config = c.store.config) (x.run c)

theorem keepsConfig_pure (a : α) : (pure a : ChainM σ α).KeepsConfig := fun _ => rfl

theorem keepsConfig_bind {x : ChainM σ α} {f : α → ChainM σ β} (hx : x.KeepsConfig)
    (hf : ∀ a, (f a).KeepsConfig) : (x >>= f).KeepsConfig := by
  intro c
  rw [ends_bind]
  apply (hx c).mono_ok
  intro a c' hc'
  rw [← hc']
  exact hf a c'

theorem keepsConfig_onLedger (call : HostM σ α) : (ChainM.onLedger call).KeepsConfig := by
  intro c
  rw [ChainM.ends_onLedger]
  cases call.run c.ledger <;> rfl

variable [HostLedger σ] {now : Timestamp} {sender address : Address} {bondDenom : String}
variable {terms : Option Config}

theorem keepsConfig_lockDelegated {locks : List (Date × Amount)}
    (hlocks : ∀ l ∈ locks, blockDate now ≤ l.1) :
    (lockDelegated now address locks : ChainM σ Unit).KeepsConfig := fun _ =>
  (ends_lockDelegated_fails hlocks).mono (fun _ _ h => h.2.config_eq) fun _ _ h => h.2.config_eq

theorem keepsConfig_pay {payment : CheckedPayment} (hp : payment.Payable terms now) :
    (pay now sender bondDenom payment : ChainM σ (List Event)).KeepsConfig := by
  have hlocked : (lockDelegated now payment.recipient [(payment.date, payment.amount)] :
      ChainM σ Unit).KeepsConfig :=
    keepsConfig_lockDelegated fun l hl => (hp.locks l hl).1
  refine keepsConfig_bind (keepsConfig_onLedger _) fun _ => ?_
  refine keepsConfig_bind (keepsConfig_onLedger _) fun _ => ?_
  exact keepsConfig_bind hlocked fun _ => keepsConfig_pure _

theorem keepsConfig_payAll {payments : List CheckedPayment}
    (hp : ∀ p ∈ payments, p.Payable terms now) :
    (payAll now sender bondDenom payments : ChainM σ (List Event)).KeepsConfig := by
  induction payments with
  | nil => exact keepsConfig_pure []
  | cons payment payments ih =>
    obtain ⟨hfirst, hrest⟩ := List.forall_mem_cons.1 hp
    refine keepsConfig_bind (keepsConfig_pay hfirst) fun _ => ?_
    exact keepsConfig_bind (ih hrest) fun _ => keepsConfig_pure _

def Store.authority? (s : Store) : Option Address := s.config.map Config.authority

theorem Store.authority?_congr {s t : Store} (h : t.config = s.config) :
    t.authority? = s.authority? := by
  unfold authority?
  rw [h]

/-- A store has a configuration, and a valid one. -/
def Store.Configured (s : Store) : Prop := ∃ config, s.config = some config ∧ config.Valid

/-- A request of the authority for another configuration, which is then stored. -/
def Request.Configures (request : Request) (sender : Address) (s t : Store) : Prop :=
  ∃ change, request = .updateConfig change ∧ s.authority? = some sender ∧ t.Configured

variable [AddressRule] {c : Chain σ}

theorem keepsConfig_runHook (block : Block) (hook : Hook) :
    (runHook block hook : ChainM σ Response).KeepsConfig := by
  intro c
  cases hook with
  | beforeTx tx =>
    unfold runHook
    rw [ends_bind]
    apply ends_checkTx.mono
    · intro _ c' hchecked
      obtain ⟨rfl, -⟩ := hchecked
      rfl
    · intro _ c' hsame
      rw [hsame]
  | afterTx tx simulate success =>
    refine ChainM.ends_onStore.2 (ends_clearPayer.mono ?_ fun _ k htorn => htorn.2.config_eq)
    intro _ k hcleared
    rcases hcleared with hk | ⟨address, account, t, -, hreleases, hk⟩
    · exact congrArg Store.config hk
    · exact (congrArg Store.config hk).trans hreleases.requeued.config_eq
  | endBlock =>
    refine ChainM.ends_onStore.2 (ends_endBlock.mono ?_ fun _ k htorn => htorn.2.config_eq)
    intro _ k hswept
    have hrequeued : c.store.Requeued k.store := by
      obtain ⟨amounts, -, -, ⟨-, hk⟩ | ⟨-, total, -, hk⟩⟩ := hswept
      · rw [hk]
        exact c.store.requeued_self
      · exact ⟨_, _, hk⟩
    exact hrequeued.config_eq

theorem ends_execute_config {request : Request} : Ends
    (fun _ c' => c'.store.config = c.store.config ∨ request.Configures sender c.store c'.store)
    (fun _ c' => c'.store.config = c.store.config) ((execute now sender request).run c) := by
  cases request with
  | lock entries =>
    apply ends_executeLock_planned.mono
    · intro _ c' hlocked
      obtain ⟨plan, -, -, -, hlocks⟩ := hlocked
      exact .inl hlocks.config_eq
    · intro fault c' hfailed
      rcases hfailed with ⟨rfl, -⟩ | ⟨_, -, -, hfails⟩
      · rfl
      · exact hfails.config_eq
  | extend extensions =>
    apply ends_executeExtend_planned.mono
    · intro _ c' hmoved
      obtain ⟨plan, -, -, -, d, hdraft, hc'⟩ := hmoved
      rw [hc']
      exact .inl hdraft.requeued.config_eq
    · intro fault c' hfailed
      rcases hfailed with ⟨rfl, -⟩ | ⟨_, -, -, htorn⟩
      · rfl
      · exact htorn.2.config_eq
  | pay payment =>
    exact ends_executePay_of (fun _ => rfl) fun _ _ _ _ _ hp =>
      (keepsConfig_pay hp c).mono_ok fun _ _ h => .inl h
  | payMany total payments =>
    exact ends_executePayMany_of (fun _ => rfl) fun _ _ _ _ _ _ hp =>
      (keepsConfig_payAll hp c).mono_ok fun _ _ h => .inl h
  | updateConfig change =>
    refine ChainM.ends_onStore.2 (ends_updateConfig.mono ?_ fun _ k hk => by rw [hk])
    intro _ k hstored
    obtain ⟨-, config, ⟨hvalid, old, hold, hsender⟩, hk⟩ := hstored
    refine .inr ⟨change, rfl, ?_, config, ?_, hvalid⟩
    · unfold Store.authority?
      rw [← hsender]
      exact congrArg (Option.map Config.authority) hold
    · exact congrArg Store.config hk

theorem ends_setUp_configured {block : Block} {setup : ConfigChange} :
    Ends (fun _ c' => c'.store.Configured) (fun _ _ => True)
      (((Call.setUp sender setup).run block).run c) := by
  refine ChainM.ends_onStore.2 (ends_instantiate.mono ?_ fun _ _ _ => trivial)
  intro _ k hstored
  obtain ⟨-, config, hvalid, hk⟩ := hstored
  exact ⟨config, congrArg Store.config hk, hvalid⟩

theorem ends_call_config {block : Block} {call : Call}
    (hcall : ∀ sender setup, call ≠ .setUp sender setup) : Ends
    (fun _ c' => c'.store.config = c.store.config ∨ ∃ sender request,
      call = .request sender request ∧ request.Configures sender c.store c'.store)
    (fun _ c' => c'.store.config = c.store.config) ((call.run block).run c) := by
  cases call with
  | setUp sender setup => exact absurd rfl (hcall sender setup)
  | request sender request =>
    apply ends_execute_config.mono_ok
    intro _ c' hdone
    exact hdone.imp_right fun hconfigures => ⟨sender, request, rfl, hconfigures⟩
  | hook hook => exact (keepsConfig_runHook block hook c).mono_ok fun _ _ hsame => .inl hsame

end

/-! ## Runs -/

/-- A call that has been made, whether it succeeded, and the stores around it. -/
structure Turn where
  call : Call
  succeeded : Bool
  before : Store
  after : Store

namespace Turn

def SentBy (turn : Turn) (x : Address) : Prop := ∃ request, turn.call = .request x request

/-- The call makes an address the authority that it was not before. -/
def Appoints (turn : Turn) (x : Address) : Prop :=
  turn.before.authority? ≠ some x ∧ turn.after.authority? = some x

def Dismisses (turn : Turn) (x : Address) : Prop :=
  turn.before.authority? = some x ∧ turn.after.authority? ≠ some x

end Turn

/-- The engine is set up once, on any store, and is then called again and again, by anyone and
with any ledger and any rule for addresses. What a call has written is kept, whether it
succeeds or not. -/
inductive Serves : List Turn → Store → Prop
  | setUp {σ : Type} [HostLedger σ] [AddressRule] {block : Block} {sender : Address}
      {setup : ConfigChange} {c c' : Chain σ} {response : Response} :
      ((Call.setUp sender setup).run block).run c = .ok response c' → Serves [] c'.store
  | called {σ : Type} [HostLedger σ] [AddressRule] {turns : List Turn} {block : Block}
      {call : Call} {c : Chain σ} {result : EStateM.Result (Fault LockError) (Chain σ) Response} :
      Serves turns c.store → (∀ sender setup, call ≠ .setUp sender setup) →
      (call.run block).run c = result →
      Serves (turns ++ [⟨call, succeeds result, c.store, (finalState result).store⟩])
        (finalState result).store

namespace Serves

variable {turns : List Turn} {s : Store}

/-- What is true after one call, and survives the later ones, is true around all of these. -/
theorem after {p : Store → Prop} (h : Serves turns s) {past later : List Turn} {turn : Turn}
    (hturns : turns = past ++ turn :: later) (hstart : p turn.after)
    (hkeep : ∀ u ∈ later, p u.before → p u.after) :
    p s ∧ ∀ u ∈ later, p u.before ∧ p u.after := by
  induction h generalizing later with
  | setUp _ => simp at hturns
  | @called _ _ _ _ _ call c result _ _ _ ih =>
    rcases List.eq_nil_or_concat later with rfl | ⟨earlier, last, rfl⟩
    · obtain ⟨-, heq⟩ := List.append_inj' hturns rfl
      cases heq
      exact ⟨hstart, fun _ hnone => nomatch hnone⟩
    · rw [List.concat_eq_append, ← List.cons_append, ← List.append_assoc] at hturns
      obtain ⟨hbefore, heq⟩ := List.append_inj' hturns rfl
      cases heq
      rw [List.concat_eq_append] at hkeep ⊢
      obtain ⟨hnow, hothers⟩ := ih hbefore fun u hu => hkeep u (List.mem_append_left _ hu)
      have hlast := hkeep _ (List.mem_append_right _ (List.mem_singleton_self _)) hnow
      refine ⟨hlast, fun u hu => ?_⟩
      rcases List.mem_append.1 hu with hold | hnew
      · exact hothers u hold
      · cases List.mem_singleton.1 hnew
        exact ⟨hnow, hlast⟩

end Serves

/-- The configuration is valid before and after a call, and if it is another one then the call
is a request of the authority for that, and has succeeded. -/
structure Turn.Governed (turn : Turn) : Prop where
  before : turn.before.Configured
  after : turn.after.Configured
  changed : turn.after.config ≠ turn.before.config → turn.succeeded ∧ ∃ sender change,
    turn.call = .request sender (.updateConfig change) ∧ turn.before.authority? = some sender

namespace Turn.Governed

variable {turn : Turn} {x : Address}

theorem of_run {σ : Type} [HostLedger σ] [AddressRule] {block : Block} {call : Call} {c : Chain σ}
    {result : EStateM.Result (Fault LockError) (Chain σ) Response} (hbefore : c.store.Configured)
    (hcall : ∀ sender setup, call ≠ .setUp sender setup) (hrun : (call.run block).run c = result) :
    Turn.Governed ⟨call, succeeds result, c.store, (finalState result).store⟩ := by
  have hsame : ∀ {t : Store}, t.config = c.store.config → t.Configured := by
    intro t ht
    obtain ⟨config, hconfig, hvalid⟩ := hbefore
    exact ⟨config, ht.trans hconfig, hvalid⟩
  cases result with
  | error fault c' =>
    have hkept := (ends_call_config hcall).of_error hrun
    exact ⟨hbefore, hsame hkept, fun hne => absurd hkept hne⟩
  | ok response c' =>
    rcases (ends_call_config hcall).of_ok hrun with
      hkept | ⟨sender, request, rfl, change, rfl, hsender, hafter⟩
    · exact ⟨hbefore, hsame hkept, fun hne => absurd hkept hne⟩
    · exact ⟨hbefore, hafter, fun _ => ⟨rfl, sender, change, rfl, hsender⟩⟩

/-- A call of another one than the authority changes nothing. -/
theorem config_eq (h : turn.Governed) (hsender : turn.SentBy x)
    (hother : turn.before.authority? ≠ some x) : turn.after.config = turn.before.config := by
  by_contra hne
  obtain ⟨-, sender, change, hcall, hauthority⟩ := h.changed hne
  obtain ⟨request, hrequest⟩ := hsender
  cases hrequest.symm.trans hcall
  exact hother hauthority

theorem not_appoints (h : turn.Governed) (hsender : turn.SentBy x) : ¬turn.Appoints x := by
  intro happoints
  obtain ⟨hbefore, hafter⟩ := happoints
  rw [Store.authority?_congr (h.config_eq hsender hbefore)] at hafter
  exact hbefore hafter

end Turn.Governed

theorem Serves.governed {turns : List Turn} {s : Store} (h : Serves turns s) :
    s.Configured ∧ ∀ turn ∈ turns, turn.Governed := by
  induction h with
  | setUp hrun => exact ⟨ends_setUp_configured.of_ok hrun, fun _ hnone => nomatch hnone⟩
  | called _ hcall hrun ih =>
    obtain ⟨hbefore, hturns⟩ := ih
    have hlast := Turn.Governed.of_run hbefore hcall hrun
    refine ⟨hlast.after, fun turn hturn => ?_⟩
    rcases List.mem_append.1 hturn with hold | hnew
    · exact hturns turn hold
    · rw [List.mem_singleton.1 hnew]
      exact hlast

/-- From a set-up that succeeds on, whatever is requested by whomever and whatever the hooks
do: a valid configuration is stored before and after every call, and a call that changes it is
a successful request for that from the authority that stood in it before. So an address that
the authority has been taken from changes nothing later, and does not get the authority back
unless somebody else gives it back. -/
theorem config_stays_under_authority {turns : List Turn} {s : Store} (h : Serves turns s) :
    s.Configured ∧ (∀ turn ∈ turns, turn.Governed) ∧
    ∀ past turn later x, turns = past ++ turn :: later → turn.Dismisses x →
      (∀ u ∈ later, u.Appoints x → u.SentBy x) →
      s.authority? ≠ some x ∧
      ∀ u ∈ later, ¬u.Appoints x ∧ (u.SentBy x → u.after.config = u.before.config) := by
  obtain ⟨hs, hgoverned⟩ := h.governed
  refine ⟨hs, hgoverned, ?_⟩
  intro past turn later x hturns hdismisses happoints
  obtain ⟨-, hgone⟩ := hdismisses
  have hlater : ∀ u ∈ later, u.Governed := by
    intro u hu
    apply hgoverned
    rw [hturns]
    exact List.mem_append_right _ (List.mem_cons_of_mem _ hu)
  have hnot : ∀ u ∈ later, ¬u.Appoints x := fun u hu hback =>
    (hlater u hu).not_appoints (happoints u hu hback) hback
  obtain ⟨hend, haround⟩ := h.after (p := fun t => t.authority? ≠ some x) hturns hgone
    fun u hu hbefore hafter => hnot u hu ⟨hbefore, hafter⟩
  refine ⟨hend, fun u hu => ⟨hnot u hu, fun hsender => ?_⟩⟩
  exact (hlater u hu).config_eq hsender (haround u hu).1

namespace FirstLock

/-- The chain after alice has set up the engine. -/
def founded : Chain StrictLedger :=
  finalState (((Call.setUp alice ⟨none, none, none, none⟩).run block).run
    ⟨⟨Store.empty, []⟩, ledger⟩)

def appoint (name : String) : Call :=
  .request alice (.updateConfig ⟨some name, none, none, none⟩)

def handedOver : Chain StrictLedger := finalState (((appoint "bob").run block).run founded)

def handOver : Turn :=
  ⟨appoint "bob", succeeds (((appoint "bob").run block).run founded), founded.store,
    handedOver.store⟩

/-- Alice wants the authority back. -/
def regret : Turn :=
  ⟨appoint "alice", succeeds (((appoint "alice").run block).run handedOver), handedOver.store,
    (finalState (((appoint "alice").run block).run handedOver)).store⟩

theorem serves_regret : Serves [handOver, regret] regret.after := by
  obtain ⟨response, hok⟩ := exists_ok_of_succeeds (r :=
    ((Call.setUp alice ⟨none, none, none, none⟩).run block).run ⟨⟨Store.empty, []⟩, ledger⟩)
    (by decide +kernel)
  have hfounded : Serves [] founded.store := .setUp hok
  have hhanded : Serves [handOver] handedOver.store := .called hfounded nofun rfl
  exact .called hhanded nofun rfl

end FirstLock

open FirstLock in
/-- Alice has made bob the authority. She does not get the authority back, and the configuration
stays as bob has found it. -/
theorem former_authority_changes_nothing : handOver.succeeded ∧ handOver.Dismisses alice ∧
    regret.SentBy alice ∧ regret.after.config = regret.before.config ∧
    regret.after.authority? = some ⟨"bob"⟩ := by
  have hdismisses : handOver.Dismisses alice := by
    constructor <;> decide +kernel
  have hsender : regret.SentBy alice := ⟨_, rfl⟩
  have happoints : ∀ u ∈ [regret], u.Appoints alice → u.SentBy alice := by
    intro u hu _
    rw [List.mem_singleton.1 hu]
    exact hsender
  obtain ⟨-, -, hformer⟩ := config_stays_under_authority serves_regret
  obtain ⟨-, hlater⟩ := hformer [] handOver [regret] alice rfl hdismisses happoints
  obtain ⟨-, hkept⟩ := hlater regret (List.mem_singleton_self _)
  refine ⟨by decide +kernel, hdismisses, hsender, hkept hsender, ?_⟩
  decide +kernel

end StakeLock
