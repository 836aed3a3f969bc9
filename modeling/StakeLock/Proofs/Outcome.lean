import StakeLock.Chain

/-!
# Outcomes of calls

A call ends with a result or with a fault, and with a state in both cases. The
rules follow the steps of a call, so a statement about both endings is proved
along its text.
-/

namespace StakeLock

section

variable {ε σ α β : Type} {P Q : α → σ → Prop} {E F : ε → σ → Prop}

/-- A result and its state satisfy `P`, a fault and its state satisfy `E`. -/
def Ends (P : α → σ → Prop) (E : ε → σ → Prop) : EStateM.Result ε σ α → Prop
  | .ok a s => P a s
  | .error e s => E e s

/-- The state in which a call ends, with a result or with a fault. -/
def finalState : EStateM.Result ε σ α → σ
  | .ok _ s => s
  | .error _ s => s

/-- The result or the fault of a call, without the state. -/
def outcome : EStateM.Result ε σ α → Except ε α
  | .ok a _ => .ok a
  | .error e _ => .error e

def succeeds : EStateM.Result ε σ α → Bool
  | .ok _ _ => true
  | .error _ _ => false

theorem exists_ok_of_succeeds {r : EStateM.Result ε σ α} (h : succeeds r) :
    ∃ a, r = .ok a (finalState r) := by
  cases r with
  | ok a s => exact ⟨a, rfl⟩
  | error e s => cases h

theorem exists_error_of_not_succeeds {r : EStateM.Result ε σ α} (h : ¬succeeds r) :
    ∃ e, r = .error e (finalState r) := by
  cases r with
  | ok a s => exact absurd rfl h
  | error e s => exact ⟨e, rfl⟩

theorem eq_ok_of_outcome {r : EStateM.Result ε σ α} {a : α} (h : outcome r = .ok a) :
    r = .ok a (finalState r) := by
  cases r with
  | ok a' s =>
    cases h
    rfl
  | error e s => cases h

theorem eq_error_of_outcome {r : EStateM.Result ε σ α} {e : ε} (h : outcome r = .error e) :
    r = .error e (finalState r) := by
  cases r with
  | ok a s => cases h
  | error e' s =>
    cases h
    rfl

theorem succeeds_iff {r : EStateM.Result ε σ α} :
    succeeds r ↔ Ends (fun _ _ => True) (fun _ _ => False) r := by
  cases r <;> simp [succeeds, Ends]

@[simp] theorem ends_ok {a : α} {s : σ} : Ends P E (.ok a s) ↔ P a s := Iff.rfl

@[simp] theorem ends_error {e : ε} {s : σ} : Ends P E (.error e s : EStateM.Result ε σ α) ↔ E e s :=
  Iff.rfl

theorem Ends.mono {r : EStateM.Result ε σ α} (h : Ends P E r) (hP : ∀ a s, P a s → Q a s)
    (hE : ∀ e s, E e s → F e s) : Ends Q F r := by
  cases r with
  | ok a s => exact hP a s h
  | error e s => exact hE e s h

theorem Ends.mono_ok {r : EStateM.Result ε σ α} (h : Ends P E r) (hP : ∀ a s, P a s → Q a s) :
    Ends Q E r :=
  h.mono hP fun _ _ he => he

theorem Ends.and {r : EStateM.Result ε σ α} (h : Ends P E r) (h' : Ends Q F r) :
    Ends (fun a s => P a s ∧ Q a s) (fun e s => E e s ∧ F e s) r := by
  cases r <;> exact ⟨h, h'⟩

theorem Ends.of_succeeds {r : EStateM.Result ε σ α} (h : Ends P E r) (hr : succeeds r) :
    Ends P F r := by
  cases r with
  | ok a s => exact h
  | error e s => cases hr

theorem Ends.of_ok {r : EStateM.Result ε σ α} {a : α} {s : σ} (h : Ends P E r)
    (hr : r = .ok a s) : P a s := by
  subst hr
  exact h

theorem Ends.of_error {r : EStateM.Result ε σ α} {e : ε} {s : σ} (h : Ends P E r)
    (hr : r = .error e s) : E e s := by
  subst hr
  exact h

theorem Ends.exists_ok {r : EStateM.Result ε σ α} (h : Ends P (fun _ _ => False) r) :
    ∃ a s, r = .ok a s ∧ P a s := by
  cases r with
  | ok a s => exact ⟨a, s, rfl, h⟩
  | error e s => exact h.elim

/-- A call that does what a check says, and fails if the check does, succeeds exactly if the
check does. -/
theorem Ends.exists_ok_iff {β φ : Type} {x : Except φ β} {Q : β → α → σ → Prop}
    {r : EStateM.Result ε σ α}
    (h : Ends (fun a s => ∃ b, x = .ok b ∧ Q b a s) (fun _ _ => ∃ reason, x = .error reason) r) :
    (∃ a s, r = .ok a s) ↔ ∃ b, x = .ok b := by
  cases r with
  | ok a s =>
    obtain ⟨b, hb, -⟩ := h
    exact iff_of_true ⟨a, s, rfl⟩ ⟨b, hb⟩
  | error e s =>
    obtain ⟨reason, hreason⟩ := h
    rw [hreason]
    exact iff_of_false nofun nofun

theorem Ends.outcome_eq {r : EStateM.Result ε σ α} {x : Except ε α}
    (h : Ends (fun a _ => x = .ok a) (fun e _ => x = .error e) r) : outcome r = x := by
  cases r <;> exact h.symm

theorem Ends.finalState {p : σ → Prop} {r : EStateM.Result ε σ α}
    (h : Ends (fun _ => p) (fun _ => p) r) : p (finalState r) := by
  cases r <;> exact h

theorem ends_throw {e : ε} {s : σ} : Ends P E ((throw e : EStateM ε σ α).run s) ↔ E e s := Iff.rfl

theorem ends_bind {x : EStateM ε σ β} {f : β → EStateM ε σ α} {s : σ} :
    Ends P E ((x >>= f).run s) ↔ Ends (fun b t => Ends P E ((f b).run t)) E (x.run s) := by
  rw [EStateM.run_bind]
  cases x.run s <;> exact Iff.rfl

theorem run_bind_eq_ok_iff {x : EStateM ε σ β} {f : β → EStateM ε σ α} {a : α} {s t : σ} :
    (x >>= f).run s = .ok a t ↔ ∃ b u, x.run s = .ok b u ∧ (f b).run u = .ok a t := by
  rw [EStateM.run_bind]
  cases x.run s with
  | ok b u =>
    constructor
    · intro h
      exact ⟨b, u, rfl, h⟩
    · rintro ⟨_, _, heq, h⟩
      cases heq
      exact h
  | error e u => simp

theorem run_bind_pure_eq_ok_iff {x : EStateM ε σ β} {f : β → α} {a : α} {s t : σ} :
    (x >>= fun b => pure (f b)).run s = .ok a t ↔ ∃ b, x.run s = .ok b t ∧ a = f b := by
  rw [run_bind_eq_ok_iff]
  constructor
  · rintro ⟨b, _, hrun, heq⟩
    cases heq
    exact ⟨b, hrun, rfl⟩
  · rintro ⟨b, hrun, rfl⟩
    exact ⟨b, t, hrun, rfl⟩

theorem ends_ite {c : Prop} [Decidable c] {x y : EStateM ε σ α} {s : σ} :
    Ends P E ((if c then x else y).run s) ↔
      (c → Ends P E (x.run s)) ∧ (¬c → Ends P E (y.run s)) := by
  by_cases h : c <;> simp [h]

end

section

variable {σ α : Type} {P : α → σ → Prop} {E : Fault LockError → σ → Prop} {s : σ}

theorem ends_refuse {reason : LockError} :
    Ends P E ((refuse reason : EStateM (Fault LockError) σ α).run s) ↔ E (.refused reason) s :=
  Iff.rfl

theorem ends_abort : Ends P E ((abort : EStateM (Fault LockError) σ α).run s) ↔ E .aborted s :=
  Iff.rfl

theorem ends_accept {result : Except LockError α} :
    Ends P E ((accept result).run s) ↔ (∀ a, result = .ok a → P a s) ∧
      ∀ reason, result = .error reason → E (.refused reason) s := by
  cases result <;> simp [accept, ends_refuse]

theorem ends_acceptSystem {result : Except SystemError α} :
    Ends P E ((acceptSystem result).run s) ↔ (∀ a, result = .ok a → P a s) ∧
      ∀ cause, result = .error cause → E (.refused (.system cause)) s := by
  cases result <;> simp [acceptSystem, ends_refuse]

theorem ends_orAbort {result : Option α} :
    Ends P E ((orAbort result).run s) ↔ (∀ a, result = some a → P a s) ∧
      (result = none → E .aborted s) := by
  cases result <;> simp [orAbort, ends_abort]

variable {β : Type}

/-! Checks in a row are one check. -/

theorem accept_pure {a : α} :
    (accept (pure a) : EStateM (Fault LockError) σ α) = pure a := rfl

theorem accept_bind {result : Except LockError β} {f : β → Except LockError α} :
    (accept (result >>= f) : EStateM (Fault LockError) σ α) =
      accept result >>= fun b => accept (f b) := by
  cases result <;> rfl

theorem accept_mapError {result : Except SystemError α} :
    (accept (result.mapError .system) : EStateM (Fault LockError) σ α) = acceptSystem result := by
  cases result <;> rfl

theorem mapError_eq_ok_iff {ε ε' : Type} {result : Except ε α} {f : ε → ε'} {a : α} :
    result.mapError f = .ok a ↔ result = .ok a := by
  cases result with
  | error e => exact iff_of_false nofun nofun
  | ok b =>
    change (Except.ok b : Except ε' α) = .ok a ↔ _
    rw [Except.ok.injEq, Except.ok.injEq]

/-! A call that goes on after a check succeeds if the check does, and the rest of the call. -/

variable {f : β → EStateM (Fault LockError) σ α}

theorem run_accept_bind_eq_ok_iff {result : Except LockError β} {a : α} {t : σ} :
    (accept result >>= f).run s = .ok a t ↔ ∃ b, result = .ok b ∧ (f b).run s = .ok a t := by
  cases result with
  | error reason =>
    simp only [reduceCtorEq, false_and, exists_false, iff_false]
    intro h
    cases h
  | ok b =>
    simp only [Except.ok.injEq, exists_eq_left']
    exact Iff.rfl

theorem run_acceptSystem_bind_eq_ok_iff {result : Except SystemError β} {a : α} {t : σ} :
    (acceptSystem result >>= f).run s = .ok a t ↔ ∃ b, result = .ok b ∧ (f b).run s = .ok a t := by
  rw [← accept_mapError, run_accept_bind_eq_ok_iff]
  simp only [mapError_eq_ok_iff]

/-! A check that may fail where every fault is fine can be passed over. -/

theorem ends_accept_bind {result : Except LockError β} (hE : ∀ fault, E fault s)
    (h : ∀ b, result = .ok b → Ends P E ((f b).run s)) :
    Ends P E ((accept result >>= f).run s) := by
  rw [ends_bind, ends_accept]
  exact ⟨h, fun _ _ => hE _⟩

theorem ends_acceptSystem_bind {result : Except SystemError β} (hE : ∀ fault, E fault s)
    (h : ∀ b, result = .ok b → Ends P E ((f b).run s)) :
    Ends P E ((acceptSystem result >>= f).run s) := by
  rw [ends_bind, ends_acceptSystem]
  exact ⟨h, fun _ _ => hE _⟩

end

namespace StoreM

variable {E : Fault LockError → Journal → Prop} {j : Journal}

theorem ends_getStore {P : Store → Journal → Prop} :
    Ends P E (getStore.run j) ↔ P j.store j := Iff.rfl

theorem ends_modifyStore {P : Unit → Journal → Prop} {f : Store → Store} :
    Ends P E ((modifyStore f).run j) ↔ P () { j with store := f j.store } := Iff.rfl

theorem ends_note {P : Unit → Journal → Prop} {notice : Notice} :
    Ends P E ((note notice).run j) ↔ P () { j with notices := j.notices ++ [notice] } := Iff.rfl

end StoreM

namespace ChainM

variable {σ α : Type} {P : α → Chain σ → Prop} {E : Fault LockError → Chain σ → Prop} {c : Chain σ}

theorem ends_onStore {call : StoreM α} :
    Ends P E ((onStore call).run c) ↔ Ends (fun a j => P a { c with journal := j })
      (fun e j => E e { c with journal := j }) (call.run c.journal) := by
  unfold onStore
  simp only [EStateM.run]
  cases call c.journal <;> exact Iff.rfl

theorem ends_onLedger {call : HostM σ α} :
    Ends P E ((onLedger call).run c) ↔ Ends (fun a l => P a { c with ledger := l })
      (fun e l => E (e.map .system) { c with ledger := l }) (call.run c.ledger) := by
  unfold onLedger
  simp only [EStateM.run]
  cases call c.ledger <;> exact Iff.rfl

theorem ends_getStore {P : Store → Chain σ → Prop} :
    Ends P E (getStore.run c) ↔ P c.store c := Iff.rfl

theorem ends_getLedger {P : σ → Chain σ → Prop} :
    Ends P E (getLedger.run c) ↔ P c.ledger c := Iff.rfl

theorem ends_ask {question : σ → Except SystemError α} :
    Ends P E ((ask question).run c) ↔ (∀ a, question c.ledger = .ok a → P a c) ∧
      ∀ cause, question c.ledger = .error cause → E (.refused (.system cause)) c := by
  rw [ask, ends_bind, ends_getLedger, ends_acceptSystem]

theorem ends_ofCheck {outcome : Check α} :
    Ends P E ((ofCheck outcome).run c) ↔ (∀ a, outcome = .ok a → P a c) ∧
      ∀ fault, outcome = .error fault → E fault c := by
  cases outcome <;> simp [ofCheck, ends_throw]

variable {β : Type} {f : β → ChainM σ α}

theorem ends_ask_bind {question : σ → Except SystemError β} (hE : ∀ fault, E fault c)
    (h : ∀ b, question c.ledger = .ok b → Ends P E ((f b).run c)) :
    Ends P E ((ask question >>= f).run c) := by
  rw [ends_bind, ends_ask]
  exact ⟨h, fun _ _ => hE _⟩

end ChainM

end StakeLock
