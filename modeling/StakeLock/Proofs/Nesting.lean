import StakeLock.Proofs.Coverage

/-!
# Nested messages

Messages may wrap other messages to any depth. The check of a transaction looks through
the wrappers: it depends on nothing but the demands of the messages inside, in order, and
answers with the first that fails.
-/

namespace StakeLock

/-- The answer to checks in a row: the first failure among them, if there is one. -/
def FirstFailure {ε α : Type} (check : α → Except ε Unit) (as : List α) : Except ε Unit → Prop
  | .ok _ => ∀ a ∈ as, check a = .ok ()
  | .error e => ∃ before a after, as = before ++ a :: after ∧
      (∀ b ∈ before, check b = .ok ()) ∧ check a = .error e

theorem firstFailure_forM {ε α : Type} (check : α → Except ε Unit) (as : List α) :
    FirstFailure check as (as.forM check) := by
  induction as with
  | nil =>
    intro a ha
    cases ha
  | cons a as ih =>
    change FirstFailure check (a :: as) (check a >>= fun _ => as.forM check)
    cases ha : check a with
    | error e => exact ⟨[], a, as, rfl, by simp, ha⟩
    | ok _ =>
      change FirstFailure check (a :: as) (as.forM check)
      cases has : as.forM check with
      | ok _ =>
        rw [has] at ih
        exact List.forall_mem_cons.2 ⟨ha, ih⟩
      | error e =>
        rw [has] at ih
        obtain ⟨before, b, after, rfl, hbefore, hb⟩ := ih
        exact ⟨a :: before, b, after, rfl, List.forall_mem_cons.2 ⟨ha, hbefore⟩, hb⟩

namespace TxMsg

mutual

/-- The messages that are run in the end, in order. -/
def flatten : TxMsg → List TxMsg
  | .exec _ msgs => flattenAll msgs
  | msg => [msg]

def flattenAll : List TxMsg → List TxMsg
  | [] => []
  | msg :: msgs => msg.flatten ++ flattenAll msgs

end

variable {msg : TxMsg} {msgs : List TxMsg}

theorem flatten_of_not_exec (h : ∀ grantee msgs, msg ≠ exec grantee msgs) :
    msg.flatten = [msg] := by
  cases msg <;> first | rfl | exact absurd rfl (h _ _)

theorem flattenAll_of_not_exec (h : ∀ m ∈ msgs, ∀ grantee inner, m ≠ exec grantee inner) :
    flattenAll msgs = msgs := by
  induction msgs with
  | nil => rfl
  | cons msg msgs ih =>
    obtain ⟨hfirst, hrest⟩ := List.forall_mem_cons.1 h
    rw [flattenAll, flatten_of_not_exec hfirst, ih hrest, List.singleton_append]

mutual

theorem not_exec_of_mem_flatten (msg : TxMsg) {m : TxMsg} (h : m ∈ msg.flatten)
    (grantee : String) (msgs : List TxMsg) : m ≠ exec grantee msgs := by
  cases msg with
  | exec _ inner =>
    rw [flatten] at h
    exact not_exec_of_mem_flattenAll inner h grantee msgs
  | _ =>
    rw [List.mem_singleton.1 h]
    nofun

theorem not_exec_of_mem_flattenAll (all : List TxMsg) {m : TxMsg} (h : m ∈ flattenAll all)
    (grantee : String) (msgs : List TxMsg) : m ≠ exec grantee msgs := by
  cases all with
  | nil => cases h
  | cons first rest =>
    rcases List.mem_append.1 h with hfirst | hrest
    · exact not_exec_of_mem_flatten first hfirst grantee msgs
    · exact not_exec_of_mem_flattenAll rest hrest grantee msgs

end

theorem outflows_of_not_exec (bondDenom : String) (h : ∀ grantee msgs, msg ≠ exec grantee msgs) :
    msg.outflows bondDenom = (msg.demands bondDenom).map .demand := by
  cases msg <;> first | rfl | exact absurd rfl (h _ _)

theorem outflows_flattenAll (bondDenom : String) : (flattenAll msgs).flatMap (outflows bondDenom) =
    ((flattenAll msgs).flatMap (demands bondDenom)).map .demand := by
  rw [List.map_flatMap]
  exact List.flatMap_congr fun m hm =>
    outflows_of_not_exec bondDenom (not_exec_of_mem_flattenAll msgs hm)

end TxMsg

/-- A transaction with the same messages without wrappers. -/
def Tx.flatten (tx : Tx) : Tx := { tx with msgs := TxMsg.flattenAll tx.msgs }

namespace BackingContext

variable {σ : Type} [HostLedger σ] [AddressRule] (ctx : BackingContext σ)

/-- A demand is checked by itself, and messages inside another one like those beside it. -/
def checkOutflow : Outflow → Check Unit
  | .demand demand => ctx.checkDemand demand
  | .nested msgs => ctx.checkMsgs msgs

theorem forM_checkOutflow (demands : List Demand) :
    (demands.map .demand).forM ctx.checkOutflow = demands.forM ctx.checkDemand :=
  List.forM_map

/-- The check of a message goes through its outflows in order. -/
theorem checkMsg_eq_forM_outflows (msg : TxMsg) :
    ctx.checkMsg msg = (msg.outflows ctx.bondDenom).forM ctx.checkOutflow := by
  cases msg with
  | exec _ msgs =>
    rw [checkMsg]
    exact (bind_pure_unit (x := ctx.checkMsgs msgs)).symm
  | _ =>
    rw [checkMsg, TxMsg.outflows_of_not_exec, forM_checkOutflow]
    all_goals
      intro _ _ h
      cases h

mutual

/-- The check of a message is that of the demands of all messages inside. -/
theorem checkMsg_eq_forM (msg : TxMsg) : ctx.checkMsg msg =
    (msg.flatten.flatMap (TxMsg.demands ctx.bondDenom)).forM ctx.checkDemand := by
  rw [checkMsg_eq_forM_outflows]
  cases msg with
  | exec _ msgs =>
    rw [TxMsg.flatten, ← checkMsgs_eq_forM msgs]
    exact bind_pure_unit
  | _ =>
    rw [TxMsg.outflows_of_not_exec, forM_checkOutflow, TxMsg.flatten_of_not_exec,
      List.flatMap_singleton]
    all_goals
      intro _ _ h
      cases h

theorem checkMsgs_eq_forM (msgs : List TxMsg) : ctx.checkMsgs msgs =
    ((TxMsg.flattenAll msgs).flatMap (TxMsg.demands ctx.bondDenom)).forM ctx.checkDemand := by
  cases msgs with
  | nil => rfl
  | cons msg msgs =>
    rw [checkMsgs, checkMsg_eq_forM msg, checkMsgs_eq_forM msgs, TxMsg.flattenAll,
      List.flatMap_append]
    exact List.forM_append.symm

end

theorem checkMsgs_flattenAll (msgs : List TxMsg) :
    ctx.checkMsgs (TxMsg.flattenAll msgs) = ctx.checkMsgs msgs := by
  rw [checkMsgs_eq_forM, checkMsgs_eq_forM,
    TxMsg.flattenAll_of_not_exec fun _ => TxMsg.not_exec_of_mem_flattenAll msgs]

end BackingContext

section

variable {σ : Type} [HostLedger σ] [AddressRule]

theorem outcome_checkTx (c : Chain σ) (block : Block) (tx : Tx) :
    outcome ((checkTx block tx).run c) =
      (Check.ofSystem (HostLedger.bondDenom c.ledger) >>= fun bondDenom =>
        BackingContext.checkMsgs ⟨c.store, c.ledger, block.time, bondDenom⟩ tx.msgs) := by
  apply Ends.outcome_eq
  unfold checkTx
  rw [ends_bind, ChainM.ends_ask]
  refine ⟨fun bondDenom hdenom => ?_, fun cause hdenom => by rw [hdenom]; rfl⟩
  rw [hdenom, ends_bind, ChainM.ends_getStore, ends_bind, ChainM.ends_getLedger]
  change Ends (fun a _ => BackingContext.checkMsgs _ _ = _)
    (fun e _ => BackingContext.checkMsgs _ _ = _) _
  simp only
  cases hmsgs : BackingContext.checkMsgs ⟨c.store, c.ledger, block.time, bondDenom⟩ tx.msgs with
  | ok _ => rfl
  | error fault =>
    cases fault with
    | aborted => rfl
    | refused reason => rfl

/-- The check of a transaction answers as if all wrappers were replaced by the messages
inside, at any depth. What then flows out are demands only, and the answer is the first
failure among these, in order, unless the ledger does not know its denomination. -/
theorem checkTx_sees_through_nesting (c : Chain σ) (block : Block) (tx : Tx) :
    (∀ msg ∈ tx.flatten.msgs, ∀ grantee msgs, msg ≠ .exec grantee msgs) ∧
    outcome ((checkTx block tx).run c) = outcome ((checkTx block tx.flatten).run c) ∧
    match HostLedger.bondDenom c.ledger with
    | .error cause => outcome ((checkTx block tx).run c) = .error (.refused (.system cause))
    | .ok bondDenom => ∃ demands,
        tx.flatten.msgs.flatMap (TxMsg.outflows bondDenom) = demands.map .demand ∧
        FirstFailure (BackingContext.checkDemand ⟨c.store, c.ledger, block.time, bondDenom⟩)
          demands (outcome ((checkTx block tx).run c)) := by
  refine ⟨fun _ => TxMsg.not_exec_of_mem_flattenAll tx.msgs, ?_, ?_⟩
  · rw [outcome_checkTx, outcome_checkTx]
    simp only [Tx.flatten, BackingContext.checkMsgs_flattenAll]
  · rw [outcome_checkTx]
    cases HostLedger.bondDenom c.ledger with
    | error cause => rfl
    | ok bondDenom =>
      refine ⟨_, TxMsg.outflows_flattenAll bondDenom, ?_⟩
      change FirstFailure _ _ (BackingContext.checkMsgs _ _)
      rw [BackingContext.checkMsgs_eq_forM]
      exact firstFailure_forM _ _

end

namespace FirstLock

/-- Two wrappers without messages, and one more around a transfer of what alice has to keep. -/
def wrapped : Tx :=
  ⟨[.exec "carol" [],
    .exec "carol" [.exec "bob" [], .exec "bob" [.send "alice" "bob" [⟨"stake", ⟨25, by decide⟩⟩]]],
    .send "alice" "carol" [⟨"stake", delegated⟩]], none⟩

end FirstLock

open FirstLock in
/-- The transfer inside is refused before the one beside the wrappers. -/
theorem wrapped_transfer_refused : outcome ((checkTx block wrapped).run slashed) = .error
    (.refused (.insufficientUnlockedBalance ⟨20, by decide⟩ ⟨25, by decide⟩)) := by
  have h := (checkTx_sees_through_nesting slashed block wrapped).2.1
  rw [h]
  decide +kernel

end StakeLock
