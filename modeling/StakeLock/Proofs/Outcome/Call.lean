import StakeLock.Call
import StakeLock.Proofs.Outcome.Request
import StakeLock.Proofs.Outcome.Sweep

/-!
# Outcomes of calls

Whatever its ledger answers, a call that succeeds makes only changes to the
store, and a call that fails leaves nothing else but a torn rest.
-/

namespace StakeLock

variable {now : Timestamp}

section

variable {j : Journal} {sender : Address}

theorem ends_storeConfig {config : Config} {response : Response} : Ends
    (fun r k => r = response ∧ config.Valid ∧ k.store = { j.store with config := some config })
    (fun _ k => k = j)
    ((do accept config.check; setConfig config; return response : StoreM Response).run j) := by
  refine ends_accept_bind (fun _ => rfl) fun _ hvalid => ?_
  exact ⟨rfl, config.check_eq_ok_iff.1 hvalid, rfl⟩

theorem ends_endBlock_changes {block : Block} : Ends
    (fun _ k => Changes block.time j.store.config j.store k.store)
    (fun fault k => Torn j.store fault k.store)
    ((endBlock block).run j) := by
  apply ends_endBlock.mono_ok
  rintro _ k ⟨amounts, hdue, -, ⟨-, hk⟩ | ⟨-, total, htotal, hk⟩⟩
  · rw [hk]
  · rw [hk]
    rw [← Store.sum_value_entriesOf, ← hdue] at htotal
    exact .single (.sweep htotal)

variable [AddressRule]

theorem ends_instantiate {setup : ConfigChange} : Ends
    (fun r k => r.events = [] ∧ ∃ config : Config, config.Valid ∧
      k.store = { j.store with version := some contractVersion, config := some config })
    (fun _ k => k.store = { j.store with version := some contractVersion })
    ((instantiate sender setup).run j) := by
  unfold instantiate
  rw [ends_bind, StoreM.ends_modifyStore]
  cases setup.authority with
  | none =>
    refine ends_storeConfig.mono ?_ fun _ k hk => by rw [hk]
    rintro _ k ⟨rfl, hk⟩
    exact ⟨rfl, _, hk⟩
  | some text =>
    refine ends_accept_bind (fun _ => rfl) fun authority _ => ?_
    refine ends_storeConfig.mono ?_ fun _ k hk => by rw [hk]
    rintro _ k ⟨rfl, hk⟩
    exact ⟨rfl, _, hk⟩

theorem ends_updateConfig {change : ConfigChange} : Ends
    (fun r k => r.events = [] ∧ ∃ config : Config,
      (config.Valid ∧ ∃ old, j.store.config = some old ∧ old.authority = sender) ∧
      k.store = { j.store with config := some config })
    (fun _ k => k = j) ((updateConfig sender change).run j) := by
  unfold updateConfig
  rw [ends_bind, StoreM.ends_getStore]
  refine ends_acceptSystem_bind (fun _ => rfl) fun old hold => ?_
  rw [Store.getConfig_eq_ok_iff] at hold
  rw [ends_ite]
  refine ⟨fun _ => rfl, fun hsender => ?_⟩
  rw [not_not] at hsender
  cases change.authority with
  | none =>
    apply ends_storeConfig.mono_ok
    rintro _ k ⟨rfl, hvalid, hk⟩
    exact ⟨rfl, _, ⟨hvalid, old, hold, hsender.symm⟩, hk⟩
  | some text =>
    refine ends_accept_bind (fun _ => rfl) fun authority _ => ?_
    apply ends_storeConfig.mono_ok
    rintro _ k ⟨rfl, hvalid, hk⟩
    exact ⟨rfl, _, ⟨hvalid, old, hold, hsender.symm⟩, hk⟩

theorem lockupPayer?_eq_some {store : Store} {tx : Tx} {simulate success : Bool}
    {address : Address} {account : LockupAccount}
    (h : lockupPayer? store tx simulate success = some (address, account)) :
    store.lockup? address = some account := by
  unfold lockupPayer? at h
  split at h
  · cases h
  · simp only [Option.bind_eq_bind, Option.bind_eq_some_iff] at h
    obtain ⟨text, -, a, -, b, hb, heq⟩ := h
    cases heq
    exact hb

/-- The expired locks of the payer are announced and released, and the account is saved
without them. Without any, or without such a payer, nothing happens. -/
theorem ends_clearPayer_of_payer {tx : Tx} {simulate success : Bool} : Ends
    (fun r k => match lockupPayer? j.store tx simulate success with
      | none => r.events = [] ∧ k.store = j.store
      | some (address, account) =>
          r.events = (account.schedule.expired now).map
            (fun l => .expired address (.date l.date) l.amount) ∧
          (account.schedule.expired now = [] ∧ k.store = j.store ∨
            ∃ t, j.store.Releases account.address (account.schedule.expired now) t ∧ k.store =
              Draft.saved ⟨{ account with schedule := account.schedule.unexpired now }, t⟩))
    (fun fault k => Torn j.store fault k.store) ((clearPayer now tx simulate success).run j) := by
  unfold clearPayer
  simp only
  rw [ends_bind, StoreM.ends_getStore]
  cases hpayer : lockupPayer? j.store tx simulate success with
  | none => exact ⟨rfl, rfl⟩
  | some payer =>
    obtain ⟨address, account⟩ := payer
    simp only
    rw [ends_bind]
    apply ends_expireLocks.mono_ok
    rintro ⟨expired, rest⟩ k ⟨hexpired, hrest, hk⟩
    simp only at hexpired hrest
    subst hexpired hrest
    simp only
    rw [ends_ite]
    refine ⟨fun hempty => ?_, fun _ => ⟨rfl, .inr ⟨k.store, hk, rfl⟩⟩⟩
    have hnil : account.schedule.expired now = [] := List.isEmpty_iff.1 hempty
    rw [hnil] at hk ⊢
    refine ⟨rfl, .inl ⟨rfl, ?_⟩⟩
    generalize k.store = t at hk ⊢
    cases hk
    rfl

theorem ends_clearPayer {tx : Tx} {simulate success : Bool} : Ends
    (fun _ k => k.store = j.store ∨ ∃ address account t, j.store.lockup? address = some account ∧
      j.store.Releases account.address (account.schedule.expired now) t ∧
      k.store = Draft.saved ⟨{ account with schedule := account.schedule.unexpired now }, t⟩)
    (fun fault k => Torn j.store fault k.store) ((clearPayer now tx simulate success).run j) := by
  apply ends_clearPayer_of_payer.mono_ok
  intro _ k hk
  cases hpayer : lockupPayer? j.store tx simulate success with
  | none =>
    rw [hpayer] at hk
    exact .inl hk.2
  | some payer =>
    obtain ⟨address, account⟩ := payer
    rw [hpayer] at hk
    rcases hk.2 with ⟨-, hk⟩ | ⟨t, hreleases, hk⟩
    · exact .inl hk
    · exact .inr ⟨address, account, t, lockupPayer?_eq_some hpayer, hreleases, hk⟩

theorem ends_clearPayer_changes {tx : Tx} {simulate success : Bool} : Ends
    (fun _ k => Changes now j.store.config j.store k.store)
    (fun fault k => Torn j.store fault k.store)
    ((clearPayer now tx simulate success).run j) := by
  apply ends_clearPayer.mono_ok
  rintro _ k (hk | ⟨address, account, t, haccount, hreleases, hk⟩)
  · rw [hk]
  · rw [hk]
    exact .single (.clear haccount hreleases)

end

variable {σ : Type} [HostLedger σ] [AddressRule] {c : Chain σ} {block : Block}

theorem ends_checkTx {tx : Tx} : Ends
    (fun _ c' => c' = c ∧ ∃ bondDenom, HostLedger.bondDenom c.ledger = .ok bondDenom ∧
      BackingContext.checkMsgs ⟨c.store, c.ledger, block.time, bondDenom⟩ tx.msgs = .ok ())
    (fun _ c' => c'.store = c.store) ((checkTx block tx).run c) := by
  unfold checkTx
  refine ChainM.ends_ask_bind (fun _ => rfl) fun bondDenom hdenom => ?_
  rw [ends_bind, ChainM.ends_getStore, ends_bind, ChainM.ends_getLedger]
  simp only
  cases hmsgs : BackingContext.checkMsgs ⟨c.store, c.ledger, block.time, bondDenom⟩ tx.msgs with
  | ok _ => exact ⟨rfl, bondDenom, hdenom, hmsgs⟩
  | error fault =>
    cases fault with
    | aborted => rfl
    | refused reason => rfl

theorem ends_execute {sender : Address} {request : Request} : Ends
    (fun _ c' => Changes now c.store.config c.store c'.store)
    (fun fault c' => Leaves now c.store.config c.store fault c'.store)
    ((execute now sender request).run c) := by
  cases request with
  | lock entries =>
    apply ends_executeLock.mono_ok
    rintro _ c' ⟨-, locks, hlocks, hc'⟩
    exact .single (hc'.change hlocks)
  | extend extensions =>
    apply ends_executeExtend.mono_ok
    rintro _ c' ⟨-, account, moves, d, haccount, hmoves, hdraft, hc'⟩
    rw [hc']
    exact .single (.extend haccount hmoves hdraft)
  | pay payment =>
    apply ends_executePay.mono_ok
    rintro _ c' ⟨bondDenom, config, checked, -, -, hp, hpays⟩
    exact .single (hpays.change hp)
  | payMany total payments =>
    apply ends_executePayMany.mono_ok
    rintro _ c' ⟨bondDenom, config, checked, -, -, -, hp, hall⟩
    exact hall.changes hp
  | updateConfig change =>
    refine ChainM.ends_onStore.2 (ends_updateConfig.mono ?_ fun fault k hk => ?_)
    · rintro _ k ⟨-, config, ⟨hvalid, -⟩, hk⟩
      change Changes now c.store.config c.store k.store
      rw [hk]
      exact .single (.configure hvalid)
    · rw [hk]
      exact leaves_self

theorem ends_runHook {hook : Hook} : Ends
    (fun _ c' => Changes block.time c.store.config c.store c'.store)
    (fun fault c' => Leaves block.time c.store.config c.store fault c'.store)
    ((runHook block hook).run c) := by
  cases hook with
  | beforeTx tx =>
    unfold runHook
    rw [ends_bind]
    refine ends_checkTx.mono ?_ fun fault c' he => ?_
    · rintro _ c' ⟨rfl, -⟩
      exact .refl
    · rw [he]
      exact leaves_self
  | afterTx tx simulate success =>
    exact ChainM.ends_onStore.2 (ends_clearPayer_changes.mono (fun _ _ h => h)
      fun _ _ he => he.leaves)
  | endBlock =>
    exact ChainM.ends_onStore.2 (ends_endBlock_changes.mono (fun _ _ h => h)
      fun _ _ he => he.leaves)

theorem ends_call {call : Call} : Ends
    (fun _ c' => Changes block.time c.store.config c.store c'.store)
    (fun fault c' => Leaves block.time c.store.config c.store fault c'.store)
    ((call.run block).run c) := by
  cases call with
  | setUp sender setup =>
    have hversion : Changes block.time c.store.config c.store
        { c.store with version := some contractVersion } :=
      .single (.version contractVersion)
    refine ChainM.ends_onStore.2 (ends_instantiate.mono ?_ fun fault k hk => ?_)
    · rintro _ k ⟨-, config, hvalid, hk⟩
      change Changes block.time c.store.config c.store k.store
      rw [hk]
      exact hversion.tail (.configure hvalid)
    · change Leaves block.time c.store.config c.store fault k.store
      rw [hk]
      exact leaves_self.of_changes hversion
  | request sender req => exact ends_execute
  | hook h => exact ends_runHook

end StakeLock
