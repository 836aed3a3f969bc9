import StakeLock.Proofs.Interchange
import StakeLock.Proofs.Listing
import StakeLock.Proofs.Nesting

/-!
# Clean-up is not seen

Whoever asks about locks asks for those that are active. Clean-up takes only what has
expired, so from then on no check of a transaction and no question about locks tells the
stores before and after it apart.
-/

namespace StakeLock

open Query

/-- Two accounts of one address with the same active locks. -/
structure LockupAccount.Alike (now : Timestamp) (x y : LockupAccount) : Prop where
  address : x.address = y.address
  active : x.schedule.active now = y.schedule.active now

variable {σ : Type} [HostLedger σ]
variable {now later : Timestamp} {s t : Store} {ledger : σ} {bondDenom text : String}
variable {x y : LockupAccount} {who : Address → Bool} {gone : QueueKey → Bool}

theorem LockupAccount.Alike.backing_eq (h : x.Alike now y) :
    x.backing ledger now = y.backing ledger now := by
  unfold backing Schedule.lockedAmount?
  rw [h.active, h.address]

theorem Store.Cleaned.alike (h : s.Cleaned now who gone t) (hle : now ≤ later) (a : Address) :
    Option.Rel (LockupAccount.Alike later) (t.lockup? a) (s.lockup? a) := by
  rw [h.lockup?]
  cases s.lockup? a with
  | none => exact .none
  | some account =>
    cases who a with
    | false => exact .some ⟨rfl, rfl⟩
    | true => exact .some ⟨rfl, account.schedule.active_unexpired hle⟩

/-! ## Checks -/

section

variable [AddressRule]
  (h : ∀ a, Option.Rel (LockupAccount.Alike now) (t.lockup? a) (s.lockup? a))

include h

omit [HostLedger σ] in
/-- A check that goes on alike with alike accounts has the same outcome in both stores. -/
theorem lockup?_bind_eq_of_alike {α : Type} {f g : Option LockupAccount → Check α}
    (hfg : ∀ {found found'}, Option.Rel (LockupAccount.Alike now) found found' →
      f found = g found') (text : String) :
    (BackingContext.lockup? ⟨t, ledger, now, bondDenom⟩ text >>= f) =
      (BackingContext.lockup? ⟨s, ledger, now, bondDenom⟩ text >>= g) := by
  unfold BackingContext.lockup?
  cases Check.ofResult (Address.ofText text) with
  | error _ => rfl
  | ok address => exact hfg (h address)

theorem checkSpend_eq_of_alike (spender : String) (coins : List Coin) :
    BackingContext.checkSpend ⟨t, ledger, now, bondDenom⟩ spender coins =
      BackingContext.checkSpend ⟨s, ledger, now, bondDenom⟩ spender coins := by
  unfold BackingContext.checkSpend
  refine lockup?_bind_eq_of_alike h (fun haccounts => ?_) spender
  cases haccounts with
  | none => rfl
  | some halike =>
    change (LockupAccount.backing _ ledger now >>= _) = _
    rw [halike.backing_eq, halike.address]
    rfl

theorem checkUndelegate_eq_of_alike (delegator : String) (amount : Amount) :
    BackingContext.checkUndelegate ⟨t, ledger, now, bondDenom⟩ delegator amount =
      BackingContext.checkUndelegate ⟨s, ledger, now, bondDenom⟩ delegator amount := by
  unfold BackingContext.checkUndelegate
  refine lockup?_bind_eq_of_alike h (fun haccounts => ?_) delegator
  cases haccounts with
  | none => rfl
  | some halike =>
    change (LockupAccount.backing _ ledger now >>= _) = _
    rw [halike.backing_eq]

theorem checkMsgs_eq_of_alike (msgs : List TxMsg) :
    BackingContext.checkMsgs ⟨t, ledger, now, bondDenom⟩ msgs =
      BackingContext.checkMsgs ⟨s, ledger, now, bondDenom⟩ msgs := by
  have hdemand : BackingContext.checkDemand ⟨t, ledger, now, bondDenom⟩ =
      BackingContext.checkDemand ⟨s, ledger, now, bondDenom⟩ := by
    funext demand
    cases demand with
    | spend spender coins => exact checkSpend_eq_of_alike h spender coins
    | undelegate delegator amount => exact checkUndelegate_eq_of_alike h delegator amount.amount
  rw [BackingContext.checkMsgs_eq_forM, BackingContext.checkMsgs_eq_forM, hdemand]

theorem accountLocks_eq_of_alike : accountLocks t now = accountLocks s now := by
  have hactive : t.activeLocks now = s.activeLocks now := by
    funext a
    have haccounts := h a
    unfold Store.activeLocks
    generalize t.lockup? a = x, s.lockup? a = y at haccounts ⊢
    cases haccounts with
    | none => rfl
    | some halike => exact halike.active
  funext text
  rw [Store.accountLocks_eq, Store.accountLocks_eq, hactive]

end

/-- What the check of a transaction answers depends on the active locks and the ledger. -/
theorem outcome_beforeTx_eq [AddressRule] {j k : Journal} {block : Block}
    (h : ∀ a, Option.Rel (LockupAccount.Alike block.time) (k.store.lockup? a) (j.store.lockup? a))
    (tx : Tx) : outcome ((runHook block (.beforeTx tx)).run ⟨k, ledger⟩) =
      outcome ((runHook block (.beforeTx tx)).run ⟨j, ledger⟩) := by
  have hcheck : outcome ((checkTx block tx).run ⟨k, ledger⟩) =
      outcome ((checkTx block tx).run ⟨j, ledger⟩) := by
    rw [outcome_checkTx, outcome_checkTx]
    change (_ >>= fun bondDenom => BackingContext.checkMsgs ⟨k.store, ledger, _, bondDenom⟩ _) =
      _ >>= fun bondDenom => BackingContext.checkMsgs ⟨j.store, ledger, _, bondDenom⟩ _
    simp only [checkMsgs_eq_of_alike h]
  unfold runHook
  rw [EStateM.run_bind, EStateM.run_bind]
  revert hcheck
  cases (checkTx block tx).run ⟨k, ledger⟩ <;> cases (checkTx block tx).run ⟨j, ledger⟩ <;>
    simp [outcome]

/-! ## Questions -/

namespace Store

theorem Cleaned.dated (h : s.Cleaned now who gone t) (hs : s.Dated) : t.Dated := by
  intro key entry hget
  rw [h.get?] at hget
  split at hget
  · cases hget
  · exact hs key entry hget

theorem Cleaned.listed_eq (h : s.Cleaned now who gone t) (hs : s.Dated)
    (hgone : ∀ key, gone key → key.time ≤ now.seconds) (hle : now ≤ later)
    (after : Option QueueKey) (before : Option Nat) :
    t.listed later after before = s.listed later after before := by
  unfold Store.listed datedQueue
  rw [h.queue]
  unfold Table.filter
  simp only [List.filter_filterMap, List.filterMap_filter]
  apply List.filterMap_congr
  rintro ⟨key, entry⟩ he
  by_cases hkey : gone key
  · have hnone : (DatedEntry.ofQueued? (key, entry)).filter
        (DatedEntry.isListed later after before) = none := by
      rw [Option.filter_eq_none_iff]
      intro d hd hlisted
      have hmem : d ∈ s.listed later after before :=
        List.mem_filter.2 ⟨List.mem_filterMap.2 ⟨_, he, hd⟩, hlisted⟩
      obtain ⟨-, htime, hlocked, -⟩ := hs.mem_listed.1 hmem
      rw [← seconds_lt_iff_isLocked htime] at hlocked
      obtain ⟨heq, -⟩ := ofQueued?_eq_some_iff.1 hd
      have hdue := hgone key hkey
      have hseconds : now.seconds ≤ later.seconds := Nat.div_le_div_right hle
      cases heq
      omega
    simp [hkey, hnone]
  · simp [hkey]

theorem Cleaned.answer_eq [AddressRule] (h : s.Cleaned now who gone t) (hs : s.Dated)
    (hgone : ∀ key, gone key → key.time ≤ now.seconds) (hle : now ≤ later) {query : Query}
    (hquery : query ≠ .totalLocked) :
    answer t ledger later query = answer s ledger later query := by
  have haccounts := accountLocks_eq_of_alike fun a => h.alike hle a
  cases query with
  | config =>
    unfold answer getConfig
    rw [h.rest]
  | totalLocked => exact absurd rfl hquery
  | activeLocks after limit before =>
    simp only [answer, listActive, (h.dated hs).readable.page, hs.readable.page,
      h.listed_eq hs hgone hle]
  | locks address => simp only [answer, haccounts]
  | locksForAddresses addresses => simp only [answer, haccounts]

end Store

theorem exists_cleansUp [AddressRule] (block : Block) {hook : Hook}
    (hhook : ∀ tx, hook ≠ .beforeTx tx) :
    ∃ who gone call, CleansUp block.time who gone call ∧
      (∀ key, gone key → key.time ≤ block.time.seconds) ∧
      (runHook block hook : ChainM σ Response) = ChainM.onStore call := by
  cases hook with
  | beforeTx tx => exact absurd rfl (hhook tx)
  | afterTx tx simulate success =>
    exact ⟨_, _, _, clearPayer_cleansUp block.time tx simulate success, by simp, rfl⟩
  | endBlock => exact ⟨_, _, _, endBlock_cleansUp block, by simp, rfl⟩

/-- In a reachable store the hook after a transaction and the one at the end of a block
succeed. From then on, with any ledger, the check before every transaction has the same
outcome in the stores before and after them, and every question the same answer, except
for that about the total. -/
theorem clean_up_unseen [AddressRule] {last : Timestamp} {c : Chain σ}
    (h : Host.anyTotal.Reaches last c.store) {block : Block} (hnow : last ≤ block.time)
    {hook : Hook} (hhook : ∀ tx, hook ≠ .beforeTx tx) :
    ∃ r c', (runHook block hook).run c = .ok r c' ∧
      ∀ {τ : Type} [HostLedger τ] (ledger : τ) (later : Block), block.time ≤ later.time →
        (∀ tx, outcome ((runHook later (.beforeTx tx)).run ⟨c'.journal, ledger⟩) =
          outcome ((runHook later (.beforeTx tx)).run ⟨c.journal, ledger⟩)) ∧
        ∀ query, query ≠ .totalLocked →
          answer c'.store ledger later.time query = answer c.store ledger later.time query := by
  have hs := h.sound hnow
  obtain ⟨who, gone, call, hcall, hgone, hhook⟩ := exists_cleansUp (σ := σ) block hhook
  obtain ⟨r, k, hrun, hcleaned, -⟩ := hcall c.journal hs
  have hrun' : (runHook block hook).run c = .ok r { c with journal := k } := by
    rw [hhook]
    unfold ChainM.onStore
    simp only [EStateM.run] at hrun ⊢
    rw [hrun]
  refine ⟨r, _, hrun', fun ledger later hlater => ⟨fun tx => ?_, fun query hquery => ?_⟩⟩
  · exact outcome_beforeTx_eq (fun a => hcleaned.alike hlater a) tx
  · exact hcleaned.answer_eq hs.mirrors.dated hgone hlater hquery

open FirstLock in
/-- When the first lock is swept, it is neither listed any more nor was it before. -/
theorem first_lock_sweep_unseen : ∃ r c', (runHook dueBlock .endBlock).run chain = .ok r c' ∧
    answer c'.store chain.ledger dueBlock.time (.locks "alice") = .ok (.locks ⟨alice, []⟩) ∧
    answer c'.store chain.ledger dueBlock.time (.activeLocks none none none) =
      .ok (.activeLocks []) := by
  have hhook : ∀ tx, Hook.endBlock ≠ .beforeTx tx := nofun
  obtain ⟨r, c', hrun, hsame⟩ := clean_up_unseen reached.anyTotal
    (by decide : block.time ≤ dueBlock.time) hhook
  obtain ⟨-, hanswer⟩ := hsame chain.ledger dueBlock (Nat.le_refl _)
  refine ⟨r, c', hrun, ?_, ?_⟩
  · rw [hanswer _ (by decide)]
    decide +kernel
  · rw [hanswer _ (by decide)]
    decide +kernel

end StakeLock
