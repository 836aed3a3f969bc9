import StakeLock.Proofs.Extension
import StakeLock.Proofs.LockedTotal
import StakeLock.Proofs.Nesting

/-!
# What is locked has a bound

The sum over the locks of an account is formed without a check, and a call that cannot form
it is aborted. In a reachable store the aggregate covers that sum, so it is always an amount.
A call about the account is then aborted only if the tokens behind its delegations overflow.
-/

namespace StakeLock

/-! ## Aborted checks -/

section

variable {α β : Type} {p : Prop}

/-- A check that is aborted under a condition, if at all. -/
def AbortsOnlyIf (p : Prop) (x : Check α) : Prop := x = .error .aborted → p

theorem abortsOnlyIf_ok (a : α) : AbortsOnlyIf p (.ok a) := nofun

theorem abortsOnlyIf_refuse (reason : LockError) :
    AbortsOnlyIf p (Check.refuse reason : Check α) := nofun

theorem abortsOnlyIf_ofSystem (result : Except SystemError α) :
    AbortsOnlyIf p (Check.ofSystem result) := by
  cases result with
  | ok a => exact abortsOnlyIf_ok a
  | error cause => exact abortsOnlyIf_refuse _

theorem abortsOnlyIf_ofResult (result : Except LockError α) :
    AbortsOnlyIf p (Check.ofResult result) := by
  cases result with
  | ok a => exact abortsOnlyIf_ok a
  | error reason => exact abortsOnlyIf_refuse _

theorem abortsOnlyIf_bind {x : Check α} {f : α → Check β} (hx : AbortsOnlyIf p x)
    (hf : ∀ a, x = .ok a → AbortsOnlyIf p (f a)) : AbortsOnlyIf p (x >>= f) := by
  cases x with
  | error fault =>
    intro h
    cases h
    exact hx rfl
  | ok a => exact hf a rfl

theorem abortsOnlyIf_forM {f : α → Check Unit} {as : List α} (hf : ∀ a ∈ as, AbortsOnlyIf p (f a)) :
    AbortsOnlyIf p (as.forM f) := by
  induction as with
  | nil => exact abortsOnlyIf_ok ()
  | cons a as ih =>
    obtain ⟨hfirst, hrest⟩ := List.forall_mem_cons.1 hf
    exact abortsOnlyIf_bind hfirst fun _ _ => ih hrest

end

/-! ## The bound -/

section

variable {now : Timestamp} {s : Store} {address : Address} {account : LockupAccount}

/-- The active locks of an account are queued, and the aggregate covers the queue. -/
theorem Store.Sound.lockedSum_le_total (hs : s.Sound now)
    (haccount : s.lockup? address = some account) :
    account.schedule.lockedSum now ≤ s.total.toNat := by
  obtain ⟨surplus, hbalanced⟩ := hs.balanced
  have haddress := hs.mirrors.keyed.lockup_address haccount
  subst haddress
  have hmem := (mem_lockupAccounts hs.mirrors.keyed).2 haccount
  have hle : account.schedule.lockedSum now ≤
      (s.lockupAccounts.map fun x => x.schedule.lockedSum now).sum :=
    List.single_le_sum (fun _ _ => Nat.zero_le _) _ (List.mem_map_of_mem hmem)
  have hsum := hs.mirrors.sum_lockedSum
  have htotal := hbalanced.sum
  omega

theorem Store.Sound.exists_lockedAmount (hs : s.Sound now)
    (haccount : s.lockup? address = some account) :
    ∃ amount, account.schedule.lockedAmount? now = some amount ∧
      amount.toNat = account.schedule.lockedSum now := by
  have hlt := Nat.lt_of_le_of_lt (hs.lockedSum_le_total haccount) s.total.toNat_lt
  refine ⟨⟨account.schedule.lockedSum now, hlt⟩, ?_, rfl⟩
  rw [Schedule.lockedAmount?_eq, Amount.ofNat?_eq_some_iff]

end

/-! ## The check of a transaction -/

def Demand.account : Demand → String
  | .spend spender _ => spender
  | .undelegate delegator _ => delegator

section

variable {σ : Type}

/-- The ledger aborts when it is asked what the account of an address has delegated. -/
def Store.UntoldFor [HostLedger σ] (s : Store) (ledger : σ) (address : Address) : Prop :=
  ∃ account, s.lockup? address = some account ∧
    totalDelegated ledger address = .error .aborted

variable {ctx : BackingContext σ} {address : Address} {account : LockupAccount}

theorem BackingContext.abortsOnlyIf_lockup? [AddressRule] {p : Prop} (text : String) :
    AbortsOnlyIf p (ctx.lockup? text) :=
  abortsOnlyIf_bind (abortsOnlyIf_ofResult _) fun _ _ => abortsOnlyIf_ok _

variable [HostLedger σ]

theorem Store.Sound.abortsOnlyIf_backing (hs : ctx.store.Sound ctx.now)
    (haccount : ctx.store.lockup? address = some account) :
    AbortsOnlyIf (ctx.store.UntoldFor ctx.ledger address)
      (account.backing ctx.ledger ctx.now) := by
  obtain ⟨amount, hamount, -⟩ := hs.exists_lockedAmount haccount
  have haddress := hs.mirrors.keyed.lockup_address haccount
  unfold LockupAccount.backing
  rw [hamount, haddress]
  refine abortsOnlyIf_bind (abortsOnlyIf_ok amount) fun locked _ => ?_
  refine abortsOnlyIf_bind (fun h => ⟨account, haccount, h⟩) fun delegated _ => ?_
  exact abortsOnlyIf_ok _

namespace BackingContext

theorem abortsOnlyIf_checkCoin {p : Prop} (backing : Backing) (coin : Coin) :
    AbortsOnlyIf p (ctx.checkCoin address backing coin) := by
  unfold checkCoin
  split
  · refine abortsOnlyIf_bind (abortsOnlyIf_ofSystem _) fun balance _ => ?_
    simp only
    split
    · exact abortsOnlyIf_refuse _
    · exact abortsOnlyIf_ok ()
  · exact abortsOnlyIf_ok ()

variable [AddressRule] (hs : ctx.store.Sound ctx.now)

include hs

theorem abortsOnlyIf_checkSpend (spender : String) (coins : List Coin) :
    AbortsOnlyIf (ctx.store.UntoldFor ctx.ledger ⟨spender⟩) (ctx.checkSpend spender coins) := by
  unfold checkSpend
  refine abortsOnlyIf_bind (abortsOnlyIf_lockup? _) fun found hfound => ?_
  cases found with
  | none => exact abortsOnlyIf_ok ()
  | some account =>
    have haccount := (eq_of_lockup?_eq_ok hfound).symm
    refine abortsOnlyIf_bind (hs.abortsOnlyIf_backing haccount) fun backing _ => ?_
    split
    · exact abortsOnlyIf_ok ()
    · exact abortsOnlyIf_forM fun coin _ => abortsOnlyIf_checkCoin backing coin

theorem abortsOnlyIf_checkUndelegate (delegator : String) (amount : Amount) :
    AbortsOnlyIf (ctx.store.UntoldFor ctx.ledger ⟨delegator⟩)
      (ctx.checkUndelegate delegator amount) := by
  unfold checkUndelegate
  refine abortsOnlyIf_bind (abortsOnlyIf_lockup? _) fun found hfound => ?_
  cases found with
  | none => exact abortsOnlyIf_ok ()
  | some account =>
    have haccount := (eq_of_lockup?_eq_ok hfound).symm
    refine abortsOnlyIf_bind (hs.abortsOnlyIf_backing haccount) fun backing _ => ?_
    split
    · exact abortsOnlyIf_ok ()
    · exact abortsOnlyIf_refuse _

theorem abortsOnlyIf_checkDemand (demand : Demand) :
    AbortsOnlyIf (ctx.store.UntoldFor ctx.ledger ⟨demand.account⟩) (ctx.checkDemand demand) := by
  cases demand with
  | spend spender coins => exact abortsOnlyIf_checkSpend hs spender coins
  | undelegate delegator amount => exact abortsOnlyIf_checkUndelegate hs delegator amount.amount

theorem abortsOnlyIf_checkMsgs (msgs : List TxMsg) :
    AbortsOnlyIf (∃ demand ∈ (TxMsg.flattenAll msgs).flatMap (TxMsg.demands ctx.bondDenom),
      ctx.store.UntoldFor ctx.ledger ⟨demand.account⟩) (ctx.checkMsgs msgs) := by
  rw [checkMsgs_eq_forM]
  refine abortsOnlyIf_forM fun demand hdemand haborted => ?_
  exact ⟨demand, hdemand, abortsOnlyIf_checkDemand hs demand haborted⟩

end BackingContext

end

/-! ## Locking -/

section

variable {σ : Type} [HostLedger σ] {c : Chain σ} {now : Timestamp} {address : Address}
variable {account : LockupAccount}

theorem Store.Sound.ends_lockDelegated_aborted (hs : c.store.Sound now)
    (haccount : c.store.lockup? address = some account) {locks : List (Date × Amount)}
    (hlocks : ∀ l ∈ locks, blockDate now ≤ l.1) : Ends (fun _ _ => True)
      (fun fault _ => fault = .aborted → c.store.UntoldFor c.ledger address)
      ((lockDelegated now address locks).run c) := by
  have hstored := account?_eq_of_lockup? haccount
  obtain ⟨amount, hamount, -⟩ := hs.exists_lockedAmount haccount
  unfold lockDelegated
  rw [ends_bind, ChainM.ends_onStore]
  refine ends_loadOrUpgrade.mono ?_ ?_
  rotate_left
  · rintro _ _ ⟨-, hnone, -⟩
    have hopenable : c.store.Openable address := .inl (by simp [hstored])
    exact absurd hopenable hnone
  intro opened j hopens
  generalize j.store = t at hopens
  cases hopens with
  | registered hnone _ =>
    cases hstored.symm.trans hnone
  | upgraded hsome =>
    cases hstored.symm.trans hsome
    rw [ends_bind, ends_orAbort]
    refine ⟨fun before _ => ?_, fun hnone => ?_⟩
    rotate_left
    · cases hamount.symm.trans hnone
    rw [ends_bind, ends_acceptSystem]
    refine ⟨fun locked _ => ?_, fun _ _ => nofun⟩
    rw [ends_bind, ChainM.ends_getLedger, ends_bind, ChainM.ends_ofCheck]
    refine ⟨fun delegated _ => ?_, fun fault hfault haborted => ?_⟩
    rotate_left
    · rw [haborted] at hfault
      exact ⟨account, haccount, hfault⟩
    rw [ends_ite]
    refine ⟨fun _ => ?_, fun _ => ?_⟩
    · rw [ends_bind, ends_refuse]
      nofun
    · have hdates : ∀ l ∈ locks, ∃ time, unlockTime? l.1 = some time :=
        fun l hl => exists_unlockTime_of_blockDate_le (hlocks l hl)
      rw [ends_bind, ChainM.ends_onStore]
      apply (ends_addLocks hdates).mono (fun _ _ _ => trivial)
      intro fault _ hfails haborted
      exact absurd haborted hfails.system.ne_aborted

theorem Store.Sound.ends_executeLock_aborted (hs : c.store.Sound now)
    (haccount : c.store.lockup? address = some account) {entries : List LockEntry} :
    Ends (fun _ _ => True)
      (fun fault _ => fault = .aborted → c.store.UntoldFor c.ledger address)
      ((executeLock now address entries).run c) := by
  rw [ends_executeLock_iff, ends_bind, ends_accept]
  refine ⟨fun plan hplan => ?_, fun _ _ => nofun⟩
  rw [ends_bind]
  have hlocks := fun l hl => (of_planLock hplan l hl).1
  exact (hs.ends_lockDelegated_aborted haccount hlocks).mono_ok fun _ _ _ => trivial

end

section

variable {σ : Type} [HostLedger σ] [AddressRule] {c : Chain σ} {last : Timestamp} {block : Block}

/-- In every store that a host with an orderly clock can reach, and at every time from the last
block on, the exact sum of the active locks of an account is below the bound of amounts, and
the locked amount is that sum. So forming it aborts neither the check of a transaction nor a
request for locks: where one of them is aborted, then because the ledger aborts when it is
asked what that account, or one that the transaction makes demands of, has delegated. -/
theorem locked_sum_never_overflows (h : Host.anyTotal.Reaches last c.store)
    (hnow : last ≤ block.time) :
    (∀ address account, c.store.lockup? address = some account →
      account.schedule.lockedSum block.time ≤ 2 ^ 128 - 1 ∧
      (∃ amount, account.schedule.lockedAmount? block.time = some amount ∧
        amount.toNat = account.schedule.lockedSum block.time) ∧
      ∀ entries c', (execute block.time address (.lock entries)).run c = .error .aborted c' →
        totalDelegated c.ledger address = .error .aborted) ∧
    ∀ tx c', (checkTx block tx).run c = .error .aborted c' → ∃ bondDenom,
      HostLedger.bondDenom c.ledger = .ok bondDenom ∧
      ∃ demand ∈ (TxMsg.flattenAll tx.msgs).flatMap (TxMsg.demands bondDenom), ∃ account,
        c.store.lockup? ⟨demand.account⟩ = some account ∧
        totalDelegated c.ledger ⟨demand.account⟩ = .error .aborted := by
  have hs : c.store.Sound block.time := h.sound hnow
  constructor
  · intro address account haccount
    refine ⟨?_, hs.exists_lockedAmount haccount, fun entries c' hrun => ?_⟩
    · have hle := hs.lockedSum_le_total haccount
      have hlt := c.store.total.toNat_lt
      omega
    · obtain ⟨_, -, huntold⟩ := (hs.ends_executeLock_aborted haccount).of_error hrun rfl
      exact huntold
  · intro tx c' hrun
    have haborted := outcome_checkTx c block tx
    rw [hrun] at haborted
    rcases except_bind_eq_error_iff.1 haborted.symm with hdenom | ⟨bondDenom, hdenom, hmsgs⟩
    · exact (abortsOnlyIf_ofSystem (p := False) _ hdenom).elim
    · rw [Check.ofSystem_eq_ok_iff] at hdenom
      exact ⟨bondDenom, hdenom, BackingContext.abortsOnlyIf_checkMsgs hs tx.msgs hmsgs⟩

end

open FirstLock in
/-- What alice has locked is told, and neither another lock nor the check of a payment of
hers is aborted. -/
theorem first_lock_never_overflows :
    (∃ account ∈ chain.store.lockup? alice, ∃ amount,
      account.schedule.lockedAmount? block.time = some amount ∧
        amount.toNat = account.schedule.lockedSum block.time) ∧
    (∀ entries c', (execute block.time alice (.lock entries)).run chain ≠ .error .aborted c') ∧
    ∀ c', (checkTx block ⟨[.send "alice" "bob" [stake]], none⟩).run chain ≠ .error .aborted c' := by
  have hnow : block.time ≤ block.time := Nat.le_refl _
  obtain ⟨haccounts, htxs⟩ := locked_sum_never_overflows reached.anyTotal hnow
  have htold : totalDelegated chain.ledger alice ≠ .error .aborted := by decide +kernel
  have hstored : chain.store.lockup? alice = some holder := by decide +kernel
  obtain ⟨-, hamount, hlock⟩ := haccounts alice holder hstored
  refine ⟨⟨holder, hstored, hamount⟩, fun entries c' hrun => htold (hlock entries c' hrun), ?_⟩
  intro c' hrun
  obtain ⟨bondDenom, -, demand, hdemand, -, -, huntold⟩ := htxs _ c' hrun
  simp [TxMsg.flattenAll, TxMsg.flatten, TxMsg.demands] at hdemand
  subst hdemand
  exact htold huntold

end StakeLock
