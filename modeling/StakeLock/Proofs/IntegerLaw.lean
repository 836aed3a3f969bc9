import StakeLock.Proofs.Extension
import StakeLock.Proofs.Nesting

/-!
# The law of the checks

The checks of spending and undelegating subtract amounts, and where more is taken than is
there they stop at zero or refuse. Over the integers they come to one law each: what is
spent, or undelegated, and what is locked together are covered by what the account has.
-/

namespace StakeLock

namespace Backing

variable {b : Backing} {balance amount : Amount}

/-- What stops at zero twice is a difference of integers that stops at zero. -/
theorem toNat_available (h : ¬b.fullyBacked) : ((b.available balance).toNat : Int) =
    max 0 (balance.toNat - (b.locked.toNat - b.delegated.toNat)) := by
  rw [fullyBacked_iff] at h
  unfold available shortfall
  rw [Amount.toNat_sub, Amount.toNat_sub]
  omega

theorem le_available_iff (h : ¬b.fullyBacked) : amount ≤ b.available balance ↔
    amount.toNat = 0 ∨
      amount.toNat + b.locked.toNat ≤ balance.toNat + b.delegated.toNat := by
  rw [fullyBacked_iff] at h
  unfold available shortfall
  rw [Amount.le_def, Amount.toNat_sub, Amount.toNat_sub]
  omega

theorem allowsUndelegation_iff :
    b.allowsUndelegation amount ↔ amount.toNat + b.locked.toNat ≤ b.delegated.toNat := by
  unfold allowsUndelegation
  cases hsub : b.delegated.sub? amount with
  | none =>
    rw [Amount.sub?_eq_none_iff] at hsub
    simp only [Bool.false_eq_true, false_iff]
    omega
  | some rest =>
    rw [Amount.sub?_eq_some_iff] at hsub
    simp only [decide_eq_true_eq, Amount.le_def]
    omega

end Backing

/-- A coin of the bond denomination is nothing, or it and all that is locked are together no
more than balance and delegations. A coin of another denomination may always be spent. -/
def Coin.Spendable (coin : Coin) (bondDenom : String) (locked delegated balance : Amount) : Prop :=
  coin.denom = bondDenom → coin.amount.toNat = 0 ∨
    coin.amount.toNat + locked.toNat ≤ balance.toNat + delegated.toNat

section

variable {σ : Type} {ctx : BackingContext σ} {account : LockupAccount}
variable {text : String} {a : Address} {b : Backing} {balance : Amount}

theorem BackingContext.lockup?_of_validate [AddressRule] (h : AddressRule.validate text = .ok a) :
    ctx.lockup? text = .ok (ctx.store.lockup? a) := by
  unfold lockup? Address.ofText
  rw [h]
  rfl

variable [HostLedger σ]

namespace BackingContext

theorem checkCoin_eq (hbalance : HostLedger.balance ctx.ledger a ctx.bondDenom = .ok balance)
    (coin : Coin) : ctx.checkCoin a b coin =
      if coin.denom = ctx.bondDenom ∧ b.available balance < coin.amount then
        .error (.refused (.insufficientUnlockedBalance (b.available balance) coin.amount))
      else .ok () := by
  unfold checkCoin
  by_cases hdenom : coin.denom = ctx.bondDenom
  · rw [if_pos hdenom, hdenom, hbalance]
    by_cases hless : b.available balance < coin.amount
    · rw [if_pos ⟨rfl, hless⟩]
      simp only [Check.ofSystem, bind, Except.bind, if_pos hless]
      rfl
    · rw [if_neg fun h => hless h.2]
      simp only [Check.ofSystem, bind, Except.bind, if_neg hless]
      rfl
  · rw [if_neg hdenom, if_neg fun h => hdenom h.1]
    rfl

theorem checkCoin_eq_ok_iff (hb : ¬b.fullyBacked)
    (hbalance : HostLedger.balance ctx.ledger a ctx.bondDenom = .ok balance) {coin : Coin} :
    ctx.checkCoin a b coin = .ok () ↔
      coin.Spendable ctx.bondDenom b.locked b.delegated balance := by
  unfold Coin.Spendable
  rw [checkCoin_eq hbalance, ← Backing.le_available_iff hb, Amount.le_def, ← Nat.not_lt,
    ← Amount.lt_def, ← not_and]
  by_cases h : coin.denom = ctx.bondDenom ∧ b.available balance < coin.amount
  · rw [if_pos h]
    exact iff_of_false nofun fun hnot => hnot h
  · rw [if_neg h]
    exact iff_of_true rfl h

section

variable [AddressRule] (hvalid : AddressRule.validate text = .ok a)

include hvalid

theorem checkSpend_of_lockup?_eq_none (haccount : ctx.store.lockup? a = none)
    (coins : List Coin) : ctx.checkSpend text coins = .ok () := by
  unfold checkSpend
  rw [lockup?_of_validate hvalid, haccount]
  rfl

theorem checkUndelegate_of_lockup?_eq_none (haccount : ctx.store.lockup? a = none)
    (amount : Amount) : ctx.checkUndelegate text amount = .ok () := by
  unfold checkUndelegate
  rw [lockup?_of_validate hvalid, haccount]
  rfl

variable (haccount : ctx.store.lockup? a = some account)

include haccount

theorem checkSpend_filter (coins : List Coin) : ctx.checkSpend text coins =
    ctx.checkSpend text (coins.filter fun coin => coin.denom = ctx.bondDenom) := by
  unfold checkSpend
  rw [lockup?_of_validate hvalid, haccount]
  refine congrArg (account.backing ctx.ledger ctx.now >>= ·) (funext fun b => ?_)
  split
  · rfl
  · induction coins with
    | nil => rfl
    | cons coin coins ih =>
      change (ctx.checkCoin account.address b coin >>= fun _ => coins.forM _) = _
      by_cases hdenom : coin.denom = ctx.bondDenom
      · rw [List.filter_cons_of_pos (by simpa using hdenom)]
        change _ = (ctx.checkCoin account.address b coin >>= fun _ => List.forM _ _)
        rw [ih]
      · rw [List.filter_cons_of_neg (by simpa using hdenom), ← ih]
        unfold checkCoin
        rw [if_neg hdenom]
        rfl

variable (hbacking : account.backing ctx.ledger ctx.now = .ok b)

include hbacking

theorem checkSpend_of_backing (coins : List Coin) : ctx.checkSpend text coins =
    if b.fullyBacked then .ok () else coins.forM (ctx.checkCoin account.address b) := by
  unfold checkSpend
  rw [lockup?_of_validate hvalid, haccount]
  change (account.backing ctx.ledger ctx.now >>= _) = _
  rw [hbacking]
  rfl

theorem checkUndelegate_eq_ok_iff {amount : Amount} : ctx.checkUndelegate text amount = .ok () ↔
    amount.toNat + b.locked.toNat ≤ b.delegated.toNat := by
  unfold checkUndelegate
  rw [lockup?_of_validate hvalid, haccount, ← Backing.allowsUndelegation_iff]
  change (account.backing ctx.ledger ctx.now >>= _) = _ ↔ _
  rw [hbacking]
  change (if b.allowsUndelegation amount then _ else _) = _ ↔ _
  cases b.allowsUndelegation amount with
  | false => exact iff_of_false nofun nofun
  | true => exact iff_of_true rfl rfl

variable (hbalance : HostLedger.balance ctx.ledger account.address ctx.bondDenom = .ok balance)

include hbalance

theorem checkSpend_eq_ok_iff {coins : List Coin} : ctx.checkSpend text coins = .ok () ↔
    b.locked.toNat ≤ b.delegated.toNat ∨
      ∀ coin ∈ coins, coin.Spendable ctx.bondDenom b.locked b.delegated balance := by
  rw [checkSpend_of_backing hvalid haccount hbacking, ← Backing.fullyBacked_iff]
  by_cases hb : b.fullyBacked
  · rw [if_pos hb]
    exact iff_of_true rfl (.inl hb)
  · rw [if_neg hb, forM_eq_ok_iff, or_iff_right hb]
    exact forall₂_congr fun coin _ => checkCoin_eq_ok_iff hb hbalance

/-- A refused spend names what is available, and the first coin that may not be spent. -/
theorem exists_of_checkSpend_eq_error {coins : List Coin} {fault : Fault LockError}
    (h : ctx.checkSpend text coins = .error fault) : ∃ before coin after available,
      coins = before ++ coin :: after ∧
      (∀ c ∈ before, c.Spendable ctx.bondDenom b.locked b.delegated balance) ∧
      ¬coin.Spendable ctx.bondDenom b.locked b.delegated balance ∧
      fault = .refused (.insufficientUnlockedBalance available coin.amount) ∧
      (available.toNat : Int) =
        max 0 (balance.toNat - (b.locked.toNat - b.delegated.toNat)) := by
  rw [checkSpend_of_backing hvalid haccount hbacking] at h
  split at h
  · cases h
  · rename_i hb
    have hfirst := firstFailure_forM (ctx.checkCoin account.address b) coins
    rw [h] at hfirst
    obtain ⟨before, coin, after, heq, hbefore, hcoin⟩ := hfirst
    refine ⟨before, coin, after, b.available balance, heq, fun c hc => ?_, fun hnot => ?_, ?_,
      Backing.toNat_available hb⟩
    · exact (checkCoin_eq_ok_iff hb hbalance).1 (hbefore c hc)
    · rw [(checkCoin_eq_ok_iff hb hbalance).2 hnot] at hcoin
      cases hcoin
    · rw [checkCoin_eq hbalance] at hcoin
      split at hcoin
      · exact (Except.error.inj hcoin).symm
      · cases hcoin

end

end BackingContext

/-- For every context of a check whose accounts are stored under their own addresses, and every
valid address. If the account of the address has locks, and the locked amount, the delegations
and the balance can be told: coins may be spent exactly if the delegations cover what is locked,
or each coin of the bond denomination is nothing or leaves balance and delegations enough to
cover it; a refusal names what is available and the first coin that is too much; an amount may
be undelegated exactly if the delegations cover it and what is locked; and no other denomination
makes a difference. Without such an account everything is accepted. -/
theorem checks_follow_integer_law [AddressRule] (hkeyed : ctx.store.Keyed)
    (hvalid : AddressRule.validate text = .ok a) :
    (∀ account locked delegated balance, ctx.store.account? a = some (.lockup account) →
      account.schedule.lockedAmount? ctx.now = some locked →
      totalDelegated ctx.ledger a = .ok delegated →
      HostLedger.balance ctx.ledger a ctx.bondDenom = .ok balance →
      (∀ coins, ctx.checkSpend text coins = .ok () ↔ locked.toNat ≤ delegated.toNat ∨
        ∀ coin ∈ coins, coin.Spendable ctx.bondDenom locked delegated balance) ∧
      (∀ coins fault, ctx.checkSpend text coins = .error fault → ∃ before coin after available,
        coins = before ++ coin :: after ∧
        (∀ c ∈ before, c.Spendable ctx.bondDenom locked delegated balance) ∧
        ¬coin.Spendable ctx.bondDenom locked delegated balance ∧
        fault = .refused (.insufficientUnlockedBalance available coin.amount) ∧
        (available.toNat : Int) = max 0 (balance.toNat - (locked.toNat - delegated.toNat))) ∧
      ∀ amount, ctx.checkUndelegate text amount = .ok () ↔
        amount.toNat + locked.toNat ≤ delegated.toNat) ∧
    (∀ account, ctx.store.account? a = some (.lockup account) →
      (∀ coins, ctx.checkSpend text coins =
        ctx.checkSpend text (coins.filter fun coin => coin.denom = ctx.bondDenom)) ∧
      ∀ validator coin, coin.denom ≠ ctx.bondDenom →
        ctx.checkMsg (.undelegate text validator coin) = .ok ()) ∧
    ((ctx.store.account? a = none ∨ ∃ base, ctx.store.account? a = some (.base base)) →
      (∀ coins, ctx.checkSpend text coins = .ok ()) ∧
      ∀ amount, ctx.checkUndelegate text amount = .ok ()) := by
  refine ⟨fun account locked delegated balance hstored hlocked hdelegated hbalance => ?_,
    fun account hstored => ?_, fun hnone => ?_⟩
  · have haccount := Store.lockup?_eq_some_iff.2 hstored
    have haddress : account.address = a := hkeyed.lockup_address haccount
    subst haddress
    have hbacking : account.backing ctx.ledger ctx.now = .ok ⟨locked, delegated⟩ :=
      LockupAccount.backing_eq_ok_iff.2 ⟨hlocked, hdelegated⟩
    refine ⟨fun coins => ?_, fun coins fault hrefused => ?_, fun amount => ?_⟩
    · exact BackingContext.checkSpend_eq_ok_iff hvalid haccount hbacking hbalance
    · exact BackingContext.exists_of_checkSpend_eq_error hvalid haccount hbacking hbalance hrefused
    · exact BackingContext.checkUndelegate_eq_ok_iff hvalid haccount hbacking
  · have haccount := Store.lockup?_eq_some_iff.2 hstored
    refine ⟨BackingContext.checkSpend_filter hvalid haccount, fun validator coin hdenom => ?_⟩
    change (if coin.denom = ctx.bondDenom then [Demand.undelegate text coin] else []).forM
      ctx.checkDemand = .ok ()
    rw [if_neg hdenom]
    rfl
  · have hplain : ctx.store.lockup? a = none := by
      unfold Store.lockup?
      rcases hnone with hnone | ⟨base, hbase⟩
      · rw [hnone]
        rfl
      · rw [hbase]
        rfl
    exact ⟨BackingContext.checkSpend_of_lockup?_eq_none hvalid hplain,
      BackingContext.checkUndelegate_of_lockup?_eq_none hvalid hplain⟩

end

namespace FirstLock

/-- What the checks of the first block see of a chain. -/
def seen (c : Chain StrictLedger) : BackingContext StrictLedger :=
  ⟨c.store, c.ledger, block.time, "stake"⟩

theorem seen_keyed {c : Chain StrictLedger} (h : c.store.Keyed) : (seen c).store.Keyed := h

/-- Bond coins of these amounts, with a coin of another denomination between them. -/
def coins (first second : Amount) : List Coin :=
  [⟨"stake", first⟩, ⟨"atom", ⟨1000, by decide⟩⟩, ⟨"stake", second⟩]

end FirstLock

open FirstLock in
/-- Of her 40 tokens alice keeps 20, as 50 are locked and 30 are delegated. She may spend 15 and
20 in one transfer, as each coin is looked at alone. She may not spend 21, and may not undelegate
1. Bob has no account, and may undelegate any amount. -/
theorem slashed_checks_follow_law :
    (seen slashed).checkSpend "alice" (coins ⟨15, by decide⟩ ⟨20, by decide⟩) = .ok () ∧
    (seen slashed).checkSpend "alice" (coins ⟨20, by decide⟩ ⟨21, by decide⟩) ≠ .ok () ∧
    (seen slashed).checkUndelegate "alice" ⟨1, by decide⟩ ≠ .ok () ∧
    ∀ amount, (seen slashed).checkUndelegate "bob" amount = .ok () := by
  have hkeyed : (seen slashed).store.Keyed := seen_keyed reached_slashed.keyed
  have halice : AddressRule.validate "alice" = .ok alice := by decide +kernel
  have hbob : AddressRule.validate "bob" = .ok ⟨"bob"⟩ := by decide +kernel
  have hstored : (seen slashed).store.account? alice = some (.lockup holder) := by decide +kernel
  have hlocked : holder.schedule.lockedAmount? (seen slashed).now = some stake.amount := by
    decide +kernel
  have hdelegated : totalDelegated (seen slashed).ledger alice = .ok delegated := by
    decide +kernel
  have hbalance : HostLedger.balance (seen slashed).ledger alice (seen slashed).bondDenom =
      .ok ⟨40, by decide⟩ := by decide +kernel
  obtain ⟨hspend, -, hundelegate⟩ := (checks_follow_integer_law hkeyed halice).1 holder _ _ _
    hstored hlocked hdelegated hbalance
  refine ⟨(hspend _).2 (.inr ?_), fun h => ?_, fun h => ?_, ?_⟩
  · intro coin hcoin hdenom
    simp only [coins, List.mem_cons, List.not_mem_nil, or_false] at hcoin
    obtain rfl | rfl | rfl := hcoin
    · exact .inr (by decide)
    · exact absurd hdenom (by decide)
    · exact .inr (by decide)
  · obtain hle | hcoins := (hspend _).1 h
    · revert hle
      decide
    · have hlast := hcoins ⟨"stake", ⟨21, by decide⟩⟩ (by simp [coins]) rfl
      revert hlast
      decide
  · have hle := (hundelegate _).1 h
    revert hle
    decide
  · exact ((checks_follow_integer_law hkeyed hbob).2.2 (.inl (by decide +kernel))).2

end StakeLock
