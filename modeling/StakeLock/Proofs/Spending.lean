import StakeLock.Proofs.Nesting

/-!
# Spending by one message

A message may spend several coins of the bond denomination from one account, as coins of one
list or as inputs that repeat an address. Each of them has to fit into the balance beside the
shortfall. What they add up to does not.
-/

namespace StakeLock

namespace TxMsg

/-- Whom a message that moves coins takes them from. -/
def payers : TxMsg → List Party
  | send source _ coins => [⟨source, coins⟩]
  | multiSend inputs _ => inputs
  | deposit _ depositor coins => [⟨depositor, coins⟩]
  | fundPool depositor coins => [⟨depositor, coins⟩]
  | transfer _ _ sender _ token => [⟨sender, [token]⟩]
  | _ => []

/-- The amounts of a denomination that a message spends from an account, one by one. -/
def spentFrom (msg : TxMsg) (denom : String) (a : Address) : List Nat :=
  (msg.payers.filter fun p => p.address = a.text).flatMap fun p =>
    (p.coins.filter fun coin => coin.denom = denom).map fun coin => coin.amount.toNat

variable {msg : TxMsg} {denom : String} {a : Address}

theorem mem_spentFrom {n : Nat} : n ∈ msg.spentFrom denom a ↔ ∃ p ∈ msg.payers,
    p.address = a.text ∧ ∃ coin ∈ p.coins, coin.denom = denom ∧ coin.amount.toNat = n := by
  simp [spentFrom, and_assoc]

theorem spend_mem_demands {p : Party} (h : p ∈ msg.payers) :
    .spend p.address p.coins ∈ msg.demands denom := by
  cases msg with
  | multiSend inputs _ => exact List.mem_map_of_mem h
  | send | deposit | fundPool | transfer =>
    rw [payers, List.mem_singleton] at h
    rw [h]
    exact List.mem_singleton_self _
  | _ => cases h

theorem flatten_of_mem_payers {p : Party} (h : p ∈ msg.payers) : msg.flatten = [msg] :=
  flatten_of_not_exec fun grantee msgs hmsg => by
    rw [hmsg] at h
    cases h

end TxMsg

theorem sum_le_countP_mul {ns : List Nat} {bound : Nat} (h : ∀ n ∈ ns, n ≤ bound) :
    ns.sum ≤ ns.countP (0 < ·) * bound := by
  induction ns with
  | nil => simp
  | cons n ns ih =>
    obtain ⟨hn, hns⟩ := List.forall_mem_cons.1 h
    have hrest := ih hns
    rw [List.sum_cons, List.countP_cons]
    rcases Nat.eq_zero_or_pos n with rfl | hpos
    · simpa using hrest
    · rw [if_pos (by simpa using hpos), Nat.add_mul, Nat.one_mul]
      omega

section

variable {σ : Type} [HostLedger σ] [AddressRule] {c c' : Chain σ} {block : Block}
variable {bondDenom : String}

/-- A message of an accepted transaction, at any depth, has its demands met. -/
theorem checkDemand_of_checkTx {tx : Tx} {msg : TxMsg} {demand : Demand}
    (h : (checkTx block tx).run c = .ok () c')
    (hdenom : HostLedger.bondDenom c.ledger = .ok bondDenom)
    (hmsg : msg ∈ TxMsg.flattenAll tx.msgs) (hdemand : demand ∈ msg.demands bondDenom) :
    BackingContext.checkDemand ⟨c.store, c.ledger, block.time, bondDenom⟩ demand = .ok () := by
  obtain ⟨-, denom, hbond, hmsgs⟩ := ends_checkTx.of_ok h
  rw [hdenom] at hbond
  cases hbond
  rw [BackingContext.checkMsgs_eq_forM, forM_eq_ok_iff] at hmsgs
  exact hmsgs demand (List.mem_flatMap.2 ⟨msg, hmsg, hdemand⟩)

/-- What an accepted message takes from an account that is not fully backed: each amount in
the bond denomination fits into the balance beside the shortfall. So all of them add up to
no more than that for each amount that is not zero. -/
theorem accepted_amounts_fit_one_by_one {msg : TxMsg} {payer : Option String} {a : Address}
    {account : LockupAccount} {delegated : Amount}
    (hcheck : (checkTx block ⟨[msg], payer⟩).run c = .ok () c')
    (hdenom : HostLedger.bondDenom c.ledger = .ok bondDenom)
    (haccount : c.store.lockup? a = some account)
    (hdelegated : totalDelegated c.ledger account.address = .ok delegated)
    (hshort : delegated.toNat < account.schedule.lockedSum block.time) :
    msg.spentFrom bondDenom a = [] ∨ ∃ balance,
      HostLedger.balance c.ledger account.address bondDenom = .ok balance ∧
      (∀ n ∈ msg.spentFrom bondDenom a,
        n ≤ balance.toNat - (account.schedule.lockedSum block.time - delegated.toNat)) ∧
      (msg.spentFrom bondDenom a).sum ≤ (msg.spentFrom bondDenom a).countP (0 < ·) *
        (balance.toNat - (account.schedule.lockedSum block.time - delegated.toNat)) := by
  have hfits : ∀ n ∈ msg.spentFrom bondDenom a, ∃ balance,
      HostLedger.balance c.ledger account.address bondDenom = .ok balance ∧
      n ≤ balance.toNat - (account.schedule.lockedSum block.time - delegated.toNat) := by
    intro n hn
    obtain ⟨p, hp, haddress, coin, hcoin, hbond, rfl⟩ := TxMsg.mem_spentFrom.1 hn
    have hmsg : msg ∈ TxMsg.flattenAll [msg] := by
      rw [TxMsg.flattenAll, TxMsg.flatten_of_mem_payers hp]
      exact List.mem_append_left _ (List.mem_singleton_self _)
    have hspend := checkDemand_of_checkTx hcheck hdenom hmsg (TxMsg.spend_mem_demands hp)
    rw [haddress] at hspend
    obtain ⟨delegated', hdelegated', hbacked | hfits⟩ := fits_of_checkSpend haccount hspend
    · rw [hdelegated] at hdelegated'
      cases hdelegated'
      exact absurd hbacked (Nat.not_le.2 hshort)
    · rw [hdelegated] at hdelegated'
      cases hdelegated'
      exact hfits coin hcoin hbond
  cases hspent : msg.spentFrom bondDenom a with
  | nil => exact .inl rfl
  | cons first rest =>
    right
    rw [hspent] at hfits
    obtain ⟨balance, hbalance, -⟩ := hfits first (List.mem_cons_self ..)
    have hall : ∀ n ∈ first :: rest,
        n ≤ balance.toNat - (account.schedule.lockedSum block.time - delegated.toNat) := by
      intro n hn
      obtain ⟨balance', hbalance', hle⟩ := hfits n hn
      rw [hbalance] at hbalance'
      cases hbalance'
      exact hle
    exact ⟨balance, hbalance, hall, sum_le_countP_mul hall⟩

end

namespace FirstLock

def twoCoins : TxMsg := .send "alice" "bob" [⟨"stake", given⟩, ⟨"stake", given⟩]

def funds : Amount := slashed.ledger.books.balance alice "stake"

theorem short_of_slashed : ∃ account ∈ slashed.store.lockup? alice,
    totalDelegated slashed.ledger account.address = .ok delegated ∧
    HostLedger.balance slashed.ledger account.address "stake" = .ok funds ∧
    account.schedule.lockedSum block.time = 50 := by decide +kernel

end FirstLock

open FirstLock in
theorem each_of_two_coins_fits : ∃ c', (checkTx block ⟨[twoCoins], none⟩).run slashed = .ok () c' ∧
    twoCoins.spentFrom "stake" alice = [15, 15] ∧
    ∀ n ∈ twoCoins.spentFrom "stake" alice, n ≤ 20 := by
  obtain ⟨account, haccount, hdelegated, hbalance, hlocked⟩ := short_of_slashed
  have hrun : succeeds ((checkTx block ⟨[twoCoins], none⟩).run slashed) := by decide +kernel
  have hspent : twoCoins.spentFrom "stake" alice = [15, 15] := by decide +kernel
  have hdenom : HostLedger.bondDenom slashed.ledger = .ok "stake" := by decide +kernel
  obtain ⟨_, hcheck⟩ := exists_ok_of_succeeds hrun
  have hshort : delegated.toNat < account.schedule.lockedSum block.time := by
    rw [hlocked]
    decide
  refine ⟨_, hcheck, hspent, fun n hn => ?_⟩
  rcases accepted_amounts_fit_one_by_one hcheck hdenom haccount hdelegated hshort with
    hnone | ⟨balance, hfunds, hfits, -⟩
  · rw [hspent] at hnone
    cases hnone
  · have heq : funds = balance := Except.ok.inj (hbalance.symm.trans hfunds)
    have hn := hfits n hn
    have hfunds : funds.toNat = 40 := by decide +kernel
    rw [← heq, hlocked, hfunds] at hn
    exact hn

open FirstLock in
/-- The two coins are accepted, and are more than alice may spend. -/
theorem two_coins_exceed_unlocked_balance :
    succeeds ((checkTx block ⟨[twoCoins], none⟩).run slashed) ∧
    ∃ account ∈ slashed.store.lockup? alice,
      totalDelegated slashed.ledger account.address = .ok delegated ∧
      HostLedger.balance slashed.ledger account.address "stake" = .ok funds ∧
      delegated.toNat < account.schedule.lockedSum block.time ∧
      funds.toNat - (account.schedule.lockedSum block.time - delegated.toNat) <
        (twoCoins.spentFrom "stake" alice).sum := by
  decide +kernel

end StakeLock
