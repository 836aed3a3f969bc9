import StakeLock.Proofs.Coverage
import StakeLock.Proofs.Exchange
import StakeLock.Proofs.Truncation

/-!
# Bonding dilutes nobody

Bonding mints shares that are rounded down, so the shares that were there keep what they
are worth, and the new ones are worth no more than what was paid for them. What an address
has delegated does not become less, whoever bonds.
-/

namespace StakeLock

namespace Validator

variable {v w : Validator} {amount : Amount} {new held : Shares}

theorem Bonds.worth_new_le (h : v.Bonds amount new w) : w.worth new ≤ amount.toNat := by
  have hpaid := sharesForTokens?_mul_le h.minted
  unfold worth
  rw [← h.tokens, ← h.shares]
  apply Nat.div_le_of_le_mul
  calc new.atomics.toNat * (v.tokens.toNat + amount.toNat)
      = new.atomics.toNat * v.tokens.toNat + new.atomics.toNat * amount.toNat := by ring
    _ ≤ amount.toNat * v.shares.atomics.toNat + new.atomics.toNat * amount.toNat := by gcongr
    _ = (v.shares.atomics.toNat + new.atomics.toNat) * amount.toNat := by ring

theorem Bonds.shares_le (h : v.Bonds amount new w) : v.shares.atomics ≤ w.shares.atomics := by
  rw [Amount.le_def, ← h.shares]
  exact Nat.le_add_right _ _

theorem Bonds.exists_add? (h : v.Bonds amount new w) (hheld : held.atomics ≤ v.shares.atomics) :
    ∃ sum, held.add? new = some sum ∧ held.atomics ≤ sum.atomics ∧
      sum.atomics ≤ w.shares.atomics := by
  have hle : held.atomics.toNat + new.atomics.toNat ≤ w.shares.atomics.toNat := by
    rw [← h.shares]
    exact Nat.add_le_add_right hheld _
  obtain ⟨sum, hsum⟩ : ∃ sum : Amount, held.atomics.toNat + new.atomics.toNat = sum.toNat :=
    ⟨⟨_, Nat.lt_of_le_of_lt hle w.shares.atomics.toNat_lt⟩, rfl⟩
  refine ⟨⟨sum⟩, ?_, ?_, ?_⟩
  · unfold Shares.add?
    rw [Amount.add?_eq_some_iff.2 hsum]
    rfl
  · rw [Amount.le_def, ← hsum]
    exact Nat.le_add_right _ _
  · rw [Amount.le_def, ← hsum]
    exact hle

/-- Shares that the validator has are valued before and after, and not less; the new ones are
valued at the amount at most. -/
theorem Bonds.values (h : v.Bonds amount new w) (hheld : held.atomics ≤ v.shares.atomics) :
    ∃ before after own sum joint, v.tokensFromShares? held = some before ∧
      w.tokensFromShares? held = some after ∧ w.tokensFromShares? new = some own ∧
      held.add? new = some sum ∧ w.tokensFromShares? sum = some joint ∧
      before ≤ after ∧ own ≤ amount ∧ before ≤ joint := by
  obtain ⟨sum, hsum, hmore, hall⟩ := h.exists_add? hheld
  have hnew : new.atomics ≤ w.shares.atomics := by
    rw [Amount.le_def, ← h.shares]
    exact Nat.le_add_left _ _
  obtain ⟨before, hbefore⟩ := exists_tokensFromShares? hheld
  obtain ⟨after, hafter⟩ := exists_tokensFromShares? (Nat.le_trans hheld h.shares_le)
  obtain ⟨own, hown⟩ := exists_tokensFromShares? hnew
  obtain ⟨joint, hjoint⟩ := exists_tokensFromShares? hall
  refine ⟨before, after, own, sum, joint, hbefore, hafter, hown, hsum, hjoint, ?_, ?_, ?_⟩
  · exact value_le hbefore hafter (h.worth_le held)
  · rw [Amount.le_def, ← tokensFromShares?_eq_some_iff.1 hown]
    exact h.worth_new_le
  · exact value_le hbefore hjoint ((h.worth_le held).trans (worth_mono hmore))

end Validator

namespace Books

variable {b after : Books} {x delegator : Address} {name : String} {amount : Amount}
variable {v : Validator} {new : Shares}

theorem exists_bonds (h : b.bond? delegator name v amount = some (new, after)) :
    ∃ w, after.validators.get? name = some w ∧ v.Bonds amount new w := by
  obtain ⟨w, held, hbonds, -, rfl⟩ := bond?_eq_some h
  exact ⟨w, (get?_validators_bonded w held name).trans (if_pos rfl), hbonds⟩

theorem delegatedSum_le_of_own_bond (hv : b.validators.get? name = some v)
    (h : b.bond? x name v amount = some (new, after))
    (hcount : (after.owned x).length ≤ maxDelegations) :
    b.delegatedSum x ≤ after.delegatedSum x := by
  obtain ⟨w, held, hbonds, hheld, hsum⟩ := delegatedSum_of_bond hv h hcount
  have hmore : (b.shares x name).atomics ≤ held.atomics := by
    rw [Amount.le_def, ← hheld]
    exact Nat.le_add_right _ _
  have hworth : v.worth (b.shares x name) ≤ w.worth held :=
    (hbonds.worth_le _).trans (Validator.worth_mono hmore)
  omega

end Books

/-- When a strict ledger bonds an amount, for any state of the validator, every part of the
shares it had is worth no less afterwards, the new shares are worth the amount at most, and
with them a holder has no less than before. What an address has delegated has not become
less, if no more than the counted delegations are its own. -/
theorem bonding_dilutes_nobody {l l' : StrictLedger} {delegator : Address} {name : String}
    {amount : Amount} {new : Shares}
    (hrun : (HostLedger.delegate delegator name amount : HostM StrictLedger Shares).run l =
      .ok new l') :
    (∃ v w, l.books.validators.get? name = some v ∧ l'.books.validators.get? name = some w ∧
      v.tokens.toNat + amount.toNat = w.tokens.toNat ∧
      v.shares.atomics.toNat + new.atomics.toNat = w.shares.atomics.toNat ∧
      ∀ held : Shares, held.atomics ≤ v.shares.atomics → ∃ before after own sum joint,
        v.tokensFromShares? held = some before ∧ w.tokensFromShares? held = some after ∧
        w.tokensFromShares? new = some own ∧ held.add? new = some sum ∧
        w.tokensFromShares? sum = some joint ∧
        before ≤ after ∧ own ≤ amount ∧ before ≤ joint) ∧
    ∀ x, (l'.books.owned x).length ≤ maxDelegations → ∀ total total',
      totalDelegated l x = .ok total → totalDelegated l' x = .ok total' → total ≤ total' := by
  obtain ⟨v, hv, hbond⟩ := StrictLedger.ends_delegate.of_ok hrun
  constructor
  · obtain ⟨w, hw, hbonds⟩ := Books.exists_bonds hbond
    exact ⟨v, w, hv, hw, hbonds.tokens, hbonds.shares, fun _ hheld => hbonds.values hheld⟩
  · intro x hcount total total' htotal htotal'
    rw [Amount.le_def, Books.toNat_of_totalDelegated htotal, Books.toNat_of_totalDelegated htotal']
    by_cases hx : x = delegator
    · subst hx
      exact Books.delegatedSum_le_of_own_bond hv hbond hcount
    · exact Books.delegatedSum_le_of_bond hv hbond hx

namespace FirstLock

def deposit : Amount := tokens 7

/-- The ledger after bob has bonded 7 tokens with the slashed validator. -/
def enlarged : StrictLedger := finalState
  ((HostLedger.delegate ⟨"bob"⟩ "val" deposit : HostM StrictLedger Shares).run slashed.ledger)

end FirstLock

open FirstLock in
/-- Bob gets shares that do not come out even: they are worth no more than the 7 tokens, and
alice has no less delegated than the 30 tokens that are left to her. -/
theorem slashed_holder_not_diluted : ∃ new own w after,
    (HostLedger.delegate ⟨"bob"⟩ "val" deposit : HostM StrictLedger Shares).run slashed.ledger =
      .ok new enlarged ∧
    enlarged.books.validators.get? "val" = some w ∧ w.tokensFromShares? new = some own ∧
    own ≤ deposit ∧ totalDelegated slashed.ledger alice = .ok delegated ∧
    totalDelegated enlarged alice = .ok after ∧ delegated ≤ after := by
  obtain ⟨new, hrun⟩ : ∃ new, (HostLedger.delegate ⟨"bob"⟩ "val" deposit :
      HostM StrictLedger Shares).run slashed.ledger = .ok new enlarged :=
    exists_ok_of_succeeds (by decide +kernel)
  obtain ⟨⟨v, w, hv, hw, -, -, hvalues⟩, htotals⟩ := bonding_dilutes_nobody hrun
  obtain ⟨-, -, own, -, -, -, -, hown, -, -, -, hle, -⟩ := hvalues Shares.zero (Nat.zero_le _)
  have hbefore : totalDelegated slashed.ledger alice = .ok delegated := by decide +kernel
  have hafter : totalDelegated enlarged alice = .ok ⟨30, by decide⟩ := by decide +kernel
  have hcount : (enlarged.books.owned alice).length ≤ maxDelegations := by decide +kernel
  exact ⟨new, own, w, _, hrun, hw, hown, hle, hbefore, hafter,
    htotals alice hcount _ _ hbefore hafter⟩

end StakeLock
