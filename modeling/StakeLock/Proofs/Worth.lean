import Mathlib.Algebra.Order.BigOperators.Group.List
import Mathlib.Algebra.Order.Ring.Nat
import Mathlib.Tactic.GCongr
import Mathlib.Tactic.Ring
import StakeLock.Host.Strict
import StakeLock.Proofs.Checks
import StakeLock.Proofs.Table

/-!
# Worth of delegations

Delegations are counted in truncated tokens. Bonding mints shares rounded down, so
it makes no share of the validator worth less, and what other addresses have
delegated does not become less.
-/

namespace StakeLock

namespace Validator

/-- The tokens behind a number of shares, as an exact quotient. -/
def worth (v : Validator) (shares : Shares) : Nat :=
  shares.atomics.toNat * v.tokens.toNat / v.shares.atomics.toNat

theorem tokensFromShares?_eq (v : Validator) (shares : Shares) :
    v.tokensFromShares? shares = Amount.ofNat? (v.worth shares) := by
  unfold tokensFromShares? worth
  by_cases h : v.shares.isZero
  · have hz : v.shares.atomics.toNat = 0 := by simpa [Shares.isZero, Amount.isZero] using h
    rw [if_pos h, hz, Nat.div_zero]
    rfl
  · rw [if_neg h]
    unfold Amount.mulDiv?
    exact if_neg h

/-- Tokens that come with shares rounded down make no other shares worth less. -/
theorem worth_le_of_minted {held tokens shares amount minted : Nat} (hshares : 0 < shares)
    (htokens : 0 < tokens) (hminted : minted * tokens ≤ amount * shares) :
    held * tokens / shares ≤ held * (tokens + amount) / (shares + minted) := by
  rw [Nat.le_div_iff_mul_le (by omega)]
  have hworth := Nat.div_mul_le_self (held * tokens) shares
  generalize held * tokens / shares = worth at hworth ⊢
  apply Nat.le_of_mul_le_mul_right _ htokens
  calc worth * (shares + minted) * tokens
      = worth * shares * tokens + worth * (minted * tokens) := by ring
    _ ≤ worth * shares * tokens + worth * (amount * shares) := by gcongr
    _ = worth * shares * (tokens + amount) := by ring
    _ ≤ held * tokens * (tokens + amount) := by gcongr
    _ = held * (tokens + amount) * tokens := by ring

theorem sharesForTokens?_mul_le {v : Validator} {amount : Amount} {new : Shares}
    (h : v.sharesForTokens? amount = some new) :
    new.atomics.toNat * v.tokens.toNat ≤ amount.toNat * v.shares.atomics.toNat := by
  unfold sharesForTokens? at h
  by_cases ht : v.tokens.isZero
  · have hz : v.tokens.toNat = 0 := by simpa [Amount.isZero] using ht
    rw [hz, Nat.mul_zero]
    exact Nat.zero_le _
  · rw [if_neg ht] at h
    obtain ⟨minted, hminted, rfl⟩ := Option.map_eq_some_iff.1 h
    unfold Amount.mulDiv? at hminted
    rw [if_neg ht, Amount.ofNat?_eq_some_iff] at hminted
    rw [← hminted]
    exact Nat.div_mul_le_self _ _

/-- A validator after an amount has been bonded with it for new shares. -/
structure Bonds (v : Validator) (amount : Amount) (new : Shares) (w : Validator) : Prop where
  minted : v.sharesForTokens? amount = some new
  tokens : v.tokens.toNat + amount.toNat = w.tokens.toNat
  shares : v.shares.atomics.toNat + new.atomics.toNat = w.shares.atomics.toNat

theorem Bonds.worth_le {v w : Validator} {amount : Amount} {new : Shares}
    (h : v.Bonds amount new w) (held : Shares) : v.worth held ≤ w.worth held := by
  unfold worth
  rw [← h.tokens, ← h.shares]
  rcases Nat.eq_zero_or_pos v.tokens.toNat with ht | ht
  · rw [ht, Nat.mul_zero, Nat.zero_div]
    exact Nat.zero_le _
  · rcases Nat.eq_zero_or_pos v.shares.atomics.toNat with hs | hs
    · rw [hs, Nat.div_zero]
      exact Nat.zero_le _
    · exact worth_le_of_minted hs ht (sharesForTokens?_mul_le h.minted)

end Validator

namespace Books

variable {b : Books} {x delegator : Address} {name : String} {amount : Amount}

/-- What a delegation is worth, nothing if its validator is unknown. -/
def worth (b : Books) (d : Delegation) : Nat :=
  match b.validators.get? d.validator with
  | some v => v.worth d.shares
  | none => 0

/-- The exact sum of the delegations that are counted for an address. -/
def delegatedSum (b : Books) (x : Address) : Nat :=
  ((b.delegationsOf x maxDelegations).map b.worth).sum

theorem addDelegated_eq_ok_iff {total next : Amount} {d : Delegation} :
    addDelegated (StrictLedger.mk b) total d = .ok next ↔
      (b.validators.get? d.validator).isSome ∧ total.toNat + b.worth d = next.toNat := by
  have hfound : ∀ found, Check.ofSystem (HostLedger.validator? (StrictLedger.mk b) d.validator) =
      .ok found ↔ b.validators.get? d.validator = found := by
    intro found
    rw [Check.ofSystem_eq_ok_iff]
    exact ⟨Except.ok.inj, congrArg Except.ok⟩
  unfold addDelegated worth
  rw [except_bind_eq_ok_iff]
  simp only [hfound, exists_eq_left']
  cases b.validators.get? d.validator with
  | none => simp [Check.refuse]
  | some v =>
    simp only [except_bind_eq_ok_iff, Check.orAbort_eq_ok_iff, v.tokensFromShares?_eq,
      Amount.ofNat?_eq_some_iff, Check.ofSystem_eq_ok_iff, Amount.checkedAdd_eq_ok_iff,
      Option.isSome_some, true_and]
    constructor
    · rintro ⟨tokens, htokens, hsum⟩
      rw [htokens, hsum]
    · intro hsum
      have hlt : v.worth d.shares < 2 ^ 128 := by
        have := next.toNat_lt
        omega
      exact ⟨⟨v.worth d.shares, hlt⟩, rfl, hsum⟩

theorem foldlM_addDelegated_eq_ok_iff {ds : List Delegation} {start total : Amount} :
    ds.foldlM (addDelegated (StrictLedger.mk b)) start = .ok total ↔
      (∀ d ∈ ds, (b.validators.get? d.validator).isSome) ∧
        start.toNat + (ds.map b.worth).sum = total.toNat := by
  induction ds generalizing start with
  | nil =>
    rw [List.foldlM_nil, List.map_nil, List.sum_nil, Nat.add_zero, ← Amount.ext_iff]
    simp [pure, Except.pure]
  | cons d ds ih =>
    rw [List.foldlM_cons, except_bind_eq_ok_iff, List.forall_mem_cons, List.map_cons,
      List.sum_cons, ← Nat.add_assoc]
    constructor
    · rintro ⟨next, hnext, hrest⟩
      obtain ⟨hknown, hsum⟩ := addDelegated_eq_ok_iff.1 hnext
      obtain ⟨hothers, htotal⟩ := ih.1 hrest
      exact ⟨⟨hknown, hothers⟩, by rw [hsum, htotal]⟩
    · rintro ⟨⟨hknown, hothers⟩, htotal⟩
      have hlt : start.toNat + b.worth d < 2 ^ 128 := by
        have := total.toNat_lt
        omega
      exact ⟨⟨start.toNat + b.worth d, hlt⟩, addDelegated_eq_ok_iff.2 ⟨hknown, rfl⟩,
        ih.2 ⟨hothers, htotal⟩⟩

theorem totalDelegated_eq_ok_iff {total : Amount} :
    totalDelegated (StrictLedger.mk b) x = .ok total ↔
      (∀ d ∈ b.delegationsOf x maxDelegations, (b.validators.get? d.validator).isSome) ∧
        b.delegatedSum x = total.toNat := by
  change (b.delegationsOf x maxDelegations).foldlM _ Amount.zero = _ ↔ _
  rw [foldlM_addDelegated_eq_ok_iff, Amount.toNat_zero, Nat.zero_add]
  rfl

/-- The total that checks of the delegations work with is the exact sum. -/
theorem toNat_of_totalDelegated {ledger : StrictLedger} {total : Amount}
    (h : totalDelegated ledger x = .ok total) : total.toNat = ledger.books.delegatedSum x :=
  (totalDelegated_eq_ok_iff (b := ledger.books).1 h).2.symm

theorem bond?_eq_some {v : Validator} {new : Shares} {after : Books}
    (h : b.bond? delegator name v amount = some (new, after)) :
    ∃ w held, v.Bonds amount new w ∧
      (b.shares delegator name).atomics.toNat + new.atomics.toNat = held.atomics.toNat ∧
      after = (b.putValidator name w).setDelegation delegator name held := by
  unfold bond? at h
  simp only [Option.bind_eq_bind, Option.bind_eq_some_iff] at h
  obtain ⟨minted, hminted, tokens, htokens, total, htotal, held, hheld, h⟩ := h
  cases h
  obtain ⟨sum, hsum, rfl⟩ := Option.map_eq_some_iff.1 htotal
  obtain ⟨more, hmore, rfl⟩ := Option.map_eq_some_iff.1 hheld
  exact ⟨_, ⟨more⟩, ⟨hminted, Amount.add?_eq_some_iff.1 htokens, Amount.add?_eq_some_iff.1 hsum⟩,
    Amount.add?_eq_some_iff.1 hmore, rfl⟩

theorem get?_validators_bonded (w : Validator) (held : Shares) (other : String) :
    ((b.putValidator name w).setDelegation x name held).validators.get? other =
      if other = name then some w else b.validators.get? other :=
  Table.get?_insert b.validators name other w

theorem delegationsOf_setDelegation (b : Books) {shares : Shares} (hne : x ≠ delegator)
    (limit : Nat) :
    (b.setDelegation delegator name shares).delegationsOf x limit = b.delegationsOf x limit := by
  unfold delegationsOf setDelegation
  congr 2
  refine Entries.filter_insert shares (fun w => ?_) b.delegations.entries
  simpa using hne.symm

theorem delegatedSum_le_of_bond {v : Validator} {new : Shares} {after : Books}
    (hv : b.validators.get? name = some v)
    (h : b.bond? delegator name v amount = some (new, after)) (hne : x ≠ delegator) :
    b.delegatedSum x ≤ after.delegatedSum x := by
  obtain ⟨w, held, hbonds, -, rfl⟩ := bond?_eq_some h
  unfold delegatedSum
  rw [delegationsOf_setDelegation _ hne]
  apply List.sum_le_sum
  intro d _
  unfold worth
  rw [get?_validators_bonded]
  by_cases hd : d.validator = name
  · rw [if_pos hd, hd, hv]
    exact hbonds.worth_le d.shares
  · rw [if_neg hd]

end Books

end StakeLock
