import StakeLock.Proofs.Worth

/-!
# Truncated values of holdings

The tokens behind a holding are rounded down for each holding by itself. All holdings
together are worth no more than the tokens of the validator, and if they are all of its
shares, less than one token for each of them is lost.
-/

namespace StakeLock

namespace Shares

def unitsOf (holdings : List Shares) : Nat := (holdings.map fun s => s.atomics.toNat).sum

theorem le_unitsOf {held : Shares} {holdings : List Shares} (h : held ∈ holdings) :
    held.atomics.toNat ≤ unitsOf holdings :=
  List.le_sum_of_mem (List.mem_map.2 ⟨held, h, rfl⟩)

end Shares

namespace Validator

open Shares

variable {v : Validator} {held more : Shares} {holdings : List Shares}

theorem tokensFromShares?_eq_some_iff {value : Amount} :
    v.tokensFromShares? held = some value ↔ v.worth held = value.toNat := by
  rw [tokensFromShares?_eq, Amount.ofNat?_eq_some_iff]

theorem worth_mono (h : held.atomics ≤ more.atomics) : v.worth held ≤ v.worth more :=
  Nat.div_le_div_right (Nat.mul_le_mul_right _ h)

theorem value_le {w : Validator} {a b : Amount} (ha : v.tokensFromShares? held = some a)
    (hb : w.tokensFromShares? more = some b) (h : v.worth held ≤ w.worth more) : a ≤ b := by
  rw [tokensFromShares?_eq_some_iff] at ha hb
  rw [Amount.le_def, ← ha, ← hb]
  exact h

theorem worth_le (h : held.atomics ≤ v.shares.atomics) : v.worth held ≤ v.tokens.toNat :=
  Nat.div_le_of_le_mul (Nat.mul_le_mul_right _ h)

theorem exists_tokensFromShares? (h : held.atomics ≤ v.shares.atomics) :
    ∃ value, v.tokensFromShares? held = some value :=
  ⟨⟨v.worth held, Nat.lt_of_le_of_lt (worth_le h) v.tokens.toNat_lt⟩,
    tokensFromShares?_eq_some_iff.2 rfl⟩

/-! ## Holdings together -/

/-- The tokens of all holdings, and what is left over from rounding them, are the exact
product that they are divided from. -/
theorem mul_sum_worth_add_sum_mod (v : Validator) (holdings : List Shares) :
    v.shares.atomics.toNat * (holdings.map v.worth).sum +
        (holdings.map fun s => s.atomics.toNat * v.tokens.toNat % v.shares.atomics.toNat).sum =
      unitsOf holdings * v.tokens.toNat := by
  unfold unitsOf
  induction holdings with
  | nil => simp
  | cons s holdings ih =>
    have hone : v.shares.atomics.toNat * v.worth s +
        s.atomics.toNat * v.tokens.toNat % v.shares.atomics.toNat =
          s.atomics.toNat * v.tokens.toNat := Nat.div_add_mod _ _
    simp only [List.map_cons, List.sum_cons, Nat.mul_add, Nat.add_mul]
    omega

theorem sum_worth_le (hshares : 0 < v.shares.atomics.toNat)
    (hheld : unitsOf holdings ≤ v.shares.atomics.toNat) :
    (holdings.map v.worth).sum ≤ v.tokens.toNat := by
  have hparts := v.mul_sum_worth_add_sum_mod holdings
  apply Nat.le_of_mul_le_mul_left _ hshares
  calc v.shares.atomics.toNat * (holdings.map v.worth).sum
      ≤ unitsOf holdings * v.tokens.toNat := by omega
    _ ≤ v.shares.atomics.toNat * v.tokens.toNat := by gcongr

theorem lt_sum_worth_add_length (hshares : 0 < v.shares.atomics.toNat)
    (hall : unitsOf holdings = v.shares.atomics.toNat) :
    v.tokens.toNat < (holdings.map v.worth).sum + holdings.length := by
  have hparts := v.mul_sum_worth_add_sum_mod holdings
  have hne : holdings ≠ [] := by
    rintro rfl
    exact Nat.ne_of_lt hshares hall
  have hlost : (holdings.map fun s =>
      s.atomics.toNat * v.tokens.toNat % v.shares.atomics.toNat).sum <
        (holdings.map fun _ => v.shares.atomics.toNat).sum :=
    List.sum_lt_sum_of_ne_nil hne _ _ fun s _ => Nat.mod_lt _ hshares
  rw [List.map_const', List.sum_replicate_nat] at hlost
  apply Nat.lt_of_mul_lt_mul_left (a := v.shares.atomics.toNat)
  calc v.shares.atomics.toNat * v.tokens.toNat
      = unitsOf holdings * v.tokens.toNat := by rw [hall]
    _ < v.shares.atomics.toNat * (holdings.map v.worth).sum +
        holdings.length * v.shares.atomics.toNat := by omega
    _ = v.shares.atomics.toNat * ((holdings.map v.worth).sum + holdings.length) := by ring

theorem exists_values (hheld : ∀ s ∈ holdings, s.atomics ≤ v.shares.atomics) :
    ∃ values, holdings.mapM v.tokensFromShares? = some values ∧
      values.map Amount.toNat = holdings.map v.worth := by
  induction holdings with
  | nil => exact ⟨[], rfl, rfl⟩
  | cons s holdings ih =>
    obtain ⟨value, hvalue⟩ := exists_tokensFromShares? (hheld s (List.mem_cons_self ..))
    obtain ⟨values, hvalues, hworth⟩ := ih fun t ht => hheld t (List.mem_cons_of_mem _ ht)
    refine ⟨value :: values, ?_, ?_⟩
    · simp [hvalue, hvalues]
    · rw [List.map_cons, List.map_cons, hworth, tokensFromShares?_eq_some_iff.1 hvalue]

/-- A validator with shares values every number of them that it has, and more of them no lower.
The values of holdings that are no more than its shares add up to no more than its tokens,
and for all of its shares to more than the tokens less one for each holding. -/
theorem truncation_invents_no_backing (hshares : 0 < v.shares.atomics.toNat)
    (hheld : unitsOf holdings ≤ v.shares.atomics.toNat) :
    (∀ held more : Shares, held.atomics ≤ more.atomics → ∀ b, v.tokensFromShares? more = some b →
      ∃ a, v.tokensFromShares? held = some a ∧ a ≤ b) ∧
    ∃ values : List Amount, holdings.mapM v.tokensFromShares? = some values ∧
      (values.map Amount.toNat).sum ≤ v.tokens.toNat ∧
      (unitsOf holdings = v.shares.atomics.toNat →
        v.tokens.toNat < (values.map Amount.toNat).sum + holdings.length) := by
  constructor
  · intro held more hle b hb
    rw [tokensFromShares?_eq_some_iff] at hb
    have hworth : v.worth held ≤ b.toNat := hb ▸ worth_mono hle
    exact ⟨⟨v.worth held, Nat.lt_of_le_of_lt hworth b.toNat_lt⟩,
      tokensFromShares?_eq_some_iff.2 rfl, hworth⟩
  · obtain ⟨values, hvalues, hworth⟩ := exists_values fun s hs => (le_unitsOf hs).trans hheld
    refine ⟨values, hvalues, ?_, fun hall => ?_⟩
    · rw [hworth]
      exact sum_worth_le hshares hheld
    · rw [hworth]
      exact lt_sum_worth_add_length hshares hall

/-- A validator that has 7 tokens left for its 11 shares. -/
def slashedToSeven : Validator := ⟨"val", ⟨7, by decide⟩, ⟨⟨11, by decide⟩⟩⟩

def threeHoldings : List Shares := [⟨⟨3, by decide⟩⟩, ⟨⟨4, by decide⟩⟩, ⟨⟨4, by decide⟩⟩]

/-- Of the 7 tokens the first holding has one and the others have two each, so two are lost. -/
theorem three_holdings_lose_two :
    threeHoldings.mapM slashedToSeven.tokensFromShares? =
      some [⟨1, by decide⟩, ⟨2, by decide⟩, ⟨2, by decide⟩] ∧
    5 ≤ slashedToSeven.tokens.toNat ∧ slashedToSeven.tokens.toNat < 5 + 3 := by
  have hvalued : threeHoldings.mapM slashedToSeven.tokensFromShares? =
      some [⟨1, by decide⟩, ⟨2, by decide⟩, ⟨2, by decide⟩] := by decide
  obtain ⟨-, values, hvalues, hle, hlt⟩ :=
    @truncation_invents_no_backing slashedToSeven threeHoldings (by decide) (by decide)
  obtain rfl := Option.some.inj (hvalued.symm.trans hvalues)
  exact ⟨hvalued, hle, hlt (by decide)⟩

end Validator

end StakeLock
