import StakeLock.Proofs.Worth

/-!
# Exchange of tokens for shares

Tokens buy shares that are rounded down, and the shares are counted in tokens that are
rounded down once more. Where the shares come out even, the delegator has all the tokens
that were bonded. At any rate that is not above one token for a unit of a share, one token
at most is lost.
-/

namespace StakeLock

namespace Validator

section

variable {tokens shares amount minted : Nat}

/-- Shares that come out even are worth what they cost. -/
theorem worth_add_le_of_even (held : Nat) (hpos : 0 < minted)
    (heven : minted * tokens = amount * shares) :
    held * tokens / shares + amount ≤ (held + minted) * (tokens + amount) / (shares + minted) := by
  rw [Nat.le_div_iff_mul_le (by omega)]
  rcases Nat.eq_zero_or_pos shares with rfl | hshares
  · rw [Nat.div_zero, Nat.zero_add, Nat.zero_add, Nat.mul_comm]
    exact Nat.mul_le_mul (by omega) (by omega)
  · have hworth := Nat.div_mul_le_self (held * tokens) shares
    generalize held * tokens / shares = worth at hworth ⊢
    have hall : (worth + amount) * shares ≤ (held + minted) * tokens := by
      calc (worth + amount) * shares = worth * shares + amount * shares := by ring
        _ ≤ held * tokens + minted * tokens := by
          rw [heven]
          gcongr
        _ = (held + minted) * tokens := by ring
    apply Nat.le_of_mul_le_mul_right _ hshares
    calc (worth + amount) * (shares + minted) * shares
        = (worth + amount) * shares * (shares + minted) := by ring
      _ ≤ (held + minted) * tokens * (shares + minted) := by gcongr
      _ = (held + minted) * (tokens * shares + minted * tokens) := by ring
      _ = (held + minted) * (tokens + amount) * shares := by
        rw [heven]
        ring

/-- Rounding loses no more than a token, unless a unit of a share is worth more than one. -/
theorem worth_add_le_of_rounded (held : Nat) (hamount : 0 < amount) (hshares : 0 < shares)
    (hrate : tokens ≤ shares) (hle : minted * tokens ≤ amount * shares)
    (hlt : amount * shares < (minted + 1) * tokens) :
    held * tokens / shares + amount ≤
      (held + minted) * (tokens + amount) / (shares + minted) + 1 := by
  obtain ⟨rest, rfl⟩ : ∃ rest, amount = rest + 1 := ⟨amount - 1, by omega⟩
  have hworth := Nat.div_mul_le_self (held * tokens) shares
  generalize held * tokens / shares = worth at hworth ⊢
  have hheld : worth * minted ≤ held * (rest + 1) := by
    apply Nat.le_of_mul_le_mul_right _ hshares
    calc worth * minted * shares = worth * shares * minted := by ring
      _ ≤ held * tokens * minted := by gcongr
      _ = held * (minted * tokens) := by ring
      _ ≤ held * ((rest + 1) * shares) := by gcongr
      _ = held * (rest + 1) * shares := by ring
  have hnew : rest * (shares + minted) ≤ minted * (tokens + (rest + 1)) := by
    have hrest : rest * shares ≤ minted * tokens := by
      rw [Nat.add_mul, Nat.add_mul, Nat.one_mul, Nat.one_mul] at hlt
      omega
    calc rest * (shares + minted) = rest * shares + minted * rest := by ring
      _ ≤ minted * tokens + minted * (rest + 1) := by
        gcongr
        omega
      _ = minted * (tokens + (rest + 1)) := by ring
  have hall : worth + rest ≤ (held + minted) * (tokens + (rest + 1)) / (shares + minted) := by
    rw [Nat.le_div_iff_mul_le (by omega)]
    calc (worth + rest) * (shares + minted)
        = worth * shares + worth * minted + rest * (shares + minted) := by ring
      _ ≤ held * tokens + held * (rest + 1) + minted * (tokens + (rest + 1)) := by gcongr
      _ = (held + minted) * (tokens + (rest + 1)) := by ring
  omega

end

theorem lt_sharesForTokens?_succ_mul {v : Validator} {amount : Amount} {new : Shares}
    (h : v.sharesForTokens? amount = some new) (htokens : 0 < v.tokens.toNat) :
    amount.toNat * v.shares.atomics.toNat < (new.atomics.toNat + 1) * v.tokens.toNat := by
  have hne : ¬v.tokens.isZero := fun hz => Amount.ne_zero_of_pos htokens (Amount.isZero_iff.1 hz)
  unfold sharesForTokens? at h
  rw [if_neg hne] at h
  obtain ⟨minted, hminted, rfl⟩ := Option.map_eq_some_iff.1 h
  unfold Amount.mulDiv? at hminted
  rw [if_neg hne, Amount.ofNat?_eq_some_iff] at hminted
  simp only
  rw [← hminted, Nat.mul_comm (_ + 1)]
  exact Nat.lt_mul_div_succ _ htokens

end Validator

namespace Books

variable {b after : Books} {x : Address} {name : String} {amount : Amount} {v : Validator}
variable {new : Shares}

def owned (b : Books) (x : Address) : List (Holding × Shares) :=
  b.delegations.entries.filter fun e => e.1.holder = x

theorem length_owned_lt (h : (b.delegationsOf x maxDelegations).length < maxDelegations) :
    (b.owned x).length < maxDelegations := by
  have hlength : (b.delegationsOf x maxDelegations).length =
      min maxDelegations (b.owned x).length := by
    unfold delegationsOf owned
    rw [List.length_map, List.length_take]
  omega

theorem delegationsOf_eq (h : (b.owned x).length ≤ maxDelegations) :
    b.delegationsOf x maxDelegations = (b.owned x).map fun e => ⟨e.1.item, e.2⟩ :=
  congrArg _ (List.take_of_length_le h)

/-- What a delegation counts for among those of an address. -/
def share (b : Books) (x : Address) (k : Holding) (s : Shares) : Nat :=
  if k.holder = x then b.worth ⟨k.item, s⟩ else 0

theorem delegatedSum_eq_weigh (h : (b.owned x).length ≤ maxDelegations) :
    b.delegatedSum x = b.delegations.weigh (b.share x) := by
  unfold delegatedSum
  rw [delegationsOf_eq h, List.map_map]
  unfold owned Table.weigh Entries.weigh
  induction b.delegations.entries with
  | nil => rfl
  | cons e es ih =>
    rw [List.filter_cons, List.map_cons, List.sum_cons, ← ih]
    by_cases he : e.1.holder = x
    · simp [share, he]
    · simp [share, he]

theorem length_owned_of_bond (hbond : b.bond? x name v amount = some (new, after)) :
    (b.owned x).length ≤ (after.owned x).length ∧
      (after.owned x).length ≤ (b.owned x).length + 1 := by
  obtain ⟨w, held, -, -, rfl⟩ := bond?_eq_some hbond
  exact ⟨Entries.length_filter_le_insert (fun k : Holding => k.holder = x) _ _ _,
    Entries.length_filter_insert_le _ _ _ _⟩

theorem share_bonded_of_ne (w : Validator) (held : Shares) {k : Holding} (hk : k ≠ ⟨x, name⟩)
    (s : Shares) :
    ((b.putValidator name w).setDelegation x name held).share x k s = b.share x k s := by
  unfold share
  split
  · rename_i hholder
    have hitem : k.item ≠ name := by
      intro hitem
      apply hk
      rw [← hholder, ← hitem]
    unfold worth
    rw [get?_validators_bonded, if_neg hitem]
  · rfl

section

variable (hv : b.validators.get? name = some v)
variable (hbond : b.bond? x name v amount = some (new, after))

include hv hbond

/-- Bonding replaces what the delegation was worth by what it is worth then, and leaves the
other delegations of the address as they are. -/
theorem delegatedSum_of_bond (hcount : (after.owned x).length ≤ maxDelegations) :
    ∃ (w : Validator) (held : Shares), v.Bonds amount new w ∧
      (b.shares x name).atomics.toNat + new.atomics.toNat = held.atomics.toNat ∧
      after.delegatedSum x + v.worth (b.shares x name) = b.delegatedSum x + w.worth held := by
  have hfew := (length_owned_of_bond hbond).1.trans hcount
  obtain ⟨w, held, hbonds, hheld, rfl⟩ := bond?_eq_some hbond
  refine ⟨w, held, hbonds, hheld, ?_⟩
  rw [delegatedSum_eq_weigh hcount, delegatedSum_eq_weigh hfew]
  have hsum := Table.weigh_insert_of_agree b.delegations ⟨x, name⟩ held
    fun k s hk => b.share_bonded_of_ne w held hk s
  have hbefore : ((b.delegations.get? ⟨x, name⟩).map (b.share x ⟨x, name⟩)).getD 0 =
      v.worth (b.shares x name) := by
    unfold shares
    cases b.delegations.get? ⟨x, name⟩ with
    | none => simp [Validator.worth, Shares.zero]
    | some s => simp [share, worth, hv]
  have hafter : ((b.putValidator name w).setDelegation x name held).share x ⟨x, name⟩ held =
      w.worth held := by
    simp [share, worth, get?_validators_bonded]
  rw [hbefore, hafter] at hsum
  exact hsum

theorem add_le_delegatedSum_of_even (hfew : (b.owned x).length < maxDelegations)
    (hpos : 0 < new.atomics.toNat)
    (heven : new.atomics.toNat * v.tokens.toNat = amount.toNat * v.shares.atomics.toNat) :
    b.delegatedSum x + amount.toNat ≤ after.delegatedSum x := by
  obtain ⟨w, held, hbonds, hheld, hsum⟩ :=
    delegatedSum_of_bond hv hbond ((length_owned_of_bond hbond).2.trans hfew)
  have hgain := Validator.worth_add_le_of_even (b.shares x name).atomics.toNat hpos heven
  rw [hbonds.tokens, hbonds.shares, hheld] at hgain
  unfold Validator.worth at hsum
  omega

theorem add_le_delegatedSum_of_rounded (hfew : (b.owned x).length < maxDelegations)
    (hamount : 0 < amount.toNat) (htokens : 0 < v.tokens.toNat)
    (hrate : v.tokens.toNat ≤ v.shares.atomics.toNat) :
    b.delegatedSum x + amount.toNat ≤ after.delegatedSum x + 1 := by
  obtain ⟨w, held, hbonds, hheld, hsum⟩ :=
    delegatedSum_of_bond hv hbond ((length_owned_of_bond hbond).2.trans hfew)
  have hgain := Validator.worth_add_le_of_rounded (b.shares x name).atomics.toNat
    hamount (by omega) hrate (Validator.sharesForTokens?_mul_le hbonds.minted)
    (Validator.lt_sharesForTokens?_succ_mul hbonds.minted htokens)
  rw [hbonds.tokens, hbonds.shares, hheld] at hgain
  unfold Validator.worth at hsum
  omega

end

theorem exists_totalDelegated_of_bond {before : Amount}
    (hbond : b.bond? x name v amount = some (new, after))
    (hbefore : totalDelegated (StrictLedger.mk b) x = .ok before)
    (hfew : (b.owned x).length < maxDelegations) (hfits : after.delegatedSum x < 2 ^ 128) :
    ∃ total, totalDelegated (StrictLedger.mk after) x = .ok total := by
  obtain ⟨hknown, -⟩ := totalDelegated_eq_ok_iff.1 hbefore
  refine ⟨⟨after.delegatedSum x, hfits⟩, totalDelegated_eq_ok_iff.2 ⟨fun d hd => ?_, rfl⟩⟩
  obtain ⟨w, held, -, -, rfl⟩ := bond?_eq_some hbond
  obtain ⟨e, he, rfl⟩ := List.mem_map.1 hd
  obtain ⟨hmem, hholder⟩ := List.mem_filter.1 (List.mem_of_mem_take he)
  rw [get?_validators_bonded]
  split
  · rfl
  · rename_i hitem
    rcases Entries.mem_insert hmem with rfl | hold
    · exact absurd rfl hitem
    · apply hknown ⟨e.1.item, e.2⟩
      rw [delegationsOf_eq (Nat.le_of_lt hfew)]
      exact List.mem_map.2 ⟨e, List.mem_filter.2 ⟨hold, hholder⟩, rfl⟩

end Books

end StakeLock
