import StakeLock.Proofs.Outcome
import StakeLock.Proofs.Worth

/-!
# Outcomes on a strict ledger

A transfer moves an exact amount between two balances and a delegation changes
none. Neither touches what other addresses have.
-/

namespace StakeLock

namespace Books

variable (b : Books) (address a : Address) (denom : String) (amount : Amount)

theorem balance_setBalance : (b.setBalance address denom amount).balance a denom =
    if a = address then amount else b.balance a denom := by
  unfold balance setBalance
  simp only [Table.get?_insert, Holding.mk.injEq, and_true]
  split <;> rfl

end Books

namespace StrictLedger

variable {l : StrictLedger} {source target delegator : Address} {denom validator : String}
variable {amount : Amount}

/-- A transfer that arrives: what the target gets is what the source pays, and no other
balance of the denomination, no validator and no delegation changes. -/
structure Transfers (source target : Address) (denom : String) (amount : Amount)
    (b b' : Books) : Prop where
  denom_eq : b'.denom = b.denom
  validators : b'.validators = b.validators
  delegations : b'.delegations = b.delegations
  balance : ∀ x, x ≠ target → (b'.balance x denom).toNat +
    (if x = source then amount.toNat else 0) = (b.balance x denom).toNat

theorem Transfers.totalDelegated_eq {l' : StrictLedger}
    (h : Transfers source target denom amount l.books l'.books) (x : Address) :
    totalDelegated l' x = totalDelegated l x := by
  have hdelegations : l'.books.delegationsOf x maxDelegations =
      l.books.delegationsOf x maxDelegations := by
    unfold Books.delegationsOf
    rw [h.delegations]
  have hadd : addDelegated l' = addDelegated l := by
    funext total d
    have hknown : HostLedger.validator? l' d.validator = HostLedger.validator? l d.validator :=
      congrArg (fun validators => Except.ok (validators.get? d.validator)) h.validators
    unfold addDelegated
    rw [hknown]
  change (l'.books.delegationsOf x maxDelegations).foldlM (addDelegated l') Amount.zero = _
  rw [hdelegations, hadd]
  rfl

section

variable {α : Type} {P : α → StrictLedger → Prop} {E : Fault SystemError → StrictLedger → Prop}

theorem ends_getBooks {P : Books → StrictLedger → Prop} :
    Ends P E (getBooks.run l) ↔ P l.books l := Iff.rfl

theorem ends_setBooks {P : Unit → StrictLedger → Prop} {books : Books} :
    Ends P E ((setBooks books).run l) ↔ P () ⟨books⟩ := Iff.rfl

theorem ends_orAbort {result : Option α} :
    Ends P E ((orAbort result).run l) ↔ (∀ a, result = some a → P a l) ∧
      (result = none → E .aborted l) := by
  cases result <;> simp [orAbort, ends_throw]

end

theorem ends_sendCoin : Ends (fun _ l' => Transfers source target denom amount l.books l'.books)
    (fun _ _ => True) ((sendCoin source target ⟨denom, amount⟩).run l) := by
  unfold sendCoin
  rw [ends_bind, ends_getBooks]
  simp only
  cases hrest : (l.books.balance source denom).sub? amount with
  | none => trivial
  | some rest =>
    have hpaid := Amount.sub?_eq_some_iff.1 hrest
    simp only
    rw [ends_bind, ends_setBooks, ends_bind, ends_orAbort]
    refine ⟨fun sum _ => ⟨rfl, rfl, rfl, fun x hx => ?_⟩, fun _ => trivial⟩
    change (((l.books.setBalance source denom rest).setBalance target denom sum).balance x
      denom).toNat + _ = _
    rw [Books.balance_setBalance, if_neg hx, Books.balance_setBalance]
    split
    · rename_i heq
      rw [heq]
      omega
    · rfl

theorem ends_sendCoins : Ends (fun _ l' => Transfers source target denom amount l.books l'.books)
    (fun _ _ => True)
    ((HostLedger.sendCoins source target [⟨denom, amount⟩] : HostM StrictLedger Unit).run l) := by
  change Ends _ _ ((do
    sendCoin source target ⟨denom, amount⟩
    pure () : HostM StrictLedger Unit).run l)
  rw [ends_bind]
  exact ends_sendCoin

theorem ends_delegate : Ends
    (fun new l' => ∃ v, l.books.validators.get? validator = some v ∧
      l.books.bond? delegator validator v amount = some (new, l'.books))
    (fun _ _ => True)
    ((HostLedger.delegate delegator validator amount : HostM StrictLedger Shares).run l) := by
  change Ends _ _ ((delegate delegator validator amount).run l)
  unfold delegate
  rw [ends_bind, ends_getBooks]
  cases hv : l.books.validators.get? validator with
  | none => trivial
  | some v =>
    simp only
    rw [ends_bind, ends_orAbort]
    refine ⟨?_, fun _ => trivial⟩
    rintro ⟨new, books⟩ hbond
    exact ⟨v, rfl, hbond⟩

end StrictLedger

end StakeLock
