/-!
# Amounts

Coin amounts are natural numbers below `2 ^ 128`. Arithmetic that could leave
this range answers with an option; the callers say whether a missing result is
an error or ends the call.
-/

namespace StakeLock

structure Amount where
  toNat : Nat
  toNat_lt : toNat < 0x100000000000000000000000000000000
deriving DecidableEq

namespace Amount

@[ext] theorem ext {a b : Amount} (h : a.toNat = b.toNat) : a = b := by
  cases a; cases b; cases h; rfl

def zero : Amount := ⟨0, by decide⟩

instance : Inhabited Amount := ⟨zero⟩

instance : LE Amount := ⟨fun a b => a.toNat ≤ b.toNat⟩

instance : LT Amount := ⟨fun a b => a.toNat < b.toNat⟩

instance (a b : Amount) : Decidable (a ≤ b) := inferInstanceAs (Decidable (a.toNat ≤ b.toNat))

instance (a b : Amount) : Decidable (a < b) := inferInstanceAs (Decidable (a.toNat < b.toNat))

theorem le_def {a b : Amount} : a ≤ b ↔ a.toNat ≤ b.toNat := Iff.rfl

theorem lt_def {a b : Amount} : a < b ↔ a.toNat < b.toNat := Iff.rfl

def isZero (a : Amount) : Bool := a.toNat == 0

def ofNat? (n : Nat) : Option Amount :=
  if h : n < 0x100000000000000000000000000000000 then some ⟨n, h⟩ else none

theorem ofNat?_eq_some_iff {n : Nat} {a : Amount} : ofNat? n = some a ↔ n = a.toNat := by
  unfold ofNat?
  split
  · constructor
    · intro h; cases h; rfl
    · intro h; subst h; rfl
  · rename_i h
    constructor
    · intro h'; cases h'
    · intro h'; exact absurd (h' ▸ a.toNat_lt) h

theorem ofNat?_eq_none_iff {n : Nat} :
    ofNat? n = none ↔ 0x100000000000000000000000000000000 ≤ n := by
  unfold ofNat?
  split
  · rename_i h
    simp only [reduceCtorEq, false_iff]
    omega
  · rename_i h
    simp only [true_iff]
    omega

def add? (a b : Amount) : Option Amount := ofNat? (a.toNat + b.toNat)

def sub? (a b : Amount) : Option Amount :=
  if b.toNat ≤ a.toNat then
    some ⟨a.toNat - b.toNat, Nat.lt_of_le_of_lt (Nat.sub_le _ _) a.toNat_lt⟩
  else none

/-- The difference, or zero when the subtrahend is larger. -/
def sub (a b : Amount) : Amount :=
  ⟨a.toNat - b.toNat, Nat.lt_of_le_of_lt (Nat.sub_le _ _) a.toNat_lt⟩

instance : Sub Amount := ⟨sub⟩

/-- `a * num / den`, truncated. The product may exceed the bound, the quotient may not. -/
def mulDiv? (a num den : Amount) : Option Amount :=
  if den.isZero then none else ofNat? (a.toNat * num.toNat / den.toNat)

theorem add?_eq_some_iff {a b c : Amount} : a.add? b = some c ↔ a.toNat + b.toNat = c.toNat :=
  ofNat?_eq_some_iff

theorem add?_eq_none_iff {a b : Amount} :
    a.add? b = none ↔ 0x100000000000000000000000000000000 ≤ a.toNat + b.toNat :=
  ofNat?_eq_none_iff

theorem sub?_eq_some_iff {a b c : Amount} : a.sub? b = some c ↔ a.toNat = b.toNat + c.toNat := by
  unfold sub?
  split
  · rename_i h
    constructor
    · intro h'
      cases h'
      simp only
      omega
    · intro h'
      congr 1
      apply ext
      simp only
      omega
  · rename_i h
    simp only [reduceCtorEq, false_iff]
    omega

theorem sub?_eq_none_iff {a b : Amount} : a.sub? b = none ↔ a.toNat < b.toNat := by
  unfold sub?
  split
  · rename_i h
    simp only [reduceCtorEq, false_iff]
    omega
  · rename_i h
    simp only [true_iff]
    omega

@[simp] theorem toNat_sub (a b : Amount) : (a - b).toNat = a.toNat - b.toNat := rfl

@[simp] theorem toNat_zero : zero.toNat = 0 := rfl

def sum? (xs : List Amount) : Option Amount := ofNat? ((xs.map toNat).foldr (· + ·) 0)

def text (a : Amount) : String := Nat.repr a.toNat

end Amount

end StakeLock
