import StakeLock.Proofs.Accounts

/-!
# Account numbers

New accounts are numbered one after another, and a number may be used up by a call that
then saves no account. What identifies an account never changes, so no number is ever
given twice.
-/

namespace StakeLock

theorem Account.base_upgrade (account : Account) : account.upgrade.base = account.identity := by
  cases account <;> rfl

namespace Store

variable (s : Store)

/-- What identifies the account that is stored under an address. -/
def identity? (address : Address) : Option BaseAccount :=
  (s.account? address).map Account.identity

def nextNumber : Nat := s.nextAccountNumber.getD 0

/-- Accounts stand under their own addresses, and their numbers are different and have all
been given before. -/
structure Registered : Prop where
  keyed : s.Keyed
  distinct : ∀ {a b identity other}, s.identity? a = some identity → s.identity? b = some other →
    identity.number = other.number → a = b
  numbered : ∀ {a identity}, s.identity? a = some identity → identity.number < s.nextNumber

/-- Another store still has all accounts, as they were identified, and the same ones of them
with a schedule. -/
structure Kept (t : Store) : Prop where
  identity : ∀ {a identity}, s.identity? a = some identity → t.identity? a = some identity
  lockup : ∀ {a}, (s.lockup? a).isSome → (t.lockup? a).isSome

variable {s} {t u : Store} {d : Draft} {address : Address} {account : LockupAccount}

theorem kept_self : s.Kept s := ⟨id, id⟩

theorem Kept.trans (h : s.Kept t) (h' : t.Kept u) : s.Kept u :=
  ⟨fun ha => h'.identity (h.identity ha), fun ha => h'.lockup (h.lockup ha)⟩

theorem identity?_congr (h : t.accounts = s.accounts) : t.identity? = s.identity? := by
  funext a
  unfold identity? account?
  rw [h]

theorem lockup?_congr (h : t.accounts = s.accounts) : t.lockup? = s.lockup? := by
  funext a
  unfold lockup? account?
  rw [h]

theorem Requeued.nextNumber_eq (h : s.Requeued t) : t.nextNumber = s.nextNumber := by
  obtain ⟨queue, total, rfl⟩ := h
  rfl

theorem Registered.congr (hs : s.Registered) (hkeyed : t.Keyed) (hsame : t.identity? = s.identity?)
    (hnext : s.nextNumber ≤ t.nextNumber) : t.Registered where
  keyed := hkeyed
  distinct := by
    rw [hsame]
    exact hs.distinct
  numbered := by
    rw [hsame]
    intro a identity ha
    exact Nat.lt_of_lt_of_le (hs.numbered ha) hnext

theorem Registered.add (hs : s.Registered) (hkeyed : t.Keyed)
    (hnext : t.nextNumber = s.nextNumber + 1)
    (hadded : ∀ a, t.identity? a =
      if a = address then some ⟨address, none, s.nextNumber, 0⟩ else s.identity? a) :
    t.Registered := by
  have hcases : ∀ {a identity}, t.identity? a = some identity →
      a = address ∧ identity.number = s.nextNumber ∨ s.identity? a = some identity := by
    intro a identity ha
    rw [hadded] at ha
    split at ha
    · rename_i heq
      cases ha
      exact .inl ⟨heq, rfl⟩
    · exact .inr ha
  constructor
  · exact hkeyed
  · intro a b identity other ha hb hnumber
    rcases hcases ha with ⟨rfl, hnew⟩ | hold
    · rcases hcases hb with ⟨rfl, -⟩ | hother
      · rfl
      · have hlt := hs.numbered hother
        omega
    · have hlt := hs.numbered hold
      rcases hcases hb with ⟨rfl, hnew⟩ | hother
      · omega
      · exact hs.distinct hold hother hnumber
  · intro a identity ha
    rw [hnext]
    rcases hcases ha with ⟨-, hnew⟩ | hold
    · rw [hnew]
      exact Nat.lt_succ_self _
    · exact Nat.lt_succ_of_lt (hs.numbered hold)

theorem Requeued.registered (h : s.Requeued t) (hs : s.Registered) : t.Registered :=
  hs.congr (hs.keyed.of_accounts_eq h.accounts_eq) (identity?_congr h.accounts_eq)
    h.nextNumber_eq.ge

theorem Requeued.kept (h : s.Requeued t) : s.Kept t := by
  constructor
  · rw [identity?_congr h.accounts_eq]
    exact id
  · rw [lockup?_congr h.accounts_eq]
    exact id

theorem identity?_of_lockup? (h : s.lockup? address = some account) :
    s.identity? address = some account.base := by
  unfold identity?
  rw [account?_eq_of_lockup? h]
  rfl

theorem Keyed.identity_address (hs : s.Keyed) {identity : BaseAccount}
    (h : s.identity? address = some identity) : identity.address = address := by
  unfold identity? at h
  obtain ⟨account, haccount, rfl⟩ := Option.map_eq_some_iff.1 h
  have haddress := hs address account haccount
  cases account <;> exact haddress

theorem identity?_saved (haccounts : d.store.accounts = s.accounts)
    (haddress : d.account.address = address) (a : Address) :
    d.saved.identity? a = if a = address then some d.account.base else s.identity? a := by
  unfold identity?
  rw [account?_saved, haddress]
  unfold account?
  rw [haccounts]
  split <;> rfl

theorem identity?_saved_of_base (hs : s.Keyed) (haccounts : d.store.accounts = s.accounts)
    {base : BaseAccount} (hold : s.identity? address = some base) (hbase : d.account.base = base) :
    d.saved.identity? = s.identity? := by
  have haddress : d.account.address = address := by
    rw [LockupAccount.address, hbase]
    exact hs.identity_address hold
  funext a
  rw [identity?_saved haccounts haddress]
  split
  · rename_i ha
    rw [ha, hold, hbase]
  · rfl

end Store

open Store

variable {now : Timestamp} {terms : Option Config} {s t : Store}

/-- A change leaves all identities as they are, and may use up numbers, or it gives the next
number to a new account. -/
theorem Change.identities (h : Change now terms s t) (hs : s.Keyed) :
    (t.identity? = s.identity? ∧ s.nextNumber ≤ t.nextNumber) ∨
    ∃ address, s.identity? address = none ∧ t.nextNumber = s.nextNumber + 1 ∧
      ∀ a, t.identity? a =
        if a = address then some ⟨address, none, s.nextNumber, 0⟩ else s.identity? a := by
  cases h with
  | version _ => exact .inl ⟨rfl, le_rfl⟩
  | configure _ => exact .inl ⟨rfl, le_rfl⟩
  | register _ => exact .inl ⟨rfl, Nat.le_succ _⟩
  | lock hopens _ hadds =>
    have haccounts := hadds.requeued.accounts_eq.trans hopens.accounts_eq
    have hnext := hadds.requeued.nextNumber_eq
    have hbase := hadds.base_eq
    cases hopens with
    | @upgraded account haccount =>
      left
      have hold : s.identity? _ = some account.identity := congrArg _ haccount
      exact ⟨identity?_saved_of_base hs haccounts hold (hbase.trans account.base_upgrade),
        hnext.ge⟩
    | registered hnone _ =>
      right
      refine ⟨_, congrArg _ hnone, hnext, fun a => ?_⟩
      rw [identity?_saved haccounts (congrArg BaseAccount.address hbase), hbase]
      rfl
  | extend haccount _ hmoves =>
    left
    exact ⟨identity?_saved_of_base hs hmoves.requeued.accounts_eq (identity?_of_lockup? haccount)
      hmoves.base_eq, hmoves.requeued.nextNumber_eq.ge⟩
  | clear haccount hreleases =>
    left
    exact ⟨identity?_saved_of_base hs hreleases.requeued.accounts_eq
      (identity?_of_lockup? haccount) rfl, hreleases.requeued.nextNumber_eq.ge⟩
  | sweep _ => exact .inl ⟨rfl, le_rfl⟩

theorem Change.registered (h : Change now terms s t) (hs : s.Registered) : t.Registered := by
  have hkeyed := h.keyed hs.keyed
  rcases h.identities hs.keyed with ⟨hsame, hnext⟩ | ⟨address, -, hnext, hadded⟩
  · exact hs.congr hkeyed hsame hnext
  · exact hs.add hkeyed hnext hadded

theorem Change.kept (h : Change now terms s t) (hs : s.Keyed) : s.Kept t where
  lockup := h.isSome_lockup?
  identity := by
    intro a identity ha
    rcases h.identities hs with ⟨hsame, -⟩ | ⟨address, hnone, -, hsame⟩
    · rw [hsame, ha]
    · rw [hsame, if_neg, ha]
      rintro rfl
      rw [hnone] at ha
      cases ha

namespace Host

/-- A host that begins with accounts in order. It keeps what failed calls wrote, and its
blocks come in any order of time. -/
def numbered : Host := ⟨Store.Registered, fun _ _ => True, fun _ => True⟩

theorem maintains_registered : numbered.Maintains fun _ s => s.Registered where
  starts hs := hs
  follows _ hs := hs
  change hs hchange := hchange.registered hs
  torn hs _ htorn := htorn.2.registered hs

theorem carries_kept : numbered.Carries (fun _ s => s.Registered) Store.Kept where
  refl _ := kept_self
  trans := Kept.trans
  change hs hchange := hchange.kept hs.keyed
  torn _ _ htorn := htorn.2.kept

/-- Whatever calls are made, in blocks of any times and with any ledgers, and whatever a
failed call leaves behind: accounts stay under their own addresses, with numbers that are
different and below the next one. Every account that a store on the way holds is still there
with the same address, key, number and sequence, and with a schedule if it had one. -/
theorem accounts_keep_identity {steps : List Step} (h : numbered.Runs now steps s) :
    s.Registered ∧ ∀ step ∈ steps, step.before.Kept s ∧ step.after.Kept s :=
  ⟨maintains_registered.reaches h.reaches, carries_kept.runs maintains_registered h⟩

end Host

namespace FirstLock

/-- The chain before the first lock, with a base account that alice had before. -/
def known : Chain StrictLedger :=
  ⟨⟨{ start.store with
      accounts := Table.empty.insert alice (.base ⟨alice, none, 7, 3⟩)
      nextAccountNumber := some 8 }, []⟩, ledger⟩

theorem known_registered : known.store.Registered := by
  have hidentity : ∀ {a identity}, known.store.identity? a = some identity →
      a = alice ∧ identity = ⟨alice, none, 7, 3⟩ := by
    intro a identity h
    change (Option.map _ ((Table.empty.insert alice _).get? a)) = _ at h
    rw [Table.get?_insert] at h
    split at h
    · rename_i ha
      cases h
      exact ⟨ha, rfl⟩
    · cases h
  constructor
  · intro a account haccount
    have hfound : known.store.identity? a = some account.identity := congrArg _ haccount
    obtain ⟨rfl, hsame⟩ := hidentity hfound
    have haddress := congrArg BaseAccount.address hsame
    cases account <;> exact haddress
  · intro a b identity other ha hb _
    rw [(hidentity ha).1, (hidentity hb).1]
  · intro a identity ha
    rw [(hidentity ha).2]
    decide

end FirstLock

open FirstLock in
/-- The account that alice had before her first lock is upgraded, and keeps its number. -/
theorem known_account_keeps_identity : ∃ steps s, Host.numbered.Runs block.time steps s ∧
    s.Registered ∧ (s.lockup? alice).isSome ∧ s.identity? alice = some ⟨alice, none, 7, 3⟩ := by
  have hstart : Host.numbered.Runs block.time [] known.store := .start known_registered
  have hrun : succeeds ((call.run block).run known) := by decide +kernel
  have hlockup : ((finalState ((call.run block).run known)).store.lockup? alice).isSome := by
    decide +kernel
  obtain ⟨response, hok⟩ := exists_ok_of_succeeds hrun
  have hlocked := hstart.done trivial hok
  obtain ⟨hregistered, hkept⟩ := Host.accounts_keep_identity hlocked
  obtain ⟨hbefore, -⟩ := hkept _ (List.mem_singleton_self _)
  exact ⟨_, _, hlocked, hregistered, hlockup, hbefore.identity rfl⟩

end StakeLock
