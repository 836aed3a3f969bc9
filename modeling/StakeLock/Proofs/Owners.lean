import StakeLock.Proofs.ExactLock
import StakeLock.Proofs.FailedLock
import StakeLock.Proofs.FullBacking
import StakeLock.Proofs.Numbering

/-!
# Owners

What belongs to an address is its account and its part of the queue. A request for locks or
for extensions reads and changes nothing else of that kind, whether it succeeds or not, so the
requests of two owners share only the aggregate. To that both of them add, and what it has room
for does not depend on their order.
-/

namespace StakeLock

namespace Store

/-- Two stores hold the same for an address: its account, and its part of the queue. -/
structure AgreesOn (s : Store) (a : Address) (t : Store) : Prop where
  account : t.account? a = s.account? a
  entries : ∀ time, t.queue.get? ⟨time, a⟩ = s.queue.get? ⟨time, a⟩

variable {s s' t t' u u' : Store} {a b : Address} {e e' : Effect} {now : Timestamp}

namespace AgreesOn

theorem refl (s : Store) (a : Address) : s.AgreesOn a s := ⟨rfl, fun _ => rfl⟩

theorem symm (h : s.AgreesOn a t) : t.AgreesOn a s :=
  ⟨h.account.symm, fun time => (h.entries time).symm⟩

theorem trans (h : s.AgreesOn a t) (h' : t.AgreesOn a u) : s.AgreesOn a u :=
  ⟨h'.account.trans h.account, fun time => (h'.entries time).trans (h.entries time)⟩

theorem lockup?_eq (h : s.AgreesOn a t) : t.lockup? a = s.lockup? a := by
  unfold lockup?
  rw [h.account]

theorem lockedSum_eq (h : s.AgreesOn a t) (now : Timestamp) :
    t.lockedSum a now = s.lockedSum a now := by
  unfold lockedSum
  rw [h.lockup?_eq]

theorem lockedOn_eq (h : s.AgreesOn a t) (date : Date) : t.lockedOn a date = s.lockedOn a date := by
  unfold lockedOn lockedWhere
  rw [h.lockup?_eq]

theorem queuedAt_eq (h : s.AgreesOn a t) (time : Nat) :
    t.queuedAt ⟨time, a⟩ = s.queuedAt ⟨time, a⟩ := by
  unfold queuedAt
  rw [h.entries]

end AgreesOn

/-! ## Effects of different owners -/

theorem Undergoes.agreesOn_of_ne (hs : s.Keyed) (h : s.Undergoes a e t) (hne : b ≠ a) :
    s.AgreesOn b t :=
  ⟨h.account?_of_ne hs hne, fun _ => h.get?_of_ne hs hne⟩

theorem Opens.base_eq {account : LockupAccount} {stored : Account} (h : s.Opens a account t)
    (hstored : s.account? a = some stored) : account.base = stored.identity := by
  cases h with
  | upgraded hsome =>
    cases hstored.symm.trans hsome
    exact stored.base_upgrade
  | registered hnone _ => cases hstored.symm.trans hnone

theorem Undergoes.agreesOn (hs : s.Keyed) (hs' : s'.Keyed) (ht : t.Mirrors now)
    (ht' : t'.Mirrors now) (hstored : s.account? a ≠ none) (h : s.Undergoes a e t)
    (h' : s'.Undergoes a e t') (hsame : s.AgreesOn a s') : t.AgreesOn a t' := by
  constructor
  · obtain ⟨stored, hstored⟩ := Option.ne_none_iff_exists'.1 hstored
    obtain ⟨_, _, x, hopens, hx, hbase, -⟩ := h.exists_opens hs
    obtain ⟨_, _, y, hopens', hy, hbase', -⟩ := h'.exists_opens hs'
    have hidentity : y.base = x.base := by
      rw [hbase', hbase, hopens.base_eq hstored, hopens'.base_eq (hsame.account.trans hstored)]
    have hschedule : y.schedule = x.schedule := by
      have hx := lockup?_eq_some_iff.2 hx
      have hy := lockup?_eq_some_iff.2 hy
      apply (ht'.ordered hy).ext_amountOn (ht.ordered hx)
      intro date
      have hlocked := h.lockedOn_add hs date
      have hlocked' := h'.lockedOn_add hs' date
      rw [hsame.lockedOn_eq] at hlocked'
      have hleft : t.lockedOn a date = x.schedule.amountOn date := lockedWhere_of_lockup? hx _
      have hleft' : t'.lockedOn a date = y.schedule.amountOn date := lockedWhere_of_lockup? hy _
      omega
    rw [hx, hy]
    cases x
    cases y
    cases hidentity
    cases hschedule
    rfl
  · intro time
    apply ht.dated.get?_eq ht'.dated
    intro date (hdate : unlockTime? date = some time)
    have hqueued := h.queuedAt_add hs hdate
    have hqueued' := h'.queuedAt_add hs' hdate
    rw [hsame.queuedAt_eq] at hqueued'
    omega

/-- Another store differs in no more than the accounts, the queue and the aggregate. -/
def SameRest (s t : Store) : Prop :=
  t = { s with accounts := t.accounts, queue := t.queue, totalLocked := t.totalLocked }

theorem SameRest.trans (h : s.SameRest t) (h' : t.SameRest u) : s.SameRest u := by
  unfold SameRest at h h' ⊢
  rw [h', h]

theorem SameRest.unique (h : s.SameRest t) (h' : s.SameRest u) (hsame : ∀ a, t.AgreesOn a u)
    (hsum : u.total.toNat = t.total.toNat)
    (hwritten : u.totalLocked.isSome ↔ t.totalLocked.isSome) : u = t := by
  have haccounts : u.accounts = t.accounts := Table.ext_get? fun a => (hsame a).account
  have hqueue : u.queue = t.queue :=
    Table.ext_get? fun key => (hsame key.address).entries key.time
  rw [h, h', haccounts, hqueue, totalLocked_eq hsum hwritten]

theorem Undergoes.sameRest (hs : s.Keyed) (hstored : s.account? a ≠ none)
    (h : s.Undergoes a e t) : s.SameRest t := by
  obtain ⟨_, opened, _, hopens, -, -, hrest⟩ := h.exists_opens hs
  cases hopens with
  | upgraded _ => exact hrest
  | registered hnone _ => exact absurd hnone hstored

theorem Undergoes.unique (hs : s.Keyed) (ht : t.Mirrors now) (ht' : t'.Mirrors now)
    (hstored : s.account? a ≠ none) (h : s.Undergoes a e t) (h' : s.Undergoes a e t') :
    t' = t := by
  apply (h.sameRest hs hstored).unique (h'.sameRest hs hstored)
  · intro b
    by_cases hb : b = a
    · subst hb
      exact h.agreesOn hs hs ht ht' hstored h' (.refl s b)
    · exact (h.agreesOn_of_ne hs hb).symm.trans (h'.agreesOn_of_ne hs hb)
  · rw [h'.total_eq, h.total_eq]
  · rw [h'.isSome_totalLocked, h.isSome_totalLocked]

/-- Effects on the accounts of two owners can be had in either order. -/
theorem Undergoes.commute (hs : s.Mirrors now) (ht : t.Mirrors now) (hu : u.Mirrors now)
    (ht' : t'.Mirrors now) (hu' : u'.Mirrors now) (hne : a ≠ b) (ha : s.account? a ≠ none)
    (hb : s.account? b ≠ none) (hfirst : s.Undergoes a e t) (hsecond : t.Undergoes b e' u)
    (hfirst' : s.Undergoes b e' t') (hsecond' : t'.Undergoes a e u') : u' = u := by
  have hbefore : s.AgreesOn b t := hfirst.agreesOn_of_ne hs.keyed hne.symm
  have hbefore' : s.AgreesOn a t' := hfirst'.agreesOn_of_ne hs.keyed hne
  have hafter : t.AgreesOn a u := hsecond.agreesOn_of_ne ht.keyed hne
  have hafter' : t'.AgreesOn b u' := hsecond'.agreesOn_of_ne ht'.keyed hne.symm
  have hown : t.AgreesOn a u' :=
    hfirst.agreesOn hs.keyed ht'.keyed ht hu' ha hsecond' hbefore'
  have hown' : t'.AgreesOn b u :=
    hfirst'.agreesOn hs.keyed ht.keyed ht' hu hb hsecond hbefore
  have hall : ∀ x, u.AgreesOn x u' := by
    intro x
    by_cases hxa : x = a
    · subst hxa
      exact hafter.symm.trans hown
    · by_cases hxb : x = b
      · subst hxb
        exact hown'.symm.trans hafter'
      · have hforth := (hfirst.agreesOn_of_ne hs.keyed hxa).trans
          (hsecond.agreesOn_of_ne ht.keyed hxb)
        have hback := (hfirst'.agreesOn_of_ne hs.keyed hxb).trans
          (hsecond'.agreesOn_of_ne ht'.keyed hxa)
        exact hforth.symm.trans hback
  have hstored : t.account? b ≠ none := by
    rw [hbefore.account]
    exact hb
  have hstored' : t'.account? a ≠ none := by
    rw [hbefore'.account]
    exact ha
  have hrest : s.SameRest u :=
    (hfirst.sameRest hs.keyed ha).trans (hsecond.sameRest ht.keyed hstored)
  have hrest' : s.SameRest u' :=
    (hfirst'.sameRest hs.keyed hb).trans (hsecond'.sameRest ht'.keyed hstored')
  apply hrest.unique hrest' hall
  · rw [hsecond'.total_eq, hfirst'.total_eq, hsecond.total_eq, hfirst.total_eq]
    omega
  · rw [hsecond'.isSome_totalLocked, hfirst'.isSome_totalLocked, hsecond.isSome_totalLocked,
      hfirst.isSome_totalLocked]
    tauto

end Store

/-! ## Requests that fail -/

theorem LockFails.agreesOn {σ : Type} [HostLedger σ] {ledger : σ} {now : Timestamp} {s t : Store}
    {a b : Address} {locks : List (Date × Amount)} {fault : Fault LockError} (hs : s.Keyed)
    (hlocks : ∀ l ∈ locks, blockDate now ≤ l.1) (h : LockFails now ledger s a locks fault t)
    (hne : b ≠ a) : s.AgreesOn b t := by
  constructor
  · unfold Store.account?
    rw [h.accounts_eq]
  · intro time
    cases h with
    | unnumbered _ => rfl
    | unmeasured hopens _ _ => rw [hopens.queue_eq]
    | untold hopens _ => rw [hopens.queue_eq]
    | uncovered hopens _ _ _ => rw [hopens.queue_eq]
    | broken hopens hrun _ =>
      have hdates : ∀ l ∈ locks, ∃ time, unlockTime? l.1 = some time :=
        fun l hl => exists_unlockTime_of_blockDate_le (hlocks l hl)
      rw [← hopens.queue_eq]
      rw [← hopens.address_eq hs] at hne
      exact ((ends_addLocks hdates).of_error hrun).others _ hne

/-! ## Requests of one owner -/

/-- A request for locks or for extensions. -/
def Request.Own : Request → Prop
  | .lock _ | .extend _ => True
  | _ => False

section

variable {σ : Type} [HostLedger σ] {now : Timestamp} {c c' : Chain σ} {a b : Address}
variable {r : Request} {response response' : Response} {e e' : Effect}

/-- What a request for locks or extensions of an address with an account comes to, its answer
and its effect, if it passes all checks but that of the aggregate. -/
inductive Request.ComesTo (now : Timestamp) (c : Chain σ) (a : Address) :
    Request → Response → Effect → Prop
  | lock {entries plan delegated} : planLock now entries c = .ok plan →
      totalDelegated c.ledger a = .ok delegated →
      c.store.lockedSum a now + (plan.locks.map fun l => l.2.toNat).sum ≤ delegated.toNat →
      (∀ date, c.store.lockedOn a date + amountsOn plan.locks date < 2 ^ 128) →
      ComesTo now c a (.lock entries) ⟨[("action", "lock"), ("from", a.text)],
        plan.locks.map fun l => .locked a l.1 ⟨plan.bondDenom, l.2⟩⟩ (.ofLocks plan.locks)
  | extend {extensions plan} : planExtension now a extensions c = .ok plan →
      ComesTo now c a (.extend extensions) ⟨[("action", "extend"), ("from", a.text)],
        plan.moves.map fun m => .extended a m.source m.target ⟨plan.bondDenom, m.amount⟩⟩
        (.ofMoves plan.moves)

/-- Whatever else has changed, a request of an address comes to the same. -/
theorem Request.ComesTo.congr (h : Request.ComesTo now c a r response e)
    (hledger : c'.ledger = c.ledger) (hconfig : c'.store.config = c.store.config)
    (hsame : c.store.AgreesOn a c'.store) : Request.ComesTo now c' a r response e := by
  have hfound : c'.store.getConfig = c.store.getConfig := by
    unfold Store.getConfig
    rw [hconfig]
  cases h with
  | lock hplan htold hcovered hdates =>
    refine .lock ?_ (hledger ▸ htold) ?_ ?_
    · unfold planLock at hplan ⊢
      rw [hfound, hledger]
      exact hplan
    · rw [hsame.lockedSum_eq]
      exact hcovered
    · intro date
      rw [hsame.lockedOn_eq]
      exact hdates date
  | extend hplan =>
    refine .extend ?_
    unfold planExtension Store.lockup at hplan ⊢
    rw [hfound, hledger, hsame.lockup?_eq]
    exact hplan

theorem Request.ComesTo.unique (h : Request.ComesTo now c a r response e)
    (h' : Request.ComesTo now c a r response' e') : response = response' ∧ e = e' := by
  cases h with
  | lock hplan _ _ _ =>
    cases h' with
    | lock hplan' _ _ _ =>
      cases hplan.symm.trans hplan'
      exact ⟨rfl, rfl⟩
  | extend hplan =>
    cases h' with
    | extend hplan' =>
      cases hplan.symm.trans hplan'
      exact ⟨rfl, rfl⟩

variable [AddressRule]

namespace Store

variable (h : c.store.Mirrors now)

include h

/-- A request for locks or extensions of an address with an account has its effect when it
succeeds. When it fails, other addresses keep what they have. -/
theorem Mirrors.ends_own (hr : r.Own) : Ends
    (fun response c' => c'.ledger = c.ledger ∧ ∃ e, Request.ComesTo now c a r response e ∧
      c.store.Undergoes a e c'.store)
    (fun _ c' => c'.ledger = c.ledger ∧ ∀ b, b ≠ a → c.store.AgreesOn b c'.store)
    ((execute now a r).run c) := by
  cases r with
  | lock entries =>
    apply ends_executeLock_planned.mono
    · intro _ c' hlocked
      obtain ⟨plan, hplan, rfl, hledger, hlocks⟩ := hlocked
      have hne : ∀ l ∈ plan.locks, l.2 ≠ Amount.zero := fun l hl => (of_planLock hplan l hl).2
      have hadd := hlocks.addable h hne
      obtain ⟨delegated, htold, hcovered⟩ := hadd.covered
      exact ⟨hledger, _, .lock hplan htold hcovered hadd.fits.dates, hlocks.undergoes hne⟩
    · intro fault c' hfailed
      rcases hfailed with ⟨rfl, -⟩ | ⟨plan, hplan, hledger, hfails⟩
      · exact ⟨rfl, fun b _ => .refl _ b⟩
      · have hlocks := fun l hl => (of_planLock hplan l hl).1
        exact ⟨hledger, fun b hb => hfails.agreesOn h.keyed hlocks hb⟩
  | extend extensions =>
    apply (ends_executeExtend_planned.and h.ends_executeExtend).mono
    · intro _ c' hmoved
      obtain ⟨⟨plan, hplan, rfl, hledger, d, hdraft, hc'⟩, -⟩ := hmoved
      obtain ⟨-, haccount, -⟩ := of_planExtension hplan
      exact ⟨hledger, _, .extend hplan, plan.account, c.store, d,
        .upgraded (account?_eq_of_lockup? haccount), hdraft.alters, hc'⟩
    · intro fault c' hfailed
      obtain ⟨-, rfl, -⟩ := hfailed
      exact ⟨rfl, fun b _ => .refl _ b⟩
  | pay _ => exact hr.elim
  | payMany _ _ => exact hr.elim
  | updateConfig _ => exact hr.elim

theorem Mirrors.run_of_comesTo (hcomes : Request.ComesTo now c a r response e)
    (hstored : c.store.account? a ≠ none) (hroom : c.store.total.toNat + e.gain < 2 ^ 128) :
    ∃ c', (execute now a r).run c = .ok response c' ∧ c'.ledger = c.ledger ∧
      c.store.Undergoes a e c'.store := by
  have hsucceeds : succeeds ((execute now a r).run c) := by
    cases hcomes with
    | lock hplan htold hcovered hdates =>
      exact h.executeLock_succeeds hplan ⟨.inl hstored, ⟨_, htold, hcovered⟩, hroom, hdates⟩
    | extend hplan =>
      rw [succeeds_iff]
      apply h.ends_executeExtend.mono (fun _ _ _ => trivial)
      intro fault c' hfailed
      obtain ⟨-, reason, hnone, -⟩ := hfailed
      cases hplan.symm.trans hnone
  have hr : r.Own := by cases hcomes <;> trivial
  obtain ⟨response', hrun⟩ := exists_ok_of_succeeds hsucceeds
  obtain ⟨hledger, e', hcomes', hundergoes⟩ := (h.ends_own hr).of_ok hrun
  obtain ⟨rfl, rfl⟩ := hcomes.unique hcomes'
  exact ⟨_, hrun, hledger, hundergoes⟩

end Store

/-! ## Two owners -/

/-- Two owners with accounts, in a store that a host with an orderly clock can reach and at
any time from the last block on. A request for locks or extensions of the one leaves the ledger
and all that belongs to the other as it was, whether it succeeds or not. If their requests
succeed one after the other, then so they do the other way round, with the same answers and
the same store in the end. -/
theorem owners_do_not_interfere {last : Timestamp} (h : Host.anyTotal.Reaches last c.store)
    (hnow : last ≤ now) (hne : a ≠ b) (ha : c.store.account? a ≠ none)
    (hb : c.store.account? b ≠ none) {r r' : Request} (hr : r.Own) (hr' : r'.Own) :
    ((finalState ((execute now a r).run c)).ledger = c.ledger ∧
      c.store.AgreesOn b (finalState ((execute now a r).run c)).store) ∧
    ∀ response response' c' c'', (execute now a r).run c = .ok response c' →
      (execute now b r').run c' = .ok response' c'' →
      ∃ d' d'', (execute now b r').run c = .ok response' d' ∧
        (execute now a r).run d' = .ok response d'' ∧ d''.store = c''.store := by
  have hmirrors : ∀ {d d' : Chain σ} {x r response}, d.store.Mirrors now →
      (execute now x r).run d = .ok response d' → d'.store.Mirrors now := by
    intro d d' x r response hd hrun
    exact Host.maintains_mirrors_anyTotal.changes hd (ends_execute.of_ok hrun)
  have hs : c.store.Mirrors now := h.mirrors hnow
  constructor
  · have hkeeps : Ends (fun _ d => d.ledger = c.ledger ∧ c.store.AgreesOn b d.store)
        (fun _ d => d.ledger = c.ledger ∧ c.store.AgreesOn b d.store)
        ((execute now a r).run c) := by
      apply (hs.ends_own hr).mono
      · intro _ d hdone
        obtain ⟨hledger, e, -, hundergoes⟩ := hdone
        exact ⟨hledger, hundergoes.agreesOn_of_ne hs.keyed hne.symm⟩
      · intro _ d hfailed
        obtain ⟨hledger, hothers⟩ := hfailed
        exact ⟨hledger, hothers b hne.symm⟩
    exact hkeeps.finalState
  · intro response response' c' c'' hfirst hsecond
    have hs' := hmirrors hs hfirst
    obtain ⟨hledger, e, hcomes, hforth⟩ := (hs.ends_own hr).of_ok hfirst
    obtain ⟨-, e', hcomes', hforth'⟩ := (hs'.ends_own hr').of_ok hsecond
    have hbound := c''.store.total.toNat_lt
    rw [hforth'.total_eq, hforth.total_eq] at hbound
    have hown : c.store.AgreesOn b c'.store := hforth.agreesOn_of_ne hs.keyed hne.symm
    have hearly := hcomes'.congr hledger.symm (hforth.config_eq hs.keyed).symm hown.symm
    obtain ⟨d', hrun, hledger', hback⟩ := hs.run_of_comesTo hearly hb (by omega)
    have hd' := hmirrors hs hrun
    have hown' : c.store.AgreesOn a d'.store := hback.agreesOn_of_ne hs.keyed hne
    have hlate := hcomes.congr hledger' (hback.config_eq hs.keyed) hown'
    have hstored : d'.store.account? a ≠ none := by
      rw [hown'.account]
      exact ha
    have hroom : d'.store.total.toNat + e.gain < 2 ^ 128 := by
      rw [hback.total_eq]
      omega
    obtain ⟨d'', hrun', -, hback'⟩ := hd'.run_of_comesTo hlate hstored hroom
    refine ⟨d', d'', hrun, hrun', ?_⟩
    exact hforth.commute hs hs' (hmirrors hs' hsecond) hd' (hmirrors hd' hrun') hne ha hb hforth'
      hback hback'

end

namespace FirstLock

/-- The chain after alice has locked 50 tokens and made her payments. -/
def settled : Chain StrictLedger := finalState ((execute block.time alice gifts).run chain)

theorem reached_settled : Host.anyTotal.Reaches block.time settled.store := by
  have hrun : succeeds ((execute block.time alice gifts).run chain) := by decide +kernel
  obtain ⟨response, hok⟩ := exists_ok_of_succeeds hrun
  have hcall : ((Call.request alice gifts).run block).run chain = .ok response settled := hok
  exact .done reached.anyTotal (Nat.le_refl _) hcall

/-- Alice adds to the lock that she has, and locks until another date. -/
def addition : Request :=
  .lock [⟨"1970-03-01", "stake", tokens 20⟩, ⟨"1970-05-01", "stake", tokens 30⟩]

/-- Bob puts the first of his locks on the date of the second. -/
def joined : Request := .extend [⟨"1970-03-01", "1970-05-01", ⟨"stake", given⟩⟩]

end FirstLock

open FirstLock in
/-- Alice and bob have locks until the same dates, and it makes no difference which of them
goes first. -/
theorem alice_and_bob_in_either_order : ∃ response response' c' d', ∃ c'' d'' : Chain StrictLedger,
    (execute block.time alice addition).run settled = .ok response c' ∧
    (execute block.time bob joined).run c' = .ok response' c'' ∧
    (execute block.time bob joined).run settled = .ok response' d' ∧
    (execute block.time alice addition).run d' = .ok response d'' ∧ d''.store = c''.store := by
  have hne : alice ≠ bob := by decide
  have halice : settled.store.account? alice ≠ none := by decide +kernel
  have hbob : settled.store.account? bob ≠ none := by decide +kernel
  have hfirst : succeeds ((execute block.time alice addition).run settled) := by decide +kernel
  have hsecond : succeeds ((execute block.time bob joined).run
      (finalState ((execute block.time alice addition).run settled))) := by decide +kernel
  obtain ⟨response, hrun⟩ := exists_ok_of_succeeds hfirst
  obtain ⟨response', hrun'⟩ := exists_ok_of_succeeds hsecond
  have haddition : addition.Own := trivial
  have hjoined : joined.Own := trivial
  obtain ⟨-, heither⟩ := owners_do_not_interfere reached_settled (Nat.le_refl _) hne halice hbob
    haddition hjoined
  obtain ⟨d', d'', hback, hback', hsame⟩ := heither response response' _ _ hrun hrun'
  exact ⟨response, response', _, d', _, d'', hrun, hrun', hback, hback', hsame⟩

end StakeLock
