import StakeLock.Proofs.Mirror

/-!
# Extensions

The moves of an extension are tried on a copy of the schedule first. While the queue
mirrors the schedules nothing can go wrong after that, so an extension is made as a
whole or leaves everything as it is.
-/

namespace StakeLock

variable {now : Timestamp} {j : Journal} {account : LockupAccount}

namespace Store

variable {move : Move} {schedule : Schedule}

theorem Mirrors.moveLock_succeeds (h : Mirrors now (Draft.saved ⟨account, j.store⟩))
    (hlocked : isLocked now move.source) (hlt : move.source < move.target)
    (hne : move.amount ≠ Amount.zero)
    (hshift : account.schedule.shift move.source move.target move.amount = .ok schedule) :
    succeeds ((moveLock account move.source move.target move.amount).run j) := by
  have hdated : j.store.Dated := h.dated
  have hdates : move.source ≠ move.target := by
    intro heq
    rw [heq] at hlt
    exact Int.lt_irrefl _ hlt
  obtain ⟨⟨sourceTime, hsource⟩, targetTime, htarget⟩ := exists_unlockTimes hlocked hlt
  apply StakeLock.moveLock_succeeds hsource htarget hshift
  · rintro rfl
    exact hdates (unlockTime?_injective hsource htarget)
  · apply hdated.get?_of_queuedAt _ hne
    rw [← h.draft_ordered.amountOn_source hshift]
    exact h.draft_eq hsource hlocked
  · intro hgarbled
    obtain ⟨_, x, -, hx, -⟩ := hdated _ _ hgarbled
    cases hx
  · have hsum := Schedule.amountOn_target hshift hdates
    have hbound := (h.draft_ordered.shift hshift).amountOn_lt move.target
    have heq := h.draft_eq htarget (isLocked_of_lt hlt hlocked)
    simp only at heq
    omega

theorem Mirrors.moveLocks_succeeds {sender : Address} {bondDenom : String} {moves : List Move}
    {final : Schedule} (h : Mirrors now (Draft.saved ⟨account, j.store⟩))
    (hmoves : ∀ m ∈ moves, isLocked now m.source ∧ m.source < m.target ∧ m.amount ≠ Amount.zero)
    (hshift : account.schedule.shiftAll moves = .ok final) :
    succeeds ((moveLocks sender bondDenom account moves).run j) := by
  induction moves generalizing account j with
  | nil => rfl
  | cons move moves ih =>
    obtain ⟨schedule, hfirst, hrest⟩ := Schedule.shiftAll_cons hshift
    obtain ⟨hlocked, hlt, hne⟩ := hmoves move (List.mem_cons_self ..)
    obtain ⟨⟨sourceTime, hsource⟩, targetTime, htarget⟩ := exists_unlockTimes hlocked hlt
    rw [succeeds_iff]
    unfold moveLocks
    rw [ends_bind]
    apply ((ends_moveLock hsource htarget hfirst).of_succeeds
      (h.moveLock_succeeds hlocked hlt hne hfirst)).mono_ok
    rintro moved k ⟨rest, queued, htaken, hadded, rfl, hk⟩
    have hmoved : Mirrors now (Draft.saved ⟨{ account with schedule := schedule }, k.store⟩) := by
      rw [hk]
      exact h.move hsource htarget hne hfirst htaken hadded
    have hothers := ih hmoved (fun m hm => hmoves m (List.mem_cons_of_mem _ hm)) hrest
    rw [ends_bind]
    exact (succeeds_iff.1 hothers).mono_ok fun _ _ _ => trivial

end Store

theorem Draft.Moves.shiftAll_eq {d d' : Draft} {moves : List Move} (h : d.Moves moves d') :
    d.account.schedule.shiftAll moves = .ok d'.account.schedule := by
  induction h with
  | nil => rfl
  | cons _ _ hshift _ _ _ ih =>
    unfold Schedule.shiftAll at ih ⊢
    rw [List.foldlM_cons, hshift]
    exact ih

/-- After a copy of the schedule has taken all moves they are made, and the account gets
the schedule of the copy. -/
theorem Store.Mirrors.ends_moveLocks (h : j.store.Mirrors now) {sender : Address}
    {bondDenom : String} {moves : List Move} {final : Schedule}
    (hmoves : ∀ m ∈ moves, isLocked now m.source ∧ m.source < m.target ∧ m.amount ≠ Amount.zero)
    (haccount : j.store.lockup? sender = some account)
    (hshift : account.schedule.shiftAll moves = .ok final) :
    Ends (fun r _ => r.1 = { account with schedule := final }) (fun _ _ => False)
      ((moveLocks sender bondDenom account moves).run j) := by
  have hdraft : Mirrors now (Draft.saved ⟨account, j.store⟩) :=
    h.opens (.upgraded (account?_eq_of_lockup? haccount))
  have hdates : ∀ m ∈ moves, (∃ time, unlockTime? m.source = some time) ∧
      ∃ time, unlockTime? m.target = some time := by
    intro m hm
    obtain ⟨hlocked, hlt, -⟩ := hmoves m hm
    exact exists_unlockTimes hlocked hlt
  apply ((StakeLock.ends_moveLocks hdates hshift).of_succeeds
    (hdraft.moveLocks_succeeds hmoves hshift)).mono_ok
  rintro ⟨moved, events⟩ k ⟨hmoved, -⟩
  have hschedule : moved.schedule = final :=
    Except.ok.inj (hmoved.shiftAll_eq.symm.trans hshift)
  have hbase : moved.base = account.base := hmoved.base_eq
  rw [← hschedule, ← hbase]

/-- A request for extensions that cannot be planned leaves everything as it is, and one
that can be is carried out. -/
theorem Store.Mirrors.ends_executeExtend {σ : Type} [HostLedger σ] {c : Chain σ}
    (h : c.store.Mirrors now) {sender : Address} {extensions : List Extension} :
    Ends (fun _ c' => ∃ plan, planExtension now sender extensions c = .ok plan ∧
        c'.store.lockup? sender = some { plan.account with schedule := plan.final })
      (fun fault c' => c' = c ∧ ∃ reason, planExtension now sender extensions c = .error reason ∧
        fault = .refused reason)
      ((executeExtend now sender extensions).run c) := by
  rw [ends_executeExtend_iff, ends_bind, ends_accept]
  refine ⟨fun plan hplan => ?_, fun reason hplan => ⟨rfl, reason, hplan, rfl⟩⟩
  obtain ⟨hmoves, haccount, hfinal⟩ := of_planExtension hplan
  rw [ends_bind, ChainM.ends_onStore]
  refine (h.ends_moveLocks hmoves haccount hfinal).mono ?_ fun _ _ hnever => hnever.elim
  rintro ⟨moved, events⟩ k hmoved
  refine ⟨plan, hplan, ?_⟩
  have haddress : plan.account.address = sender := h.keyed.lockup_address haccount
  simp only at hmoved
  subst hmoved
  change (Draft.saved ⟨{ plan.account with schedule := plan.final }, k.store⟩).lockup? sender = _
  rw [lockup?_saved]
  exact if_pos haddress.symm

/-- A request for extensions that comes at or after the last block, to a store that a
host with an orderly clock can reach, fails only if it cannot be planned; it then leaves
the whole chain as it is, and the queue is never found out of step. Once a copy of the
schedule has taken the moves all of them are made, and the account gets the schedule of
the copy. -/
theorem extend_all_or_nothing {σ : Type} [HostLedger σ] [AddressRule] {c : Chain σ}
    {last : Timestamp} (h : Host.anyTotal.Reaches last c.store) (hnow : last ≤ now)
    (sender : Address) (extensions : List Extension) :
    (∀ fault c', (execute now sender (.extend extensions)).run c = .error fault c' →
      c' = c ∧ ∃ reason, planExtension now sender extensions c = .error reason ∧
        fault = .refused reason ∧ ∀ address time, reason ≠ .queueDesync address time) ∧
    ∀ plan, planExtension now sender extensions c = .ok plan →
      (∃ moved events j, (moveLocks sender plan.bondDenom plan.account plan.moves).run
        c.journal = .ok (moved, events) j ∧ moved.schedule = plan.final) ∧
      ∃ response c', (execute now sender (.extend extensions)).run c = .ok response c' ∧
        c'.store.lockup? sender = some { plan.account with schedule := plan.final } := by
  have hs : c.store.Mirrors now := h.mirrors hnow
  refine ⟨fun fault c' hrun => ?_, fun plan hplan => ⟨?_, ?_⟩⟩
  · obtain ⟨hsame, reason, hplan, hfault⟩ := hs.ends_executeExtend.of_error hrun
    refine ⟨hsame, reason, hplan, hfault, ?_⟩
    rintro address time rfl
    exact refuses_planExtension _ hplan trivial
  · obtain ⟨hmoves, haccount, hfinal⟩ := of_planExtension hplan
    obtain ⟨⟨moved, events⟩, k, hrun, hmoved⟩ :=
      (hs.ends_moveLocks hmoves haccount hfinal).exists_ok
    exact ⟨moved, events, k, hrun, congrArg LockupAccount.schedule hmoved⟩
  · have hsucceeds : Ends
        (fun _ c' => c'.store.lockup? sender = some { plan.account with schedule := plan.final })
        (fun _ _ => False) ((execute now sender (.extend extensions)).run c) := by
      refine hs.ends_executeExtend.mono ?_ ?_
      · rintro _ c' ⟨plan', hplan', hsaved⟩
        cases hplan.symm.trans hplan'
        exact hsaved
      · rintro _ c' ⟨-, reason, hnone, -⟩
        cases hplan.symm.trans hnone
    exact hsucceeds.exists_ok

namespace FirstLock

/-- The lock of alice is to be moved twice from its first date. -/
def stale : List Extension :=
  [⟨"1970-03-01", "1970-05-01", stake⟩, ⟨"1970-03-01", "1970-06-01", stake⟩]

/-- The lock of alice is to be moved, and moved on. -/
def chained : List Extension :=
  [⟨"1970-03-01", "1970-05-01", stake⟩, ⟨"1970-05-01", "1970-06-01", stake⟩]

def firstDate : Date := ⟨59, by decide, by decide⟩

def holder : LockupAccount :=
  ⟨⟨alice, none, 0, 0⟩, ⟨[⟨⟨59, by decide, by decide⟩, stake.amount⟩]⟩⟩

def plan : ExtensionPlan :=
  ⟨"stake", [⟨⟨59, by decide, by decide⟩, ⟨120, by decide, by decide⟩, stake.amount⟩,
    ⟨⟨120, by decide, by decide⟩, ⟨151, by decide, by decide⟩, stake.amount⟩], holder,
    ⟨[⟨⟨151, by decide, by decide⟩, stake.amount⟩]⟩⟩

end FirstLock

open FirstLock in
/-- The second of two moves from one date finds no lock, and the first one is not made
either. Moves of which the second goes on from the first are both made. -/
theorem first_lock_moved_or_kept :
    (∃ fault, (execute block.time alice (.extend stale)).run chain = .error fault chain) ∧
    (∃ moved events j, (moveLocks alice "stake" holder plan.moves).run chain.journal =
      .ok (moved, events) j ∧ moved.schedule = plan.final) ∧
    ∃ response c', (execute block.time alice (.extend chained)).run chain = .ok response c' ∧
      c'.store.lockup? alice = some { holder with schedule := plan.final } := by
  have hreached : Host.anyTotal.Reaches block.time chain.store := reached.anyTotal
  have hnow : block.time ≤ block.time := Nat.le_refl _
  constructor
  · have hfails : ¬succeeds ((execute block.time alice (.extend stale)).run chain) := by
      decide +kernel
    obtain ⟨fault, hrun⟩ := exists_error_of_not_succeeds hfails
    obtain ⟨hsame, -⟩ := (extend_all_or_nothing hreached hnow alice stale).1 fault _ hrun
    rw [hsame] at hrun
    exact ⟨fault, hrun⟩
  · have hplan : planExtension block.time alice chained chain = .ok plan := by decide +kernel
    exact (extend_all_or_nothing hreached hnow alice chained).2 plan hplan

end StakeLock
