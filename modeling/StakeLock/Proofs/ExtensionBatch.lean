import StakeLock.Proofs.Owners

/-!
# Extensions together and one by one

The extensions of one request are all planned before the first of them is made, on a copy of
the schedule, and the account is saved once. Single extensions are planned each on what those
before it have left. That is where the copy was at that point, so both ways plan the same moves,
and what single moves do to the store adds up to what all of them do together.
-/

namespace StakeLock

section

variable {σ : Type} [HostLedger σ]
variable {now : Timestamp} {sender : Address} {config : Config} {c m : Chain σ}
variable {extension next : Extension} {extensions : List Extension}
variable {plan first others : ExtensionPlan}

/-- Separate requests for extensions, one after another, with the events of all. -/
def executeExtends [AddressRule] (now : Timestamp) (sender : Address) :
    List Extension → ChainM σ (List Event)
  | [] => return []
  | extension :: extensions => do
    let first ← execute now sender (.extend [extension])
    let rest ← executeExtends now sender extensions
    return first.events ++ rest

/-! ## Plans -/

def ExtensionPlan.events (plan : ExtensionPlan) (sender : Address) : List Event :=
  plan.moves.map fun m => .extended sender m.source m.target ⟨plan.bondDenom, m.amount⟩

theorem Schedule.shiftAll_append (s : Schedule) (moves later : List Move) :
    s.shiftAll (moves ++ later) = s.shiftAll moves >>= fun t => t.shiftAll later :=
  List.foldlM_append

theorem planExtension_eq_ok_iff (hconfig : c.store.config = some config) :
    planExtension now sender extensions c = .ok plan ↔
      (1 ≤ extensions.length ∧ extensions.length ≤ config.maxEntries) ∧
      HostLedger.bondDenom c.ledger = .ok plan.bondDenom ∧
      List.Forall₂ (fun x m => x.check config plan.bondDenom now = .ok m) extensions plan.moves ∧
      c.store.lockup? sender = some plan.account ∧
      plan.account.schedule.shiftAll plan.moves = .ok plan.final := by
  unfold planExtension
  simp only [except_bind_eq_ok_iff, mapError_eq_ok_iff, Store.getConfig_eq_ok_iff, hconfig,
    mapM_eq_ok_iff, Store.lockup_eq_ok_iff]
  constructor
  · rintro ⟨_, heq, _, hcount, _, hdenom, _, hmoves, _, haccount, _, hfinal, hplan⟩
    cases heq
    cases hplan
    exact ⟨Config.checkEntryCount_eq_ok_iff.1 hcount, hdenom, hmoves, haccount, hfinal⟩
  · rintro ⟨hcount, hdenom, hmoves, haccount, hfinal⟩
    exact ⟨config, rfl, (), Config.checkEntryCount_eq_ok_iff.2 hcount, _, hdenom, _, hmoves, _,
      haccount, _, hfinal, rfl⟩

section

variable (hconfig : c.store.config = some config)

include hconfig

theorem exists_planExtension_head
    (h : planExtension now sender (extension :: extensions) c = .ok plan) :
    ∃ first, planExtension now sender [extension] c = .ok first := by
  obtain ⟨hcount, hdenom, hmoves, haccount, hfinal⟩ := (planExtension_eq_ok_iff hconfig).1 h
  obtain ⟨move, moves, hmove, -, heq⟩ := List.forall₂_cons_left_iff.1 hmoves
  rw [heq, ← List.singleton_append, Schedule.shiftAll_append] at hfinal
  obtain ⟨moved, hone, -⟩ := except_bind_eq_ok_iff.1 hfinal
  have hleast : 1 ≤ config.maxEntries := hcount.1.trans hcount.2
  exact ⟨⟨plan.bondDenom, [move], plan.account, moved⟩, (planExtension_eq_ok_iff hconfig).2
    ⟨⟨le_rfl, hleast⟩, hdenom, .cons hmove .nil, haccount, hone⟩⟩

variable (hfirst : planExtension now sender [extension] c = .ok first)
variable (hledger : m.ledger = c.ledger) (hkept : m.store.config = c.store.config)
variable (hmoved : m.store.lockup? sender = some { first.account with schedule := first.final })

include hfirst hledger hkept hmoved

/-- A plan for the first extension and one for the others, made after it, are a plan for all. -/
theorem planExtension_cons (hcount : (extension :: next :: extensions).length ≤ config.maxEntries)
    (hothers : planExtension now sender (next :: extensions) m = .ok others) :
    others.bondDenom = first.bondDenom ∧
      planExtension now sender (extension :: next :: extensions) c =
        .ok ⟨first.bondDenom, first.moves ++ others.moves, first.account, others.final⟩ := by
  obtain ⟨-, hdenom, hmove, haccount, hone⟩ := (planExtension_eq_ok_iff hconfig).1 hfirst
  obtain ⟨-, hdenom', hmoves, haccount', hfinal⟩ :=
    (planExtension_eq_ok_iff (hkept.trans hconfig)).1 hothers
  rw [hledger, hdenom, Except.ok.injEq] at hdenom'
  rw [hmoved, Option.some.injEq] at haccount'
  rw [← hdenom'] at hmoves
  rw [← haccount'] at hfinal
  refine ⟨hdenom'.symm, (planExtension_eq_ok_iff hconfig).2
    ⟨⟨Nat.succ_pos _, hcount⟩, hdenom, List.rel_append hmove hmoves, haccount, ?_⟩⟩
  rw [Schedule.shiftAll_append, hone]
  exact hfinal

theorem exists_planExtension_tail
    (h : planExtension now sender (extension :: next :: extensions) c = .ok plan) :
    ∃ others, planExtension now sender (next :: extensions) m = .ok others := by
  obtain ⟨-, hdenom, hmove, haccount, hone⟩ := (planExtension_eq_ok_iff hconfig).1 hfirst
  obtain ⟨hcount, hdenom', hmoves, haccount', hfinal⟩ := (planExtension_eq_ok_iff hconfig).1 h
  rw [hdenom, Except.ok.injEq] at hdenom'
  rw [haccount, Option.some.injEq] at haccount'
  rw [← hdenom'] at hmoves
  rw [← haccount'] at hfinal
  obtain ⟨move, rest, hchecked, hnil, hfirstMoves⟩ := List.forall₂_cons_left_iff.1 hmove
  obtain ⟨move', moves, hchecked', hothers, hplanMoves⟩ := List.forall₂_cons_left_iff.1 hmoves
  cases List.forall₂_nil_left_iff.1 hnil
  cases hchecked.symm.trans hchecked'
  rw [hfirstMoves] at hone
  rw [hplanMoves, ← List.singleton_append, Schedule.shiftAll_append, hone] at hfinal
  refine ⟨⟨first.bondDenom, moves, { first.account with schedule := first.final }, plan.final⟩,
    (planExtension_eq_ok_iff (hkept.trans hconfig)).2
      ⟨⟨Nat.succ_pos _, (Nat.le_succ _).trans hcount.2⟩, ?_, hothers, hmoved, hfinal⟩⟩
  rw [hledger]
  exact hdenom

end

/-! ## Runs -/

theorem Store.Mirrors.ends_extend [AddressRule] (h : c.store.Mirrors now) (sender : Address)
    (extensions : List Extension) : Ends
    (fun response c' => ∃ plan, planExtension now sender extensions c = .ok plan ∧
      response.events = plan.events sender ∧ c'.ledger = c.ledger ∧ c'.store.Mirrors now ∧
      c'.store.lockup? sender = some { plan.account with schedule := plan.final } ∧
      c.store.Undergoes sender (.ofMoves plan.moves) c'.store)
    (fun _ _ => ∃ reason, planExtension now sender extensions c = .error reason)
    ((execute now sender (.extend extensions)).run c) := by
  apply (((h.ends_own (r := .extend extensions) trivial).and h.ends_executeExtend).and
    ends_execute).mono
  · rintro response c' ⟨⟨⟨hledger, e, hcomes, hundergoes⟩, plan, hplan, hmoved⟩, hchanges⟩
    cases hcomes with
    | extend hplan' =>
      cases hplan.symm.trans hplan'
      exact ⟨plan, hplan, rfl, hledger,
        Host.maintains_mirrors_anyTotal.changes h hchanges, hmoved, hundergoes⟩
  · rintro fault c' ⟨⟨-, -, reason, hnone, -⟩, -⟩
    exact ⟨reason, hnone⟩

/-- Single extensions come to what a plan for all of them says, and all succeed if there is one. -/
theorem Store.Mirrors.ends_executeExtends [AddressRule] (h : c.store.Mirrors now)
    (hconfig : c.store.config = some config) (sender : Address)
    (hcount : (extension :: extensions).length ≤ config.maxEntries) : Ends
    (fun events c' => ∃ plan, planExtension now sender (extension :: extensions) c = .ok plan ∧
      events = plan.events sender ∧ c'.ledger = c.ledger ∧ c'.store.Mirrors now ∧
      c.store.Undergoes sender (.ofMoves plan.moves) c'.store)
    (fun _ _ => ∃ reason, planExtension now sender (extension :: extensions) c = .error reason)
    ((executeExtends now sender (extension :: extensions)).run c) := by
  induction extensions generalizing extension c with
  | nil =>
    unfold executeExtends
    rw [ends_bind]
    apply (h.ends_extend sender _).mono_ok
    rintro response m ⟨plan, hplan, hevents, hledger, hm, -, hundergoes⟩
    refine ⟨plan, hplan, ?_, hledger, hm, hundergoes⟩
    rw [List.append_nil]
    exact hevents
  | cons next extensions ih =>
    unfold executeExtends
    rw [ends_bind]
    apply (h.ends_extend sender _).mono
    · rintro response m ⟨first, hfirst, hevents, hledger, hm, hmoved, hundergoes⟩
      have hkept : m.store.config = c.store.config := hundergoes.config_eq h.keyed
      rw [ends_bind]
      apply (ih hm (hkept.trans hconfig) ((Nat.le_succ _).trans hcount)).mono
      · rintro rest c' ⟨others, hothers, rfl, hledger', hc', hundergoes'⟩
        obtain ⟨hdenom, hplan⟩ :=
          planExtension_cons hconfig hfirst hledger hkept hmoved hcount hothers
        refine ⟨_, hplan, ?_, hledger'.trans hledger, hc', ?_⟩
        · rw [hevents]
          unfold ExtensionPlan.events
          rw [List.map_append, hdenom]
        · rw [Effect.ofMoves_append]
          exact hundergoes.trans h.keyed hundergoes'
      · rintro _ _ ⟨reason, hnone⟩
        cases hplan : planExtension now sender (extension :: next :: extensions) c with
        | error reason => exact ⟨reason, rfl⟩
        | ok plan =>
          obtain ⟨others, hothers⟩ :=
            exists_planExtension_tail hconfig hfirst hledger hkept hmoved hplan
          cases hnone.symm.trans hothers
    · rintro _ _ ⟨reason, hnone⟩
      cases hplan : planExtension now sender (extension :: next :: extensions) c with
      | error reason => exact ⟨reason, rfl⟩
      | ok plan =>
        obtain ⟨first, hfirst⟩ := exists_planExtension_head hconfig hplan
        cases hnone.symm.trans hfirst

end

/-- In every store that a host with an orderly clock can reach and at any time from the last
block on: as many extensions as one request may carry succeed in one request exactly if they
succeed as separate requests one after another. Both ways then leave the same store and ledger,
and announce the same events in the same order. -/
theorem extensions_together_or_singly {σ : Type} [HostLedger σ] [AddressRule] {c : Chain σ}
    {now last : Timestamp} {config : Config} (h : Host.anyTotal.Reaches last c.store)
    (hnow : last ≤ now) (hconfig : c.store.config = some config) (sender : Address)
    {extensions : List Extension}
    (hcount : 1 ≤ extensions.length ∧ extensions.length ≤ config.maxEntries) :
    ((∃ response c', (execute now sender (.extend extensions)).run c = .ok response c') ↔
      ∃ events c', (executeExtends now sender extensions).run c = .ok events c') ∧
    ∀ response c' events c'', (execute now sender (.extend extensions)).run c = .ok response c' →
      (executeExtends now sender extensions).run c = .ok events c'' →
      c''.store = c'.store ∧ c''.ledger = c'.ledger ∧ events = response.events := by
  have hs : c.store.Mirrors now := h.mirrors hnow
  obtain ⟨extension, rest, rfl⟩ := List.exists_cons_of_length_pos hcount.1
  have htogether := hs.ends_extend sender (extension :: rest)
  have hsingly := hs.ends_executeExtends hconfig sender hcount.2
  refine ⟨htogether.exists_ok_iff.trans hsingly.exists_ok_iff.symm, ?_⟩
  intro response c' events c'' hrun hrun'
  obtain ⟨plan, hplan, hevents, hledger, hc', hmoved, hundergoes⟩ := htogether.of_ok hrun
  obtain ⟨plan', hplan', hevents', hledger', hc'', hundergoes'⟩ := hsingly.of_ok hrun'
  cases hplan.symm.trans hplan'
  obtain ⟨-, haccount, -⟩ := of_planExtension hplan
  have hstored : c.store.account? sender ≠ none := by
    rw [Store.account?_eq_of_lockup? haccount]
    exact Option.some_ne_none _
  exact ⟨hundergoes.unique hs.keyed hc' hc'' hstored hundergoes', hledger'.trans hledger.symm,
    hevents'.trans hevents.symm⟩

open FirstLock in
/-- The lock of alice is moved, and moved on, by one request or by two. -/
theorem first_lock_moved_singly : ∃ response c' c'',
    (execute block.time alice (.extend chained)).run chain = .ok response c' ∧
    (executeExtends block.time alice chained).run chain = .ok response.events c'' ∧
    c''.store = c'.store := by
  have hconfig : chain.store.config = some ⟨alice, 0, 24, 100⟩ := by decide +kernel
  have hcount : 1 ≤ chained.length ∧ chained.length ≤ 100 := by decide
  obtain ⟨hiff, hsame⟩ := extensions_together_or_singly reached.anyTotal (Nat.le_refl _) hconfig
    alice hcount
  obtain ⟨response, hrun⟩ := exists_ok_of_succeeds (r := (execute block.time alice
    (.extend chained)).run chain) (by decide +kernel)
  obtain ⟨events, c'', hrun'⟩ := hiff.1 ⟨response, _, hrun⟩
  obtain ⟨hstore, -, rfl⟩ := hsame _ _ _ _ hrun hrun'
  exact ⟨response, _, c'', hrun, hrun', hstore⟩

end StakeLock
