import StakeLock.Hook
import StakeLock.Proofs.Outcome.Queue

/-!
# Outcomes of the sweep

A sweep that is not halted removes exactly the due entries, announces each of
them, and takes their sum off the aggregate.
-/

namespace StakeLock

namespace Store

variable {s : Store}

/-- Entries that decode, as they stand in the queue. -/
def entriesOf (amounts : List (QueueKey × Amount)) : List (QueueKey × QueueEntry) :=
  amounts.map fun e => (e.1, .holds e.2)

theorem readEntries_eq_ok {es : List (QueueKey × QueueEntry)} {amounts : List (QueueKey × Amount)}
    (h : readEntries es = .ok amounts) : es = entriesOf amounts := by
  induction es generalizing amounts with
  | nil =>
    cases h
    rfl
  | cons e es ih =>
    obtain ⟨key, entry⟩ := e
    cases entry with
    | garbled => cases h
    | holds amount =>
      cases hes : readEntries es with
      | error cause =>
        simp only [readEntries, QueueEntry.read, hes, bind, Except.bind] at h
        cases h
      | ok rest =>
        simp only [readEntries, QueueEntry.read, hes, bind, Except.bind, pure, Except.pure] at h
        cases h
        rw [ih hes]
        rfl

theorem map_fst_entriesOf (amounts : List (QueueKey × Amount)) :
    (entriesOf amounts).map Prod.fst = amounts.map Prod.fst := by
  simp [entriesOf]

theorem sum_value_entriesOf (amounts : List (QueueKey × Amount)) :
    ((entriesOf amounts).map fun e => e.2.value).sum =
      (amounts.map fun e => e.2.toNat).sum := by
  unfold entriesOf
  rw [List.map_map]
  rfl

end Store

/-- What a sweep announces for an entry. -/
def expiry (e : QueueKey × Amount) : Event := .expired e.1.address (.ofTime e.1.time) e.2

namespace Sweep

variable {j : Journal}

/-- The state of a sweep that has visited some entries without being halted. -/
structure Visited (before after : Sweep (Amount × List Event))
    (due : List (QueueKey × Amount)) : Prop where
  halted : after.halted = none
  count : after.count = before.count + due.length
  total : before.gathered.1.toNat = (due.map fun e => e.2.toNat).sum + after.gathered.1.toNat
  events : after.gathered.2 = before.gathered.2 ++ due.map expiry

/-- A sweep is halted only by an aggregate that is less than what is due. -/
theorem ends_visitAll {before : Sweep (Amount × List Event)} (due : List (QueueKey × Amount))
    (hbefore : before.halted = none) : Ends
    (fun after k => (Visited before after due ∧ k.store = j.store.withQueue
        ((due.map Prod.fst).foldl Table.erase j.store.queue) j.store.totalLocked) ∨
      ∃ cause, after.halted = some (.system cause) ∧ j.store.Requeued k.store ∧
        before.gathered.1.toNat < (due.map fun e => e.2.toNat).sum)
    (fun _ _ => False) ((visitAll releaseEntry before due).run j) := by
  induction due generalizing before j with
  | nil => exact .inl ⟨⟨hbefore, rfl, by simp, by simp⟩, rfl⟩
  | cons e due ih =>
    obtain ⟨key, amount⟩ := e
    unfold visitAll releaseEntry
    cases hsub : before.gathered.1.checkedSub amount with
    | error cause =>
      have hless := Amount.lt_of_checkedSub_eq_error hsub
      refine .inr ⟨cause, rfl, j.store.requeued_self, ?_⟩
      simp only [List.map_cons, List.sum_cons]
      omega
    | ok total =>
      have hsum := Amount.checkedSub_eq_ok_iff.1 hsub
      simp only [Except.mapError, bind, Except.bind, pure, Except.pure]
      refine (ih (j := { j with store := j.store.dequeue key }) ?_).mono_ok ?_
      · exact hbefore
      rintro after k (⟨hv, hk⟩ | ⟨cause, hhalt, hk, hless⟩)
      · have hcount := hv.count
        have htotal := hv.total
        have hevents := hv.events
        simp only at hcount htotal hevents
        refine .inl ⟨⟨hv.halted, ?_, ?_, ?_⟩, hk⟩
        · rw [hcount, List.length_cons]
          omega
        · simp only [List.map_cons, List.sum_cons]
          omega
        · rw [hevents, List.map_cons, List.append_assoc]
          rfl
      · refine .inr ⟨cause, hhalt, (j.store.requeued_dequeue key).trans hk, ?_⟩
        simp only [List.map_cons, List.sum_cons] at hless ⊢
        omega

end Sweep

theorem ends_endBlock_or_short {j : Journal} {block : Block} : Ends
    (fun r k => ∃ amounts, j.store.due block.time.seconds = Store.entriesOf amounts ∧
      r = ⟨[("action", "end_block"), ("swept", Nat.repr amounts.length)], amounts.map expiry⟩ ∧
      (amounts = [] ∧ k.store = j.store ∨ amounts ≠ [] ∧ ∃ total,
        j.store.total.toNat = (amounts.map fun e => e.2.toNat).sum + total.toNat ∧
        k.store = j.store.withQueue
          (j.store.queue.filter fun e => !decide (e.1.time ≤ block.time.seconds)) (some total)))
    (fun fault k => Torn j.store fault k.store ∧
      ∀ amounts, j.store.dueEntries block.time.seconds = .ok amounts →
        j.store.total.toNat < (amounts.map fun e => e.2.toNat).sum)
    ((endBlock block).run j) := by
  unfold endBlock Sweep.run
  rw [ends_bind, StoreM.ends_getStore]
  simp only
  rw [ends_bind, ends_bind, StoreM.ends_getStore, ends_bind, ends_acceptSystem]
  refine ⟨fun amounts hamounts => ?_, fun cause hcause =>
    ⟨torn_self (not_ordinary_system cause), fun amounts hamounts => by
      rw [hcause] at hamounts
      cases hamounts⟩⟩
  have hdue : j.store.due block.time.seconds = Store.entriesOf amounts :=
    Store.readEntries_eq_ok hamounts
  refine (Sweep.ends_visitAll amounts rfl).mono ?_ fun _ _ he => he.elim
  rintro after k (⟨hv, hk⟩ | ⟨cause, hhalt, hk, hless⟩)
  · rw [hv.halted]
    have hcount := hv.count
    have hevents := hv.events
    have htotal := hv.total
    simp only [Nat.zero_add, List.nil_append] at hcount hevents htotal
    simp only
    rw [ends_ite]
    refine ⟨fun hpos => ?_, fun hnot => ?_⟩
    · refine ⟨amounts, hdue, by rw [hcount, hevents], .inr ⟨?_, after.gathered.1, htotal, ?_⟩⟩
      · rintro rfl
        simp at hcount
        omega
      · have hkeys := Table.foldl_erase_keys
          (fun e => decide (e.1.time ≤ block.time.seconds)) j.store.queue
        have hfst : (j.store.due block.time.seconds).map Prod.fst = amounts.map Prod.fst := by
          rw [hdue, Store.map_fst_entriesOf]
        rw [← hkeys]
        change k.store.setTotal after.gathered.1 = _
        rw [hk, ← hfst]
        rfl
    · have hnil : amounts = [] := List.length_eq_zero_iff.1 (by omega)
      subst hnil
      exact ⟨[], hdue, by rw [hcount, hevents], .inl ⟨rfl, hk⟩⟩
  · rw [hhalt]
    simp only
    rw [ends_bind, ends_refuse]
    refine ⟨⟨not_ordinary_system cause, hk⟩, fun amounts' hamounts' => ?_⟩
    rw [hamounts] at hamounts'
    cases hamounts'
    exact hless

theorem ends_endBlock {j : Journal} {block : Block} : Ends
    (fun r k => ∃ amounts, j.store.due block.time.seconds = Store.entriesOf amounts ∧
      r = ⟨[("action", "end_block"), ("swept", Nat.repr amounts.length)], amounts.map expiry⟩ ∧
      (amounts = [] ∧ k.store = j.store ∨ amounts ≠ [] ∧ ∃ total,
        j.store.total.toNat = (amounts.map fun e => e.2.toNat).sum + total.toNat ∧
        k.store = j.store.withQueue
          (j.store.queue.filter fun e => !decide (e.1.time ≤ block.time.seconds)) (some total)))
    (fun fault k => Torn j.store fault k.store) ((endBlock block).run j) :=
  ends_endBlock_or_short.mono (fun _ _ h => h) fun _ _ h => h.1

end StakeLock
