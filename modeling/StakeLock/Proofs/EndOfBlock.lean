import StakeLock.Proofs.Aggregate
import StakeLock.Proofs.ByteOrder

/-!
# The end of a block

In a reachable store the sweep at the end of a block does not fail. It takes exactly
the due entries off the queue and announces each of them once, in the order of the
queue. Two sweeps after each other do what the later one does alone.
-/

namespace StakeLock

namespace Store

variable {s t u : Store} {seconds early late : Nat}

/-- The due part of the queue is gone, and with it its sum from the aggregate, which is
written when there was such a part. -/
structure Swept (seconds : Nat) (s t : Store) : Prop where
  requeued : s.Requeued t
  queue : t.queue = s.queue.filter fun e => !decide (e.1.time ≤ seconds)
  total : s.total.toNat = ((s.due seconds).map fun e => e.2.value).sum + t.total.toNat
  written : t.totalLocked.isSome ↔ s.totalLocked.isSome ∨ s.due seconds ≠ []

theorem swept_self (h : s.due seconds = []) : s.Swept seconds s where
  requeued := s.requeued_self
  queue := by
    have hall : s.queue.entries.filter (fun e => !decide (e.1.time ≤ seconds)) =
        s.queue.entries :=
      List.filter_eq_self.2 fun e he => by simpa using List.filter_eq_nil_iff.1 h e he
    unfold Table.filter
    simp only [hall]
  total := by simp [h]
  written := by simp [h]

theorem swept_withQueue {total : Amount} (h : s.due seconds ≠ [])
    (htotal : s.total.toNat = ((s.due seconds).map fun e => e.2.value).sum + total.toNat) :
    s.Swept seconds (s.withQueue
      (s.queue.filter fun e => !decide (e.1.time ≤ seconds)) (some total)) where
  requeued := ⟨_, _, rfl⟩
  queue := rfl
  total := htotal
  written := by simp [h, withQueue]

theorem Swept.balanced {surplus : Nat} (h : s.Swept seconds t) (hs : s.Balanced surplus) :
    t.Balanced surplus :=
  hs.sweep h.queue h.total

theorem Swept.unique (h : s.Swept seconds t) (h' : s.Swept seconds u) : t = u := by
  have hqueue := h.queue.trans h'.queue.symm
  have htotal : t.totalLocked = u.totalLocked := by
    apply totalLocked_eq
    · have hleft := h.total
      have hleft' := h'.total
      omega
    · exact h.written.trans h'.written.symm
  obtain ⟨_, _, rfl⟩ := h.requeued
  obtain ⟨_, _, rfl⟩ := h'.requeued
  unfold withQueue at hqueue htotal ⊢
  simp only at hqueue htotal
  rw [hqueue, htotal]

theorem pairwise_time_le (s : Store) :
    s.queue.entries.Pairwise fun a b => a.1.time ≤ b.1.time :=
  s.queue.sorted.imp QueueKey.time_le_of_compare

/-- What is due early comes first among what is due late. -/
theorem filter_due_append {es : List (QueueKey × QueueEntry)}
    (h : es.Pairwise fun a b => a.1.time ≤ b.1.time) (hle : early ≤ late) :
    es.filter (fun e => decide (e.1.time ≤ late)) =
      es.filter (fun e => decide (e.1.time ≤ early)) ++
        (es.filter fun e => !decide (e.1.time ≤ early)).filter
          fun e => decide (e.1.time ≤ late) := by
  induction es with
  | nil => rfl
  | cons e es ih =>
    have h' := List.pairwise_cons.1 h
    by_cases he : e.1.time ≤ early
    · have hlate := Nat.le_trans he hle
      simp only [List.filter_cons, he, hlate, decide_true, if_true, Bool.not_true,
        Bool.false_eq_true, if_false, List.cons_append, ih h'.2]
    · have hnone : ∀ d ∈ e :: es, ¬d.1.time ≤ early := by
        intro d hd
        rcases List.mem_cons.1 hd with rfl | hd
        · exact he
        · have := h'.1 d hd
          omega
      have hearly : (e :: es).filter (fun e => decide (e.1.time ≤ early)) = [] :=
        List.filter_eq_nil_iff.2 fun d hd => by simpa using hnone d hd
      have hrest : (e :: es).filter (fun e => !decide (e.1.time ≤ early)) = e :: es :=
        List.filter_eq_self.2 fun d hd => by simpa using hnone d hd
      rw [hearly, hrest, List.nil_append]

theorem Swept.due_append (h : s.Swept early t) (hle : early ≤ late) :
    s.due late = s.due early ++ t.due late := by
  unfold due
  rw [h.queue]
  exact filter_due_append s.pairwise_time_le hle

/-- A late sweep after an early one has swept all that it would have swept alone. -/
theorem Swept.trans (h : s.Swept early t) (h' : t.Swept late u) (hle : early ≤ late) :
    s.Swept late u where
  requeued := h.requeued.trans h'.requeued
  queue := by
    rw [h'.queue, h.queue]
    unfold Table.filter
    simp only [List.filter_filter, Table.mk.injEq]
    apply List.filter_congr
    intro e _
    by_cases hlate : e.1.time ≤ late
    · simp [hlate]
    · have : ¬e.1.time ≤ early := by omega
      simp [hlate, this]
  total := by
    rw [h.due_append hle, List.map_append, List.sum_append]
    have := h.total
    have := h'.total
    omega
  written := by
    have hdue : s.due late ≠ [] ↔ s.due early ≠ [] ∨ t.due late ≠ [] := by
      rw [h.due_append hle, Ne, List.append_eq_nil_iff, not_and_or]
    rw [h'.written, h.written, hdue, or_assoc]

theorem entriesOf_append (l m : List (QueueKey × Amount)) :
    entriesOf (l ++ m) = entriesOf l ++ entriesOf m :=
  List.map_append

theorem entriesOf_injective : Function.Injective entriesOf := by
  apply List.map_injective_iff.2
  rintro ⟨key, x⟩ ⟨key', x'⟩ h
  cases h
  rfl

theorem mem_entriesOf {amounts : List (QueueKey × Amount)} {key : QueueKey} {x : Amount} :
    (key, .holds x) ∈ entriesOf amounts ↔ (key, x) ∈ amounts := by
  simp [entriesOf]

section

variable {removed : List (QueueKey × Amount)}

theorem mem_iff_of_due (h : s.due seconds = entriesOf removed) {key : QueueKey} {x : Amount} :
    (key, x) ∈ removed ↔ s.queue.get? key = some (.holds x) ∧ key.time ≤ seconds := by
  rw [← mem_entriesOf, ← h, Table.get?_eq_some_iff]
  unfold due
  rw [List.mem_filter, decide_eq_true_iff]

theorem pairwise_of_due (h : s.due seconds = entriesOf removed) :
    removed.Pairwise fun a b => a.1.time < b.1.time ∨
      a.1.time = b.1.time ∧ a.1.address.bytes < b.1.address.bytes := by
  have hsorted : (s.due seconds).Pairwise KeyLt := s.queue.sorted.sublist List.filter_sublist
  rw [h] at hsorted
  exact (List.pairwise_map.1 hsorted).imp QueueKey.compare_eq_lt_iff.1

theorem Swept.get? (h : s.Swept seconds t) (key : QueueKey) : t.queue.get? key =
    if key.time ≤ seconds then none else s.queue.get? key := by
  rw [h.queue, Table.get?_filter]
  by_cases hdue : key.time ≤ seconds
  · simp [hdue]
  · cases s.queue.get? key <;> simp [hdue]

end

theorem Balanced.dueEntries {surplus : Nat} (h : s.Balanced surplus) (seconds : Nat) :
    ∃ amounts, s.dueEntries seconds = .ok amounts ∧
      (amounts.map fun e => e.2.toNat).sum ≤ s.total.toNat := by
  have hread : ∀ e ∈ s.due seconds, e.2 ≠ .garbled := by
    intro e he hgarbled
    apply h.readable e.1
    rw [Table.mem_entries_iff.1 (List.mem_filter.1 he).1, hgarbled]
  obtain ⟨amounts, hamounts⟩ := exists_readEntries hread
  refine ⟨amounts, hamounts, ?_⟩
  have hsum := Table.total_filter_add QueueEntry.value (fun e => decide (e.1.time ≤ seconds))
    s.queue
  have hs := h.sum
  rw [← sum_value_entriesOf, ← readEntries_eq_ok hamounts]
  unfold due
  unfold queuedSum at hs
  omega

end Store

/-- A successful sweep takes the due part off the queue. It fails only if that part does not
decode, or adds up to more than the aggregate. -/
theorem ends_endBlock_swept {j : Journal} {block : Block} : Ends
    (fun r k => ∃ removed, j.store.due block.time.seconds = Store.entriesOf removed ∧
      r = ⟨[("action", "end_block"), ("swept", Nat.repr removed.length)], removed.map expiry⟩ ∧
      j.store.Swept block.time.seconds k.store)
    (fun _ _ => ∀ amounts, j.store.dueEntries block.time.seconds = .ok amounts →
      j.store.total.toNat < (amounts.map fun e => e.2.toNat).sum)
    ((endBlock block).run j) := by
  apply ends_endBlock_or_short.mono
  · rintro r k ⟨removed, hdue, rfl, hk⟩
    refine ⟨removed, hdue, rfl, ?_⟩
    rcases hk with ⟨rfl, hk⟩ | ⟨hne, total, htotal, hk⟩
    · rw [hk]
      exact Store.swept_self hdue
    · rw [hk]
      apply Store.swept_withQueue
      · rw [hdue]
        exact fun hnil => hne (List.map_eq_nil_iff.1 hnil)
      · rw [hdue, Store.sum_value_entriesOf]
        exact htotal
  · exact fun _ _ he => he.2

theorem ends_endBlock_of_balanced {j : Journal} {surplus : Nat} (h : j.store.Balanced surplus)
    (block : Block) : Ends
    (fun r k => ∃ removed, j.store.due block.time.seconds = Store.entriesOf removed ∧
      r = ⟨[("action", "end_block"), ("swept", Nat.repr removed.length)], removed.map expiry⟩ ∧
      j.store.Swept block.time.seconds k.store)
    (fun _ _ => False) ((endBlock block).run j) := by
  obtain ⟨amounts, hamounts, hle⟩ := h.dueEntries block.time.seconds
  refine ends_endBlock_swept.mono (fun _ _ hk => hk) fun fault k hshort => ?_
  exact absurd hle (Nat.not_le.2 (hshort amounts hamounts))

section

variable {j : Journal} {surplus : Nat}

theorem exists_endBlock_of_balanced (hs : j.store.Balanced surplus) (block : Block) :
    ∃ (removed : List (QueueKey × Amount)) (k : Journal), (endBlock block).run j = .ok
        ⟨[("action", "end_block"), ("swept", Nat.repr removed.length)], removed.map expiry⟩ k ∧
      (∀ key x, (key, x) ∈ removed ↔
        j.store.queue.get? key = some (.holds x) ∧ key.time ≤ block.time.seconds) ∧
      removed.Pairwise (fun a b => a.1.time < b.1.time ∨
        a.1.time = b.1.time ∧ a.1.address.bytes < b.1.address.bytes) ∧
      (∀ key, k.store.queue.get? key =
        if key.time ≤ block.time.seconds then none else j.store.queue.get? key) ∧
      j.store.total.toNat = (removed.map fun e => e.2.toNat).sum + k.store.total.toNat ∧
      k.store.Balanced surplus ∧
      k.store = { j.store with queue := k.store.queue, totalLocked := k.store.totalLocked } := by
  obtain ⟨_, k, hrun, removed, hdue, rfl, hswept⟩ :=
    (ends_endBlock_of_balanced hs block).exists_ok
  have htotal : j.store.total.toNat =
      (removed.map fun e => e.2.toNat).sum + k.store.total.toNat := by
    rw [← Store.sum_value_entriesOf, ← hdue]
    exact hswept.total
  have hothers : k.store =
      { j.store with queue := k.store.queue, totalLocked := k.store.totalLocked } := by
    obtain ⟨queue, totalLocked, hk⟩ := hswept.requeued
    rw [hk]
    rfl
  exact ⟨removed, k, hrun, fun _ _ => Store.mem_iff_of_due hdue, Store.pairwise_of_due hdue,
    hswept.get?, htotal, hswept.balanced hs, hothers⟩

/-- Two ends of blocks after each other do what the later one does alone. -/
theorem endBlock_composes_of_balanced (hs : j.store.Balanced surplus) {first second : Block}
    (hle : first.time ≤ second.time) : ∃ r₁ j₁ r₂ j₂ r k,
      (endBlock first).run j = .ok r₁ j₁ ∧ (endBlock second).run j₁ = .ok r₂ j₂ ∧
      (endBlock second).run j = .ok r k ∧ j₂.store = k.store ∧
      r₁.events ++ r₂.events = r.events ∧
      (first.time = second.time → j₂.store = j₁.store ∧ r₂.events = []) := by
  have hseconds : first.time.seconds ≤ second.time.seconds := Nat.div_le_div_right hle
  obtain ⟨_, j₁, hrun₁, removed₁, hdue₁, rfl, hswept₁⟩ :=
    (ends_endBlock_of_balanced hs first).exists_ok
  obtain ⟨_, j₂, hrun₂, removed₂, hdue₂, rfl, hswept₂⟩ :=
    (ends_endBlock_of_balanced (hswept₁.balanced hs) second).exists_ok
  obtain ⟨_, k, hrun, removed, hdue, rfl, hswept⟩ :=
    (ends_endBlock_of_balanced hs second).exists_ok
  have hstore : j₂.store = k.store := (hswept₁.trans hswept₂ hseconds).unique hswept
  have happend : removed₁ ++ removed₂ = removed := by
    apply Store.entriesOf_injective
    rw [Store.entriesOf_append, ← hdue₁, ← hdue₂, ← hdue, hswept₁.due_append hseconds]
  refine ⟨_, j₁, _, j₂, _, k, hrun₁, hrun₂, hrun, hstore, ?_, fun htime => ?_⟩
  · rw [← happend, List.map_append]
  · rw [← htime] at hswept hdue
    have hsame : removed = removed₁ := Store.entriesOf_injective (hdue.symm.trans hdue₁)
    rw [hsame] at happend
    refine ⟨hstore.trans (hswept.unique hswept₁), ?_⟩
    rw [List.append_right_eq_self.1 happend, List.map_nil]

end

/-- In every reachable store the end of a block succeeds. It removes exactly the entries
whose unlock time is reached, announces each of them once and in order, and changes
nothing else. The aggregate goes down by what is removed; unless a total was stored before
the first lock, the sum of the other entries is left. After an earlier sweep it removes
and announces the rest of what it would have swept alone, which is nothing if the time
is the same. -/
theorem endBlock_exact_and_composes {last : Timestamp} {j : Journal}
    (h : Host.anyTotal.Reaches last j.store) :
    (∀ block : Block, ∃ (removed : List (QueueKey × Amount)) (k : Journal),
      (endBlock block).run j = .ok
        ⟨[("action", "end_block"), ("swept", Nat.repr removed.length)], removed.map expiry⟩ k ∧
      (∀ key x, (key, x) ∈ removed ↔
        j.store.queue.get? key = some (.holds x) ∧ key.time ≤ block.time.seconds) ∧
      removed.Pairwise (fun a b => a.1.time < b.1.time ∨
        a.1.time = b.1.time ∧ a.1.address.bytes < b.1.address.bytes) ∧
      (∀ key, k.store.queue.get? key =
        if key.time ≤ block.time.seconds then none else j.store.queue.get? key) ∧
      j.store.total.toNat = (removed.map fun e => e.2.toNat).sum + k.store.total.toNat ∧
      (Host.orderly.Reaches last j.store → k.store.total.toNat = k.store.queuedSum) ∧
      k.store = { j.store with queue := k.store.queue, totalLocked := k.store.totalLocked }) ∧
    ∀ first second : Block, first.time ≤ second.time → ∃ r₁ j₁ r₂ j₂ r k,
      (endBlock first).run j = .ok r₁ j₁ ∧ (endBlock second).run j₁ = .ok r₂ j₂ ∧
      (endBlock second).run j = .ok r k ∧ j₂.store = k.store ∧
      r₁.events ++ r₂.events = r.events ∧
      (first.time = second.time → j₂.store = j₁.store ∧ r₂.events = []) := by
  obtain ⟨surplus, hs⟩ := Host.maintains_surplus.reaches h
  refine ⟨fun block => ?_, fun _ _ => endBlock_composes_of_balanced hs⟩
  obtain ⟨removed, k, hrun, hmem, hpairwise, hget, htotal, hbalanced, hothers⟩ :=
    exists_endBlock_of_balanced hs block
  refine ⟨removed, k, hrun, hmem, hpairwise, hget, htotal, fun hfresh => ?_, hothers⟩
  have hbare : j.store.Balanced 0 := Host.maintains_balanced.reaches hfresh.anyOrder
  have hnone : surplus = 0 := Nat.add_left_cancel (hs.sum.symm.trans hbare.sum)
  subst hnone
  exact hbalanced.sum

namespace FirstLock

/-- Midnight of the date on which the first lock ends. -/
def dueBlock : Block := ⟨2, ⟨59 * 86400 * 10 ^ 9, by decide⟩⟩

end FirstLock

/-- The first lock is swept at its unlock time, whether or not a block ended before. -/
theorem first_lock_swept :
    (∃ (removed : List (QueueKey × Amount)) (k : Journal),
      (endBlock FirstLock.dueBlock).run FirstLock.chain.journal = .ok
        ⟨[("action", "end_block"), ("swept", Nat.repr removed.length)], removed.map expiry⟩ k ∧
      (⟨59 * 86400, FirstLock.alice⟩, ⟨50, by decide⟩) ∈ removed ∧
      k.store.queue.get? ⟨59 * 86400, FirstLock.alice⟩ = none ∧
      k.store.total.toNat = k.store.queuedSum) ∧
    ∃ r₁ j₁ r₂ j₂ r k, (endBlock FirstLock.block).run FirstLock.chain.journal = .ok r₁ j₁ ∧
      (endBlock FirstLock.dueBlock).run j₁ = .ok r₂ j₂ ∧
      (endBlock FirstLock.dueBlock).run FirstLock.chain.journal = .ok r k ∧
      j₂.store = k.store ∧ r₁.events ++ r₂.events = r.events := by
  have h := endBlock_exact_and_composes (j := FirstLock.chain.journal) FirstLock.reached.anyTotal
  constructor
  · obtain ⟨removed, k, hrun, hmem, -, hget, -, htotal, -⟩ := h.1 FirstLock.dueBlock
    refine ⟨removed, k, hrun, (hmem _ _).2 ⟨by decide +kernel, by decide⟩, ?_,
      htotal FirstLock.reached⟩
    rw [hget, if_pos (by decide)]
  · obtain ⟨r₁, j₁, r₂, j₂, r, k, hrun₁, hrun₂, hrun, hstore, hevents, -⟩ :=
      h.2 FirstLock.block FirstLock.dueBlock (by decide)
    exact ⟨r₁, j₁, r₂, j₂, r, k, hrun₁, hrun₂, hrun, hstore, hevents⟩

end StakeLock
