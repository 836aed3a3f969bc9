import StakeLock.Proofs.Reachable

/-!
# The aggregate

The aggregate is kept step by step beside the queue. In every reachable store it
is the exact sum of the queue, so the two ways to ask for it agree.
-/

namespace StakeLock

namespace Store

/-- All entries decode, and the aggregate is their exact sum and a surplus beside, which
is nothing unless the aggregate has been there before the queue. -/
structure Balanced (surplus : Nat) (s : Store) : Prop where
  readable : ∀ key, s.queue.get? key ≠ some .garbled
  sum : s.total.toNat = s.queuedSum + surplus

variable {surplus : Nat} {s t : Store} {key target : QueueKey} {amount queued rest total : Amount}

theorem Balanced.of_eq (h : s.Balanced surplus) (hqueue : t.queue = s.queue)
    (htotal : t.totalLocked = s.totalLocked) : t.Balanced surplus := by
  constructor
  · rw [hqueue]
    exact h.readable
  · unfold Store.total queuedSum
    rw [hqueue, htotal]
    exact h.sum

theorem readable_enqueue (h : ∀ k, s.queue.get? k ≠ some .garbled) :
    ∀ k, (s.enqueue key amount).queue.get? k ≠ some .garbled := by
  intro k
  unfold enqueue
  simp only [Table.get?_insert]
  split
  · simp
  · exact h k

theorem readable_dequeue (h : ∀ k, s.queue.get? k ≠ some .garbled) :
    ∀ k, (s.dequeue key).queue.get? k ≠ some .garbled := by
  intro k
  unfold dequeue
  simp only [Table.get?_erase]
  split
  · simp
  · exact h k

theorem readable_leaveQueued (h : ∀ k, s.queue.get? k ≠ some .garbled) :
    ∀ k, (s.leaveQueued key rest).queue.get? k ≠ some .garbled := by
  unfold leaveQueued
  split
  · exact readable_dequeue h
  · exact readable_enqueue h

@[simp] theorem total_enqueue : (s.enqueue key amount).total = s.total := rfl

@[simp] theorem total_leaveQueued : (s.leaveQueued key rest).total = s.total := by
  unfold leaveQueued
  split <;> rfl

theorem Balanced.add (h : s.Balanced surplus)
    (hqueued : s.queuedAt key + amount.toNat = queued.toNat)
    (htotal : s.total.toNat + amount.toNat = total.toNat) :
    ((s.enqueue key queued).setTotal total).Balanced surplus := by
  refine ⟨readable_enqueue h.readable, ?_⟩
  have hsum := s.queuedSum_enqueue key queued
  have hs := h.sum
  rw [total_setTotal, queuedSum_setTotal]
  omega

theorem Balanced.move (h : s.Balanced surplus)
    (hrest : s.queuedAt key = amount.toNat + rest.toNat)
    (hqueued : (s.leaveQueued key rest).queuedAt target + amount.toNat = queued.toNat) :
    ((s.leaveQueued key rest).enqueue target queued).Balanced surplus := by
  refine ⟨readable_enqueue (readable_leaveQueued h.readable), ?_⟩
  have hleft := s.queuedSum_leaveQueued key rest
  have hsum := (s.leaveQueued key rest).queuedSum_enqueue target queued
  have hs := h.sum
  rw [total_enqueue, total_leaveQueued]
  omega

theorem Balanced.take (h : s.Balanced surplus)
    (hget : s.queue.get? key = some (.holds amount))
    (htotal : s.total.toNat = amount.toNat + total.toNat) :
    ((s.dequeue key).setTotal total).Balanced surplus := by
  refine ⟨readable_dequeue h.readable, ?_⟩
  have hat : s.queuedAt key = amount.toNat := by
    unfold queuedAt
    rw [hget]
    rfl
  have hsum := s.queuedSum_dequeue key
  have hs := h.sum
  rw [total_setTotal, queuedSum_setTotal]
  omega

theorem Balanced.sweep (h : s.Balanced surplus) {seconds : Nat}
    (hqueue : t.queue = s.queue.filter fun e => !decide (e.1.time ≤ seconds))
    (htotal : s.total.toNat = ((s.due seconds).map fun e => e.2.value).sum + t.total.toNat) :
    t.Balanced surplus := by
  constructor
  · intro k hk
    rw [hqueue, Table.get?_filter] at hk
    exact h.readable k (Option.filter_eq_some_iff.1 hk).1
  · have hsum := Table.total_filter_add QueueEntry.value (fun e => decide (e.1.time ≤ seconds))
      s.queue
    have hs := h.sum
    unfold queuedSum at hs ⊢
    unfold due at htotal
    rw [hqueue]
    omega

end Store

section

variable {surplus : Nat}

theorem Draft.Adds.balanced {d d' : Draft} {locks : List (Date × Amount)} (h : d.Adds locks d')
    (hd : d.store.Balanced surplus) : d'.store.Balanced surplus := by
  induction h with
  | nil => exact hd
  | cons _ _ hqueued htotal _ ih => exact ih (hd.add hqueued htotal)

theorem Draft.Moves.balanced {d d' : Draft} {moves : List Move} (h : d.Moves moves d')
    (hd : d.store.Balanced surplus) : d'.store.Balanced surplus := by
  induction h with
  | nil => exact hd
  | cons _ _ _ hrest hqueued _ ih => exact ih (hd.move hrest hqueued)

namespace Store

variable {s t : Store} {address : Address}

theorem Releases.balanced {locks : List Lock} (h : s.Releases address locks t)
    (hs : s.Balanced surplus) : t.Balanced surplus := by
  induction h with
  | nil => exact hs
  | undated _ _ ih => exact ih hs
  | absent _ _ _ ih => exact ih hs
  | taken _ hget htotal _ ih => exact ih (hs.take hget htotal)

theorem Opens.balanced {account : LockupAccount} (h : s.Opens address account t)
    (hs : s.Balanced surplus) : t.Balanced surplus := by
  cases h with
  | upgraded _ => exact hs
  | registered _ _ => exact hs.of_eq rfl rfl

end Store

theorem Change.balanced {now : Timestamp} {terms : Option Config} {s t : Store}
    (h : Change now terms s t) (hs : s.Balanced surplus) : t.Balanced surplus := by
  cases h with
  | version _ => exact hs.of_eq rfl rfl
  | configure _ => exact hs.of_eq rfl rfl
  | register _ => exact hs.of_eq rfl rfl
  | lock hopens _ hadds => exact (hadds.balanced (hopens.balanced hs)).of_eq rfl rfl
  | extend _ _ hmoves => exact (hmoves.balanced hs).of_eq rfl rfl
  | clear _ hreleases => exact (hreleases.balanced hs).of_eq rfl rfl
  | sweep htotal => exact hs.sweep rfl htotal

end

theorem Host.maintains_balanced : Host.anyOrder.Maintains fun _ s => s.Balanced 0 where
  starts := by
    rintro now s ⟨hqueue, htotal⟩
    constructor
    · simp [hqueue]
    · simp [Store.total, Store.queuedSum, hqueue, htotal]
  follows _ hs := hs
  change hs hchange := hchange.balanced hs
  torn _ hkeeps htorn := absurd hkeeps htorn.1

/-- A total that is stored at first stays there as a surplus. -/
theorem Host.maintains_surplus : Host.anyTotal.Maintains fun _ s => ∃ n, s.Balanced n where
  starts := by
    rintro now s ⟨hqueue, -⟩
    refine ⟨s.total.toNat, ?_, ?_⟩
    · simp [hqueue]
    · simp [Store.queuedSum, hqueue]
  follows _ hs := hs
  change := by
    rintro now terms s t ⟨n, hs⟩ hchange
    exact ⟨n, hchange.balanced hs⟩
  torn _ hkeeps htorn := absurd hkeeps htorn.1

namespace Store

theorem exists_readEntries {es : List (QueueKey × QueueEntry)} (h : ∀ e ∈ es, e.2 ≠ .garbled) :
    ∃ amounts, readEntries es = .ok amounts := by
  induction es with
  | nil => exact ⟨[], rfl⟩
  | cons e es ih =>
    obtain ⟨amounts, hamounts⟩ := ih fun d hd => h d (List.mem_cons_of_mem _ hd)
    obtain ⟨key, entry⟩ := e
    cases entry with
    | garbled => exact absurd rfl (h _ (List.mem_cons_self ..))
    | holds amount =>
      refine ⟨(key, amount) :: amounts, ?_⟩
      unfold readEntries
      rw [hamounts]
      rfl

theorem Balanced.queuedTotal {s : Store} (h : s.Balanced 0) : s.queuedTotal = .ok s.total := by
  have hread : ∀ e ∈ s.queue.entries, e.2 ≠ .garbled := by
    intro e he hgarbled
    apply h.readable e.1
    rw [Table.mem_entries_iff.1 he, hgarbled]
  obtain ⟨amounts, hamounts⟩ := exists_readEntries hread
  have hsum := sum_value_entriesOf amounts
  rw [← readEntries_eq_ok hamounts] at hsum
  have hs := h.sum
  unfold queuedSum Table.total Entries.total at hs
  unfold Store.queuedTotal
  refine except_bind_eq_ok_iff.2 ⟨amounts, hamounts, ?_⟩
  rw [Amount.sumFrom_eq_ok_iff, List.map_map, Amount.toNat_zero, Nat.zero_add]
  exact hsum.symm.trans hs.symm

/-- In every store that a host can reach, whatever the order of its block times, the
aggregate is the exact sum of the queue, and adding up the queue gives the aggregate. -/
theorem total_eq_queuedSum_of_reaches {now : Timestamp} {s : Store}
    (h : Host.anyOrder.Reaches now s) :
    s.total.toNat = s.queuedSum ∧ s.queuedTotal = .ok s.total := by
  have hbalanced := Host.maintains_balanced.reaches h
  exact ⟨hbalanced.sum, hbalanced.queuedTotal⟩

theorem total_after_first_lock :
    FirstLock.chain.store.total.toNat = 50 ∧ FirstLock.chain.store.queuedSum = 50 ∧
      FirstLock.chain.store.queuedTotal = .ok FirstLock.chain.store.total := by
  have h := total_eq_queuedSum_of_reaches FirstLock.reached.anyOrder
  have htotal : FirstLock.chain.store.total.toNat = 50 := by decide +kernel
  exact ⟨htotal, h.1.symm.trans htotal, h.2⟩

end Store

end StakeLock
