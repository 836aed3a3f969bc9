import StakeLock.Proofs.Accounts

/-!
# Locks are irrevocable

What an account has locked until some later time can only grow: no call takes a
lock away before its date, not even a call that fails halfway and keeps what it
wrote.
-/

namespace StakeLock

variable {now later : Timestamp} {terms : Option Config} {s t : Store}

theorem Change.lockedSum_le (h : Change now terms s t) (hs : s.Keyed) (hnow : now ≤ later)
    (a : Address) : s.lockedSum a later ≤ t.lockedSum a later := by
  rw [Store.lockedSum_eq_lockedWhere, Store.lockedSum_eq_lockedWhere]
  cases h with
  | version _ => exact le_rfl
  | configure _ => exact le_rfl
  | register _ => exact le_rfl
  | lock hopens _ hadds =>
    rw [hadds.lockedWhere_saved hs hopens]
    exact Nat.le_add_right _ _
  | extend haccount hmoves hdraft =>
    exact hdraft.lockedWhere_le_saved hs haccount
      (fun m hm hsource => isLocked_of_lt (hmoves m hm).2.2.1 hsource) a
  | clear haccount hreleases =>
    exact (hreleases.lockedWhere_saved hs haccount (fun _ => isLocked_of_le hnow) a).ge
  | sweep _ => exact le_rfl

theorem Changes.lockedSum_le (h : Changes now terms s t) (hs : s.Keyed) (hnow : now ≤ later)
    (a : Address) : s.lockedSum a later ≤ t.lockedSum a later := by
  suffices t.Keyed ∧ s.lockedSum a later ≤ t.lockedSum a later from this.2
  induction h with
  | refl => exact ⟨hs, le_rfl⟩
  | tail _ hchange ih => exact ⟨hchange.keyed ih.1, ih.2.trans (hchange.lockedSum_le ih.1 hnow a)⟩

theorem Torn.lockedSum_eq {fault : Fault LockError} (h : Torn s fault t) (a : Address) :
    t.lockedSum a later = s.lockedSum a later := by
  rw [Store.lockedSum_eq_lockedWhere, Store.lockedSum_eq_lockedWhere,
    Store.lockedWhere_congr h.2.accounts_eq]

theorem Leaves.lockedSum_le {fault : Fault LockError} (h : Leaves now terms s fault t)
    (hs : s.Keyed) (hnow : now ≤ later) (a : Address) :
    s.lockedSum a later ≤ t.lockedSum a later := by
  obtain ⟨m, hm, rfl | htorn⟩ := h
  · exact hm.lockedSum_le hs hnow a
  · rw [htorn.lockedSum_eq a]
    exact hm.lockedSum_le hs hnow a

section

variable {σ : Type} [HostLedger σ] [AddressRule] {c : Chain σ} {block : Block}

theorem lockedSum_le_finalState {call : Call} (hs : c.store.Keyed) (hnow : block.time ≤ later)
    (a : Address) :
    c.store.lockedSum a later ≤ (finalState ((call.run block).run c)).store.lockedSum a later :=
  (ends_call.mono (fun _ _ h => h.lockedSum_le hs hnow a)
    fun _ _ h => h.lockedSum_le hs hnow a).finalState

/-- Moving whole locks of one account to later dates leaves what is locked now as it is. -/
theorem lockedSum_of_extend {sender : Address} {extensions : List Extension} {response : Response}
    {c' : Chain σ} (hs : c.store.Keyed)
    (h : (execute now sender (.extend extensions)).run c = .ok response c') (a : Address) :
    c'.store.lockedSum a now = c.store.lockedSum a now := by
  obtain ⟨-, account, moves, d, haccount, hmoves, hdraft, hc'⟩ := ends_executeExtend.of_ok h
  rw [hc', Store.lockedSum_eq_lockedWhere, Store.lockedSum_eq_lockedWhere]
  refine hdraft.lockedWhere_saved_eq hs haccount (fun m hm => ?_) a
  obtain ⟨-, hsource, hlt, -⟩ := hmoves m hm
  rw [hsource, isLocked_of_lt hlt hsource]

theorem ends_hook_lockedSum (hs : c.store.Keyed) (hook : Hook) (hnow : block.time ≤ later)
    (a : Address) : Ends (fun _ c' => c'.store.lockedSum a later = c.store.lockedSum a later)
    (fun _ c' => c'.store.lockedSum a later = c.store.lockedSum a later)
    ((runHook block hook).run c) := by
  cases hook with
  | beforeTx tx =>
    unfold runHook
    rw [ends_bind]
    refine ends_checkTx.mono ?_ fun _ c' he => by rw [he]
    rintro _ c' ⟨rfl, -⟩
    rfl
  | afterTx tx simulate success =>
    refine ChainM.ends_onStore.2 (ends_clearPayer.mono ?_ fun _ _ he => he.lockedSum_eq a)
    intro _ k h
    change k.store.lockedSum a later = c.store.lockedSum a later
    rcases h with hk | ⟨address, account, t, haccount, hreleases, hk⟩
    · rw [hk]
      rfl
    · rw [hk, Store.lockedSum_eq_lockedWhere, Store.lockedSum_eq_lockedWhere]
      exact hreleases.lockedWhere_saved hs haccount (fun _ => isLocked_of_le hnow) a
  | endBlock =>
    refine ChainM.ends_onStore.2 (ends_endBlock.mono ?_ fun _ _ he => he.lockedSum_eq a)
    intro _ k h
    change k.store.lockedSum a later = c.store.lockedSum a later
    rcases h with ⟨amounts, -, -, ⟨-, hk⟩ | ⟨-, total, -, hk⟩⟩
    · rw [hk]
      rfl
    · rw [hk]
      rfl

/-- Whatever call comes next in a reachable store, by whomever, and whether or not it
fails: what an account has locked until a later time does not become less. A request
to extend locks leaves what is locked now as it is, and the hooks leave all of it. -/
theorem locks_irrevocable {last : Timestamp} (h : Host.lenient.Reaches last c.store)
    (block : Block) :
    (∀ (call : Call) (a : Address) (later : Timestamp), block.time ≤ later →
      c.store.lockedSum a later ≤
        (finalState ((call.run block).run c)).store.lockedSum a later) ∧
    (∀ (sender : Address) (extensions : List Extension) (response : Response) (c' : Chain σ),
      (execute block.time sender (.extend extensions)).run c = .ok response c' →
      ∀ a, c'.store.lockedSum a block.time = c.store.lockedSum a block.time) ∧
    ∀ (hook : Hook) (a : Address) (later : Timestamp), block.time ≤ later →
      (finalState ((runHook block hook).run c)).store.lockedSum a later =
        c.store.lockedSum a later := by
  have hs : c.store.Keyed := h.keyed
  refine ⟨?_, ?_, ?_⟩
  · intro call a later hnow
    exact lockedSum_le_finalState hs hnow a
  · intro sender extensions response c' hrun a
    exact lockedSum_of_extend hs hrun a
  · intro hook a later hnow
    exact (ends_hook_lockedSum hs hook hnow a).finalState

end

/-- Alice extends her first lock, and the block ends: the 50 tokens stay locked. -/
theorem first_lock_irrevocable :
    50 ≤ (finalState ((Call.run FirstLock.block (.request FirstLock.alice FirstLock.extension)).run
      FirstLock.chain)).store.lockedSum FirstLock.alice FirstLock.nextDay ∧
    (finalState ((execute FirstLock.block.time FirstLock.alice FirstLock.extension).run
      FirstLock.chain)).store.lockedSum FirstLock.alice FirstLock.block.time = 50 ∧
    (finalState ((runHook FirstLock.block .endBlock).run FirstLock.chain)).store.lockedSum
      FirstLock.alice FirstLock.nextDay = 50 := by
  have h := locks_irrevocable FirstLock.reached.lenient FirstLock.block
  have hnow : FirstLock.chain.store.lockedSum FirstLock.alice FirstLock.block.time = 50 := by
    decide +kernel
  have hlater : FirstLock.chain.store.lockedSum FirstLock.alice FirstLock.nextDay = 50 := by
    decide +kernel
  have hrun : succeeds ((execute FirstLock.block.time FirstLock.alice FirstLock.extension).run
      FirstLock.chain) := by decide +kernel
  obtain ⟨response, hok⟩ := exists_ok_of_succeeds hrun
  have hcall := h.1 (.request FirstLock.alice FirstLock.extension) FirstLock.alice
    FirstLock.nextDay (by decide)
  have hextend := h.2.1 _ _ response _ hok FirstLock.alice
  have hhook := h.2.2 .endBlock FirstLock.alice FirstLock.nextDay (by decide)
  rw [hlater] at hcall hhook
  exact ⟨hcall, hextend.trans hnow, hhook⟩

end StakeLock
