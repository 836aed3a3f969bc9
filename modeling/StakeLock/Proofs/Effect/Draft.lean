import StakeLock.Proofs.Accounts
import StakeLock.Proofs.Aggregate

/-!
# Effects of a request

A request for locks or for extensions works on the account of its sender alone: it takes
amounts from dates and puts amounts on dates, in the schedule and in the queue alike, and
the aggregate grows by what is new. This much of it does not depend on the order of its
entries, nor on what other accounts have.
-/

namespace StakeLock

/-- What is asked for a date in a list of locks. -/
def amountsOn (locks : List (Date × Amount)) (date : Date) : Nat :=
  (locks.map fun l => if l.1 = date then l.2.toNat else 0).sum

/-- How much is taken from each date and how much is put there, and what the aggregate gains. -/
structure Effect where
  taken : Date → Nat
  given : Date → Nat
  gain : Nat

namespace Effect

def ofLocks (locks : List (Date × Amount)) : Effect :=
  ⟨fun _ => 0, amountsOn locks, (locks.map fun l => l.2.toNat).sum⟩

def ofMoves (moves : List Move) : Effect where
  taken date := (moves.map fun m => if m.source = date then m.amount.toNat else 0).sum
  given date := (moves.map fun m => if m.target = date then m.amount.toNat else 0).sum
  gain := 0

/-- One effect after another. -/
def add (e e' : Effect) : Effect where
  taken date := e.taken date + e'.taken date
  given date := e.given date + e'.given date
  gain := e.gain + e'.gain

theorem ofLocks_cons (l : Date × Amount) (locks : List (Date × Amount)) :
    ofLocks (l :: locks) = (ofLocks [l]).add (ofLocks locks) := rfl

theorem ofMoves_append (moves others : List Move) :
    ofMoves (moves ++ others) = (ofMoves moves).add (ofMoves others) := by
  simp [ofMoves, add]

theorem ofMoves_cons (m : Move) (moves : List Move) :
    ofMoves (m :: moves) = (ofMoves [m]).add (ofMoves moves) := ofMoves_append [m] moves

end Effect

namespace Store

theorem key_ne {d e : Date} {t u : Nat} (hd : unlockTime? d = some t)
    (he : unlockTime? e = some u) (hne : d ≠ e) (a b : Address) :
    (⟨t, a⟩ : QueueKey) ≠ ⟨u, b⟩ := by
  intro hkey
  cases hkey
  exact hne (unlockTime?_injective hd he)

section

variable {s : Store} {a : Address} {date source target : Date} {time sourceTime targetTime : Nat}
variable {amount rest queued : Amount}

theorem queuedAt_added {d : Date} {t : Nat} (hdate : unlockTime? date = some time)
    (ht : unlockTime? d = some t) (hqueued : s.queuedAt ⟨time, a⟩ + amount.toNat = queued.toNat) :
    (s.enqueue ⟨time, a⟩ queued).queuedAt ⟨t, a⟩ =
      s.queuedAt ⟨t, a⟩ + if date = d then amount.toNat else 0 := by
  rw [queuedAt_enqueue]
  by_cases hd : date = d
  · subst hd
    cases hdate.symm.trans ht
    rw [if_pos rfl, if_pos rfl]
    exact hqueued.symm
  · rw [if_neg (key_ne ht hdate (Ne.symm hd) _ _), if_neg hd]
    rfl

/-- What is queued for a date after an amount has gone from one to another, perhaps the
same one. -/
theorem queuedAt_moved {d : Date} {t : Nat} (hsource : unlockTime? source = some sourceTime)
    (htarget : unlockTime? target = some targetTime) (ht : unlockTime? d = some t)
    (hrest : s.queuedAt ⟨sourceTime, a⟩ = amount.toNat + rest.toNat)
    (hqueued : (s.leaveQueued ⟨sourceTime, a⟩ rest).queuedAt ⟨targetTime, a⟩ + amount.toNat =
      queued.toNat) :
    ((s.leaveQueued ⟨sourceTime, a⟩ rest).enqueue ⟨targetTime, a⟩ queued).queuedAt ⟨t, a⟩ +
        (if source = d then amount.toNat else 0) =
      s.queuedAt ⟨t, a⟩ + if target = d then amount.toNat else 0 := by
  have hleft : (s.leaveQueued ⟨sourceTime, a⟩ rest).queuedAt ⟨t, a⟩ +
      (if source = d then amount.toNat else 0) = s.queuedAt ⟨t, a⟩ := by
    rw [queuedAt_leaveQueued]
    by_cases hd : source = d
    · subst hd
      cases hsource.symm.trans ht
      rw [if_pos rfl, if_pos rfl, hrest, Nat.add_comm]
    · rw [if_neg (key_ne ht hsource (Ne.symm hd) _ _), if_neg hd]
      rfl
  rw [queuedAt_added htarget ht hqueued, ← hleft, Nat.add_right_comm]

end

end Store

/-! ## Drafts -/

namespace Draft

/-- The account of a draft and its part of the queue have changed by an effect, and nothing
else has but the aggregate. -/
structure Alters (e : Effect) (d d' : Draft) : Prop where
  base : d'.account.base = d.account.base
  requeued : d.store.Requeued d'.store
  locked : ∀ date, d'.account.schedule.amountOn date + e.taken date =
    d.account.schedule.amountOn date + e.given date
  queued : ∀ {date time}, unlockTime? date = some time →
    d'.store.queuedAt ⟨time, d.account.address⟩ + e.taken date =
      d.store.queuedAt ⟨time, d.account.address⟩ + e.given date
  others : ∀ key, key.address ≠ d.account.address → d'.store.queue.get? key = d.store.queue.get? key
  total : d'.store.total.toNat = d.store.total.toNat + e.gain
  written : d'.store.totalLocked.isSome ↔ d.store.totalLocked.isSome ∨ 0 < e.gain

variable {d d' d'' : Draft} {e e' : Effect}

theorem Alters.address_eq (h : Alters e d d') : d'.account.address = d.account.address :=
  congrArg BaseAccount.address h.base

theorem Alters.trans (h : Alters e d d') (h' : Alters e' d' d'') : Alters (e.add e') d d'' where
  base := h'.base.trans h.base
  requeued := h.requeued.trans h'.requeued
  locked date := by
    have hfirst := h.locked date
    have hsecond := h'.locked date
    simp only [Effect.add]
    omega
  queued hdate := by
    have hfirst := h.queued hdate
    have hsecond := h'.queued hdate
    rw [h.address_eq] at hsecond
    simp only [Effect.add]
    omega
  others key hkey :=
    (h'.others key fun heq => hkey (heq.trans h.address_eq)).trans (h.others key hkey)
  total := by
    have hfirst := h.total
    have hsecond := h'.total
    simp only [Effect.add]
    omega
  written := by
    rw [h'.written, h.written, or_assoc]
    simp only [Effect.add]
    exact or_congr_right (by omega)

variable {account : LockupAccount} {s : Store}

theorem alters_nil : Alters (.ofLocks []) d d where
  base := rfl
  requeued := d.store.requeued_self
  locked _ := rfl
  queued _ := rfl
  others _ _ := rfl
  total := rfl
  written := by simp [Effect.ofLocks]

theorem alters_add {date : Date} {time : Nat} {amount queued total : Amount} {schedule : Schedule}
    (hdate : unlockTime? date = some time) (hne : amount ≠ Amount.zero)
    (hupsert : account.schedule.upsert date amount = .ok schedule)
    (hqueued : s.queuedAt ⟨time, account.address⟩ + amount.toNat = queued.toNat)
    (htotal : s.total.toNat + amount.toNat = total.toNat) :
    Alters (.ofLocks [(date, amount)]) ⟨account, s⟩ ⟨{ account with schedule := schedule },
      (s.enqueue ⟨time, account.address⟩ queued).setTotal total⟩ where
  base := rfl
  requeued := (s.requeued_enqueue _ _).trans (Store.requeued_setTotal _ _)
  locked d := Schedule.amountOn_upsert hupsert d
  queued {d t} ht := by
    exact Store.queuedAt_added hdate ht hqueued
  others key hkey := s.get?_enqueue_of_ne (QueueKey.ne_of_address_ne hkey) queued
  total := htotal.symm
  written := by
    have hpos := Amount.toNat_pos hne
    simp [Store.setTotal, Effect.ofLocks, hpos]

theorem alters_move {move : Move} {sourceTime targetTime : Nat} {rest queued : Amount}
    {schedule : Schedule} (hsource : unlockTime? move.source = some sourceTime)
    (htarget : unlockTime? move.target = some targetTime)
    (hshift : account.schedule.shift move.source move.target move.amount = .ok schedule)
    (hrest : s.queuedAt ⟨sourceTime, account.address⟩ = move.amount.toNat + rest.toNat)
    (hqueued : (s.leaveQueued ⟨sourceTime, account.address⟩ rest).queuedAt
      ⟨targetTime, account.address⟩ + move.amount.toNat = queued.toNat) :
    Alters (.ofMoves [move]) ⟨account, s⟩ ⟨{ account with schedule := schedule },
      (s.leaveQueued ⟨sourceTime, account.address⟩ rest).enqueue
        ⟨targetTime, account.address⟩ queued⟩ where
  base := rfl
  requeued := (s.requeued_leaveQueued _ _).trans (Store.requeued_enqueue _ _ _)
  locked d := Schedule.amountOn_shift hshift d
  queued {d t} ht := by
    exact Store.queuedAt_moved hsource htarget ht hrest hqueued
  others key hkey :=
    (Store.get?_enqueue_of_ne _ (QueueKey.ne_of_address_ne hkey) queued).trans
      (s.get?_leaveQueued_of_ne (QueueKey.ne_of_address_ne hkey) rest)
  total := by
    simp only [Store.total_enqueue, Store.total_leaveQueued]
    rfl
  written := by
    unfold Store.leaveQueued
    split <;> simp [Store.enqueue, Store.dequeue, Effect.ofMoves]

theorem Adds.alters {locks : List (Date × Amount)} (h : d.Adds locks d')
    (hne : ∀ l ∈ locks, l.2 ≠ Amount.zero) : Alters (.ofLocks locks) d d' := by
  induction h with
  | nil => exact alters_nil
  | cons hdate hupsert hqueued htotal _ ih =>
    obtain ⟨hfirst, hrest⟩ := List.forall_mem_cons.1 hne
    rw [Effect.ofLocks_cons]
    exact (alters_add hdate hfirst hupsert hqueued htotal).trans (ih hrest)

theorem Moves.alters {moves : List Move} (h : d.Moves moves d') :
    Alters (.ofMoves moves) d d' := by
  induction h with
  | nil => exact alters_nil
  | cons hsource htarget hshift hrest hqueued _ ih =>
    rw [Effect.ofMoves_cons]
    exact (alters_move hsource htarget hshift hrest hqueued).trans ih

end Draft

end StakeLock
