import StakeLock.Proofs.Effect.Draft
import StakeLock.Proofs.Schedule.Order

/-!
# The queue mirrors the schedules

For every date that is still locked the queue holds exactly what the schedule of
an account holds. Expired locks are cleared from both sides at different times,
and there the queue may only run ahead.
-/

namespace StakeLock

namespace Store

def lockedOn (s : Store) (address : Address) (date : Date) : Nat :=
  s.lockedWhere address fun d => d = date

theorem lockedOn_of_lockup? {s : Store} {address : Address} {account : LockupAccount}
    (h : s.lockup? address = some account) (date : Date) :
    s.lockedOn address date = account.schedule.amountOn date :=
  lockedWhere_of_lockup? h _

theorem lockedOn_of_lockup?_eq_none {s : Store} {address : Address}
    (h : s.lockup? address = none) (date : Date) : s.lockedOn address date = 0 := by
  unfold lockedOn lockedWhere
  rw [h]

/-- Every entry is an amount, not empty, under the unlock time of a date. -/
def Dated (s : Store) : Prop :=
  ∀ key entry, s.queue.get? key = some entry →
    ∃ date x, unlockTime? date = some key.time ∧ entry = .holds x ∧ x ≠ Amount.zero

/-- Queue and schedules agree on what is locked, and the queue holds no more than the
schedules on any date. -/
structure Mirrors (now : Timestamp) (s : Store) : Prop where
  keyed : s.Keyed
  ordered : ∀ {a account}, s.lockup? a = some account → account.schedule.Ordered
  dated : s.Dated
  le : ∀ {date time} a, unlockTime? date = some time →
    s.queuedAt ⟨time, a⟩ ≤ s.lockedOn a date
  eq : ∀ {date time} a, unlockTime? date = some time → isLocked now date →
    s.queuedAt ⟨time, a⟩ = s.lockedOn a date

variable {now later : Timestamp} {s t opened : Store} {key : QueueKey} {amount rest : Amount}
variable {address : Address} {account : LockupAccount} {date : Date} {time : Nat}

theorem queuedAt_of_get? (h : s.queue.get? key = some (.holds amount)) :
    s.queuedAt key = amount.toNat := by
  unfold queuedAt
  rw [h]
  rfl

theorem get?_of_queuedAt (h : s.queue.get? key ≠ some .garbled)
    (hat : s.queuedAt key = amount.toNat) (hne : amount ≠ Amount.zero) :
    s.queue.get? key = some (.holds amount) := by
  cases hget : s.queue.get? key with
  | none =>
    unfold queuedAt at hat
    rw [hget] at hat
    exact absurd (Amount.ext hat.symm) hne
  | some entry =>
    cases entry with
    | garbled => exact absurd hget h
    | holds x =>
      rw [queuedAt_of_get? hget] at hat
      rw [Amount.ext hat]

theorem Dated.get?_of_queuedAt (h : s.Dated) (hat : s.queuedAt key = amount.toNat)
    (hne : amount ≠ Amount.zero) : s.queue.get? key = some (.holds amount) := by
  refine Store.get?_of_queuedAt (fun hgarbled => ?_) hat hne
  obtain ⟨_, x, -, hx, -⟩ := h key _ hgarbled
  cases hx

theorem Dated.enqueue (h : s.Dated) (hdate : unlockTime? date = some key.time)
    (hne : amount ≠ Amount.zero) : (s.enqueue key amount).Dated := by
  intro k entry hk
  unfold Store.enqueue at hk
  simp only [Table.get?_insert] at hk
  split at hk
  · rename_i heq
    cases hk
    exact ⟨date, amount, by rw [heq, hdate], rfl, hne⟩
  · exact h k entry hk

theorem Dated.dequeue (h : s.Dated) : (s.dequeue key).Dated := by
  intro k entry hk
  unfold Store.dequeue at hk
  simp only [Table.get?_erase] at hk
  split at hk
  · cases hk
  · exact h k entry hk

theorem Dated.leaveQueued (h : s.Dated) (hdate : unlockTime? date = some key.time) :
    (s.leaveQueued key rest).Dated := by
  unfold Store.leaveQueued
  split
  · exact h.dequeue
  · rename_i hz
    exact h.enqueue hdate fun hzero => hz (Amount.isZero_iff.2 hzero)

theorem Dated.releases {locks : List Lock} (hs : s.Dated) (h : s.Releases address locks t) :
    t.Dated := by
  induction h with
  | nil => exact hs
  | undated _ _ ih => exact ih hs
  | absent _ _ _ ih => exact ih hs
  | taken _ _ _ _ ih => exact ih hs.dequeue

theorem Mirrors.mono (h : Mirrors now s) (hle : now ≤ later) : Mirrors later s where
  keyed := h.keyed
  ordered := h.ordered
  dated := h.dated
  le := h.le
  eq a ht hlocked := h.eq a ht (isLocked_of_le hle hlocked)

theorem lockedOn_saved (d : Draft) (a : Address) (date : Date) :
    d.saved.lockedOn a date = if a = d.account.address then d.account.schedule.amountOn date
      else d.store.lockedOn a date :=
  lockedWhere_saved d a _

theorem queuedAt_saved (d : Draft) (key : QueueKey) : d.saved.queuedAt key = d.store.queuedAt key :=
  rfl

theorem Mirrors.opens (h : Mirrors now s) (hopens : s.Opens address account opened) :
    Mirrors now (Draft.saved ⟨account, opened⟩) := by
  have haddress : account.address = address := hopens.address_eq h.keyed
  have hqueue : opened.queue = s.queue := hopens.queue_eq
  have hlocked : ∀ a date, (Draft.saved ⟨account, opened⟩).lockedOn a date = s.lockedOn a date := by
    intro a date
    rw [lockedOn_saved]
    simp only [haddress]
    split
    · rename_i ha
      rw [ha]
      exact hopens.amountWhere_eq _
    · exact lockedWhere_congr hopens.accounts_eq a _
  have hqueued : ∀ key, (Draft.saved ⟨account, opened⟩).queuedAt key = s.queuedAt key := by
    intro key
    unfold queuedAt
    rw [← hqueue]
    rfl
  constructor
  · exact (h.keyed.of_accounts_eq hopens.accounts_eq).saved
  · intro a b hb
    rw [lockup?_saved] at hb
    split at hb
    · cases hb
      rcases hopens.empty_or_lockup? with hempty | haccount
      · rw [hempty]
        exact Schedule.ordered_empty
      · exact h.ordered haccount
    · unfold lockup? account? at hb
      rw [hopens.accounts_eq] at hb
      exact h.ordered hb
  · intro key entry hentry
    change opened.queue.get? key = some entry at hentry
    rw [hqueue] at hentry
    exact h.dated key entry hentry
  · intro date time a ht
    rw [hlocked, hqueued]
    exact h.le a ht
  · intro date time a ht hdate
    rw [hlocked, hqueued]
    exact h.eq a ht hdate

section

variable {d d' : Draft} (h : Mirrors now d.saved)

include h

theorem Mirrors.draft_ordered : d.account.schedule.Ordered := by
  apply h.ordered (a := d.account.address)
  rw [lockup?_saved, if_pos rfl]

theorem Mirrors.draft_le (ht : unlockTime? date = some time) :
    d.store.queuedAt ⟨time, d.account.address⟩ ≤ d.account.schedule.amountOn date := by
  have hle := h.le d.account.address ht
  rwa [lockedOn_saved, if_pos rfl] at hle

theorem Mirrors.draft_eq (ht : unlockTime? date = some time) (hdate : isLocked now date) :
    d.store.queuedAt ⟨time, d.account.address⟩ = d.account.schedule.amountOn date := by
  have heq := h.eq d.account.address ht hdate
  rwa [lockedOn_saved, if_pos rfl] at heq

/-- A step that works on one account and on its entries in the queue has to keep only
these two in agreement. -/
theorem Mirrors.redraft (haddress : d'.account.address = d.account.address)
    (haccounts : d'.store.accounts = d.store.accounts)
    (hordered : d'.account.schedule.Ordered) (hdated : d'.store.Dated)
    (hothers : ∀ key, key.address ≠ d.account.address →
      d'.store.queuedAt key = d.store.queuedAt key)
    (hle : ∀ {date time}, unlockTime? date = some time →
      d'.store.queuedAt ⟨time, d.account.address⟩ ≤ d'.account.schedule.amountOn date)
    (heq : ∀ {date time}, unlockTime? date = some time → isLocked now date →
      d'.store.queuedAt ⟨time, d.account.address⟩ = d'.account.schedule.amountOn date) :
    Mirrors now d'.saved := by
  have hlocked : ∀ a date, d'.saved.lockedOn a date =
      if a = d.account.address then d'.account.schedule.amountOn date
      else d.saved.lockedOn a date := by
    intro a date
    unfold lockedOn lockedWhere
    rw [lockup?_saved_of haddress haccounts]
    by_cases ha : a = d.account.address
    · rw [if_pos ha, if_pos ha]
      rfl
    · rw [if_neg ha, if_neg ha]
  constructor
  · intro a account haccount
    rw [account?_saved_of haddress haccounts] at haccount
    split at haccount
    · rename_i ha
      cases haccount
      exact haddress.trans ha.symm
    · exact h.keyed a account haccount
  · intro a account haccount
    rw [lockup?_saved_of haddress haccounts] at haccount
    split at haccount
    · cases haccount
      exact hordered
    · exact h.ordered haccount
  · exact hdated
  · intro date time a ht
    rw [queuedAt_saved, hlocked]
    split
    · rename_i ha
      rw [ha]
      exact hle ht
    · rename_i hne
      rw [hothers _ hne]
      exact h.le a ht
  · intro date time a ht hdate
    rw [queuedAt_saved, hlocked]
    split
    · rename_i ha
      rw [ha]
      exact heq ht hdate
    · rename_i hne
      rw [hothers _ hne]
      exact h.eq a ht hdate

theorem Mirrors.alters {e : Effect} (halters : Draft.Alters e d d')
    (hordered : d'.account.schedule.Ordered) (hdated : d'.store.Dated) : Mirrors now d'.saved := by
  apply h.redraft halters.address_eq halters.requeued.accounts_eq hordered hdated
  · intro key hkey
    unfold queuedAt
    rw [halters.others key hkey]
  · intro date time ht
    have hold := h.draft_le ht
    have hlocked := halters.locked date
    have hqueued := halters.queued ht
    omega
  · intro date time ht hdate
    have hold := h.draft_eq ht hdate
    have hlocked := halters.locked date
    have hqueued := halters.queued ht
    omega

end

theorem Mirrors.add {schedule : Schedule} {queued total : Amount}
    (h : Mirrors now (Draft.saved ⟨account, s⟩)) (hdate : unlockTime? date = some time)
    (hne : amount ≠ Amount.zero) (hupsert : account.schedule.upsert date amount = .ok schedule)
    (hqueued : s.queuedAt ⟨time, account.address⟩ + amount.toNat = queued.toNat)
    (htotal : s.total.toNat + amount.toNat = total.toNat) :
    Mirrors now (Draft.saved ⟨{ account with schedule := schedule },
      (s.enqueue ⟨time, account.address⟩ queued).setTotal total⟩) := by
  have hpos := Amount.toNat_pos hne
  refine h.alters (Draft.alters_add hdate hne hupsert hqueued htotal)
    (h.draft_ordered.upsert hupsert) ?_
  exact Dated.enqueue h.dated hdate (Amount.ne_zero_of_pos (by omega))

theorem Mirrors.move {move : Move} {schedule : Schedule} {sourceTime targetTime : Nat}
    {queued : Amount} (h : Mirrors now (Draft.saved ⟨account, s⟩))
    (hsource : unlockTime? move.source = some sourceTime)
    (htarget : unlockTime? move.target = some targetTime) (hne : move.amount ≠ Amount.zero)
    (hshift : account.schedule.shift move.source move.target move.amount = .ok schedule)
    (hrest : s.queuedAt ⟨sourceTime, account.address⟩ = move.amount.toNat + rest.toNat)
    (hqueued : (s.leaveQueued ⟨sourceTime, account.address⟩ rest).queuedAt
      ⟨targetTime, account.address⟩ + move.amount.toNat = queued.toNat) :
    Mirrors now (Draft.saved ⟨{ account with schedule := schedule },
      (s.leaveQueued ⟨sourceTime, account.address⟩ rest).enqueue
        ⟨targetTime, account.address⟩ queued⟩) := by
  have hpos := Amount.toNat_pos hne
  have hdated : s.Dated := h.dated
  refine h.alters (Draft.alters_move hsource htarget hshift hrest hqueued)
    (h.draft_ordered.shift hshift) ?_
  exact (hdated.leaveQueued hsource).enqueue htarget (Amount.ne_zero_of_pos (by omega))

/-! ## Releasing -/

section

variable {locks : List Lock}

theorem Releases.queuedAt_le (h : s.Releases address locks t) (key : QueueKey) :
    t.queuedAt key ≤ s.queuedAt key := by
  induction h with
  | nil => exact le_rfl
  | undated _ _ ih => exact ih
  | absent _ _ _ ih => exact ih
  | taken _ _ _ _ ih =>
    refine ih.trans ?_
    rw [queuedAt_setTotal, queuedAt_dequeue]
    split
    · exact Nat.zero_le _
    · exact le_rfl

theorem Releases.queuedAt_eq_zero (h : s.Releases address locks t) {lock : Lock}
    (hlock : lock ∈ locks) (htime : unlockTime? lock.date = some time) :
    t.queuedAt ⟨time, address⟩ = 0 := by
  induction h with
  | nil => cases hlock
  | undated hnone _ ih =>
    rcases List.mem_cons.1 hlock with rfl | hmem
    · rw [hnone] at htime
      cases htime
    · exact ih hmem
  | absent hdate hnone hrest ih =>
    rcases List.mem_cons.1 hlock with rfl | hmem
    · rw [hdate] at htime
      cases htime
      refine Nat.eq_zero_of_le_zero ((hrest.queuedAt_le _).trans ?_)
      unfold queuedAt
      rw [hnone]
      rfl
    · exact ih hmem
  | taken hdate _ _ hrest ih =>
    rcases List.mem_cons.1 hlock with rfl | hmem
    · rw [hdate] at htime
      cases htime
      refine Nat.eq_zero_of_le_zero ((hrest.queuedAt_le _).trans ?_)
      rw [queuedAt_setTotal, queuedAt_dequeue, if_pos rfl]
    · exact ih hmem

theorem Releases.queuedAt_eq (h : s.Releases address locks t) {key : QueueKey}
    (hkey : ∀ lock ∈ locks, unlockTime? lock.date = some key.time → key.address ≠ address) :
    t.queuedAt key = s.queuedAt key := by
  induction h with
  | nil => rfl
  | undated _ _ ih => exact ih fun lock hlock => hkey lock (List.mem_cons_of_mem _ hlock)
  | absent _ _ _ ih => exact ih fun lock hlock => hkey lock (List.mem_cons_of_mem _ hlock)
  | taken hdate _ _ _ ih =>
    rw [ih fun lock hlock => hkey lock (List.mem_cons_of_mem _ hlock), queuedAt_setTotal,
      queuedAt_dequeue, if_neg]
    rintro rfl
    exact hkey _ (List.mem_cons_self ..) hdate rfl

/-- Nothing stays queued under a date that has passed, once the expired locks of its account
have been released. -/
theorem Mirrors.queuedAt_released (h : Mirrors now (Draft.saved ⟨account, s⟩))
    (hreleases : s.Releases account.address (account.schedule.expired now) t)
    (htime : unlockTime? date = some time) (hpassed : ¬isLocked now date) :
    t.queuedAt ⟨time, account.address⟩ = 0 := by
  have hordered : account.schedule.Ordered := h.draft_ordered
  by_cases hamount : account.schedule.amountOn date = 0
  · have hle := h.draft_le htime
    have hreleased := hreleases.queuedAt_le ⟨time, account.address⟩
    simp only at hle
    omega
  · obtain ⟨x, hx⟩ := Schedule.exists_mem_of_amountOn_ne_zero hamount
    exact hreleases.queuedAt_eq_zero (hordered.mem_expired hx hpassed) htime

theorem Mirrors.clear (h : Mirrors now s) (haccount : s.lockup? address = some account)
    (hreleases : s.Releases account.address (account.schedule.expired now) t) :
    Mirrors now (Draft.saved ⟨{ account with schedule := account.schedule.unexpired now }, t⟩) := by
  have hdraft : Mirrors now (Draft.saved ⟨account, s⟩) :=
    h.opens (.upgraded (account?_eq_of_lockup? haccount))
  have hkept : ∀ {d time}, unlockTime? d = some time → isLocked now d →
      t.queuedAt ⟨time, account.address⟩ = s.queuedAt ⟨time, account.address⟩ := by
    intro d time ht hd
    apply hreleases.queuedAt_eq
    intro lock hlock hdate
    rw [unlockTime?_injective ht hdate] at hd
    exact absurd hd (Schedule.not_locked_of_mem_expired hlock)
  have hamount : ∀ {d}, isLocked now d →
      (account.schedule.unexpired now).amountOn d = account.schedule.amountOn d := by
    intro d hd
    apply Schedule.amountWhere_unexpired
    intro e he
    rw [decide_eq_true_eq] at he
    rw [he]
    exact hd
  refine hdraft.redraft rfl hreleases.requeued.accounts_eq (hdraft.draft_ordered.unexpired now)
    (Dated.releases h.dated hreleases) ?_ ?_ ?_
  · intro key hkey
    exact hreleases.queuedAt_eq fun _ _ _ => hkey
  · intro d time ht
    have hle := hdraft.draft_le ht
    simp only at hle ⊢
    by_cases hd : isLocked now d
    · rw [hkept ht hd, hamount hd]
      exact hle
    · rw [hdraft.queuedAt_released hreleases ht hd]
      exact Nat.zero_le _
  · intro d time ht hd
    simp only
    rw [hkept ht hd, hamount hd]
    exact hdraft.draft_eq ht hd

end

theorem queuedAt_swept (s : Store) (seconds : Nat) (total : Option Amount) (key : QueueKey) :
    (s.withQueue (s.queue.filter fun e => !decide (e.1.time ≤ seconds)) total).queuedAt key =
      if key.time ≤ seconds then 0 else s.queuedAt key := by
  unfold queuedAt withQueue
  rw [Table.get?_filter]
  by_cases hdue : key.time ≤ seconds
  · simp [hdue]
  · cases s.queue.get? key <;> simp [hdue, Option.filter]

theorem Mirrors.sweep (h : Mirrors now s) (total : Amount) :
    Mirrors now (s.withQueue
      (s.queue.filter fun e => !decide (e.1.time ≤ now.seconds)) (some total)) := by
  constructor
  · exact h.keyed
  · exact h.ordered
  · intro key entry hentry
    change (s.queue.filter _).get? key = some entry at hentry
    rw [Table.get?_filter] at hentry
    exact h.dated key entry (Option.filter_eq_some_iff.1 hentry).1
  · intro date time a ht
    rw [queuedAt_swept]
    split
    · exact Nat.zero_le _
    · exact h.le a ht
  · intro date time a ht hdate
    have hahead := (seconds_lt_iff_isLocked ht).2 hdate
    rw [queuedAt_swept, if_neg (Nat.not_le.2 hahead)]
    exact h.eq a ht hdate

end Store

variable {now : Timestamp} {s t : Store}

theorem Draft.Adds.mirrors {d d' : Draft} {locks : List (Date × Amount)} (h : d.Adds locks d')
    (hne : ∀ l ∈ locks, l.2 ≠ Amount.zero) (hd : d.saved.Mirrors now) : d'.saved.Mirrors now := by
  induction h with
  | nil => exact hd
  | cons hdate hupsert hqueued htotal _ ih =>
    exact ih (fun l hl => hne l (List.mem_cons_of_mem _ hl))
      (hd.add hdate (hne _ (List.mem_cons_self ..)) hupsert hqueued htotal)

theorem Draft.Moves.mirrors {d d' : Draft} {moves : List Move} (h : d.Moves moves d')
    (hne : ∀ m ∈ moves, m.amount ≠ Amount.zero) (hd : d.saved.Mirrors now) :
    d'.saved.Mirrors now := by
  induction h with
  | nil => exact hd
  | cons hsource htarget hshift hrest hqueued _ ih =>
    exact ih (fun m hm => hne m (List.mem_cons_of_mem _ hm))
      (hd.move hsource htarget (hne _ (List.mem_cons_self ..)) hshift hrest hqueued)

theorem Change.mirrors {terms : Option Config} (h : Change now terms s t) (hs : s.Mirrors now) :
    t.Mirrors now := by
  cases h with
  | version _ => exact ⟨hs.keyed, hs.ordered, hs.dated, hs.le, hs.eq⟩
  | configure _ => exact ⟨hs.keyed, hs.ordered, hs.dated, hs.le, hs.eq⟩
  | register _ => exact ⟨hs.keyed, hs.ordered, hs.dated, hs.le, hs.eq⟩
  | lock hopens hlocks hadds =>
    exact hadds.mirrors (fun l hl => (hlocks l hl).2) (hs.opens hopens)
  | extend haccount hmoves hdraft =>
    exact hdraft.mirrors (fun m hm => (hmoves m hm).2.2.2)
      (hs.opens (.upgraded (Store.account?_eq_of_lockup? haccount)))
  | clear haccount hreleases => exact hs.clear haccount hreleases
  | sweep _ => exact hs.sweep _

theorem Store.Plain.mirrors (h : s.Plain) (hqueue : s.queue = .empty) : s.Mirrors now := by
  have hqueued : ∀ key, s.queuedAt key = 0 := by
    intro key
    unfold queuedAt
    rw [hqueue]
    rfl
  have hlocked : ∀ a date, s.lockedOn a date = 0 := fun a =>
    lockedOn_of_lockup?_eq_none (h.lockup?_eq_none a)
  constructor
  · exact h.keyed
  · intro a account haccount
    rw [h.lockup?_eq_none] at haccount
    cases haccount
  · intro key entry hentry
    rw [hqueue] at hentry
    cases hentry
  · intro date time a _
    rw [hqueued]
    exact Nat.zero_le _
  · intro date time a _ _
    rw [hqueued, hlocked]

theorem Host.maintains_mirrors_of {host : Host}
    (hstarts : ∀ {s}, host.starts s → s.queue = .empty ∧ s.Plain)
    (hfollows : ∀ {now later}, host.follows now later → now ≤ later)
    (hkeeps : ∀ {fault}, host.keeps fault → fault.Ordinary) :
    host.Maintains fun now s => s.Mirrors now where
  starts hs := (hstarts hs).2.mirrors (hstarts hs).1
  follows hnext hs := hs.mono (hfollows hnext)
  change hs hchange := hchange.mirrors hs
  torn _ hkept htorn := absurd (hkeeps hkept) htorn.1

theorem Host.maintains_mirrors : Host.orderly.Maintains fun now s => s.Mirrors now :=
  maintains_mirrors_of (fun hs => ⟨hs.queue, hs.plain⟩) id id

theorem Host.maintains_mirrors_anyTotal : Host.anyTotal.Maintains fun now s => s.Mirrors now :=
  maintains_mirrors_of id id id

/-- From the last block on, queue and schedules of a reachable store agree. -/
theorem Host.Reaches.mirrors {last : Timestamp} (h : Host.anyTotal.Reaches last s)
    (hnow : last ≤ now) : s.Mirrors now :=
  (maintains_mirrors_anyTotal.reaches h).mono hnow

namespace Store

variable {a : Address} {date : Date} {x : Amount}

theorem Mirrors.mem_of_queued (h : s.Mirrors now) (hdate : isLocked now date) {time : Nat}
    (htime : unlockTime? date = some time) (hget : s.queue.get? ⟨time, a⟩ = some (.holds x)) :
    ∃ account, s.account? a = some (.lockup account) ∧ ⟨date, x⟩ ∈ account.schedule.locks := by
  obtain ⟨_, y, -, hy, hne⟩ := h.dated _ _ hget
  cases hy
  have heq := h.eq a htime hdate
  rw [queuedAt_of_get? hget] at heq
  cases haccount : s.lockup? a with
  | none =>
    rw [lockedOn_of_lockup?_eq_none haccount] at heq
    exact absurd (Amount.ext heq) hne
  | some account =>
    rw [lockedOn_of_lockup? haccount] at heq
    exact ⟨account, account?_eq_of_lockup? haccount, (h.ordered haccount).mem_iff.2 ⟨heq.symm, hne⟩⟩

theorem Mirrors.queued_of_mem (h : s.Mirrors now) (hdate : isLocked now date)
    {account : LockupAccount} (haccount : s.account? a = some (.lockup account))
    (hlock : ⟨date, x⟩ ∈ account.schedule.locks) :
    ∃ time, unlockTime? date = some time ∧ s.queue.get? ⟨time, a⟩ = some (.holds x) := by
  obtain ⟨time, htime⟩ := exists_unlockTime_of_isLocked hdate
  have hlockup := lockup?_eq_some_iff.2 haccount
  obtain ⟨hamount, hne⟩ := (h.ordered hlockup).mem_iff.1 hlock
  have heq := h.eq a htime hdate
  rw [lockedOn_of_lockup? hlockup, hamount] at heq
  exact ⟨time, htime, h.dated.get?_of_queuedAt heq hne⟩

/-- Every entry of the queue, due or not, belongs to an account with a lock on its date. -/
theorem Mirrors.exists_lock (h : s.Mirrors now) {key : QueueKey} {entry : QueueEntry}
    (hget : s.queue.get? key = some entry) :
    ∃ date x, unlockTime? date = some key.time ∧ entry = .holds x ∧ x ≠ Amount.zero ∧
      ∃ account y, s.account? key.address = some (.lockup account) ∧
        ⟨date, y⟩ ∈ account.schedule.locks := by
  obtain ⟨date, x, htime, rfl, hne⟩ := h.dated _ _ hget
  refine ⟨date, x, htime, rfl, hne, ?_⟩
  have hle := h.le key.address htime
  rw [queuedAt_of_get? hget] at hle
  have hpos := Amount.toNat_pos hne
  cases haccount : s.lockup? key.address with
  | none =>
    rw [lockedOn_of_lockup?_eq_none haccount] at hle
    omega
  | some account =>
    rw [lockedOn_of_lockup? haccount] at hle
    have hne : account.schedule.amountOn date ≠ 0 := by omega
    obtain ⟨y, hy⟩ := Schedule.exists_mem_of_amountOn_ne_zero hne
    exact ⟨account, y, account?_eq_of_lockup? haccount, hy⟩

/-- In every store that an orderly host can reach, and at every later time, the queue
holds an amount under the unlock time of a date that is still locked exactly if it is a
lock of the account. Every entry is positive and stands under the unlock time of a date
on which its account has a lock, also when the date has passed. -/
theorem queue_mirrors_schedules {last : Timestamp} (h : Host.orderly.Reaches last s)
    (hnow : last ≤ now) :
    (∀ (a : Address) (date : Date) (x : Amount), isLocked now date →
      ((∃ time, unlockTime? date = some time ∧ s.queue.get? ⟨time, a⟩ = some (.holds x)) ↔
        ∃ account, s.account? a = some (.lockup account) ∧
          ⟨date, x⟩ ∈ account.schedule.locks)) ∧
    ∀ (key : QueueKey) (entry : QueueEntry), s.queue.get? key = some entry →
      ∃ date x, unlockTime? date = some key.time ∧ entry = .holds x ∧ x ≠ Amount.zero ∧
        ∃ account y, s.account? key.address = some (.lockup account) ∧
          ⟨date, y⟩ ∈ account.schedule.locks := by
  have hs : s.Mirrors now := (Host.maintains_mirrors.reaches h).mono hnow
  refine ⟨fun a date x hdate => ⟨?_, ?_⟩, fun key entry hget => hs.exists_lock hget⟩
  · rintro ⟨time, htime, hget⟩
    exact hs.mem_of_queued hdate htime hget
  · rintro ⟨account, haccount, hlock⟩
    exact hs.queued_of_mem hdate haccount hlock

/-- After the first lock the queue holds it under its unlock time, and so does the schedule. -/
theorem first_lock_mirrored :
    ∃ account, FirstLock.chain.store.account? FirstLock.alice = some (.lockup account) ∧
      ⟨⟨59, by decide, by decide⟩, ⟨50, by decide⟩⟩ ∈ account.schedule.locks := by
  have h := queue_mirrors_schedules FirstLock.reached (Nat.le_refl _)
  refine (h.1 FirstLock.alice _ _ (by decide)).1 ⟨59 * 86400, by decide, ?_⟩
  decide +kernel

end Store

end StakeLock
