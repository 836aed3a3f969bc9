import StakeLock.Proofs.EndOfBlock
import StakeLock.Proofs.Mirror

/-!
# Due entries beside their locks

A lock that has expired stays in the schedule after its queue entry has been swept. No path
adds to such a date again, unless the window of unlock dates opens on the day itself: then
another lock of that day is queued alone, while the schedule adds it to the expired one.
-/

namespace StakeLock

variable {now : Timestamp} {terms : Option Config} {date : Date} {time : Nat}

section

variable {d d' : Draft} (hdate : unlockTime? date = some time)

include hdate

theorem Draft.Adds.queuedAt_of_ne {locks : List (Date × Amount)} (h : d.Adds locks d')
    (hne : ∀ l ∈ locks, l.1 ≠ date) (a : Address) :
    d'.store.queuedAt ⟨time, a⟩ = d.store.queuedAt ⟨time, a⟩ := by
  induction h with
  | nil => rfl
  | cons hlock _ _ _ _ ih =>
    have hother := Store.key_ne hdate hlock (hne _ (List.mem_cons_self ..)).symm
    rw [ih fun l hl => hne l (List.mem_cons_of_mem _ hl)]
    simp only
    rw [Store.queuedAt_setTotal, Store.queuedAt_enqueue, if_neg (hother _ _)]

theorem Draft.Moves.queuedAt_of_ne {moves : List Move} (h : d.Moves moves d')
    (hne : ∀ m ∈ moves, m.source ≠ date ∧ m.target ≠ date) (a : Address) :
    d'.store.queuedAt ⟨time, a⟩ = d.store.queuedAt ⟨time, a⟩ := by
  induction h with
  | nil => rfl
  | cons hsource htarget _ _ _ _ ih =>
    obtain ⟨hnesource, hnetarget⟩ := hne _ (List.mem_cons_self ..)
    rw [ih fun m hm => hne m (List.mem_cons_of_mem _ hm)]
    simp only
    rw [Store.queuedAt_enqueue, if_neg (Store.key_ne hdate htarget hnetarget.symm _ _),
      Store.queuedAt_leaveQueued, if_neg (Store.key_ne hdate hsource hnesource.symm _ _)]

end

namespace Store

variable {s t : Store}

/-- An entry that is in the queue holds just what the schedule of its account does. -/
def Exact (s : Store) : Prop :=
  ∀ date time a, unlockTime? date = some time →
    s.queuedAt ⟨time, a⟩ = 0 ∨ s.queuedAt ⟨time, a⟩ = s.lockedOn a date

end Store

section

variable {s t : Store}

/-- With a window that opens after the day itself, a change either leaves nothing queued under
a date that has passed, or it leaves queue and schedule there as they are. -/
theorem Change.passed_date (h : Change now terms s t) (hs : s.Mirrors now)
    (hwindow : ∀ config ∈ terms, 0 < config.minMonths) (hdate : unlockTime? date = some time)
    (hpassed : ¬isLocked now date) (a : Address) : t.queuedAt ⟨time, a⟩ = 0 ∨
      t.queuedAt ⟨time, a⟩ = s.queuedAt ⟨time, a⟩ ∧ t.lockedOn a date = s.lockedOn a date := by
  cases h with
  | version _ => exact .inr ⟨rfl, rfl⟩
  | configure _ => exact .inr ⟨rfl, rfl⟩
  | register _ => exact .inr ⟨rfl, rfl⟩
  | @lock opened _ _ locks d hopens hlocks hadds =>
    right
    have hne : ∀ l ∈ locks, l.1 ≠ date := by
      rintro l hl rfl
      exact hpassed ((hlocks l hl).1.isLocked hwindow)
    constructor
    · calc d.saved.queuedAt ⟨time, a⟩
        _ = opened.queuedAt ⟨time, a⟩ := hadds.queuedAt_of_ne hdate hne a
        _ = s.queuedAt ⟨time, a⟩ := by rw [Store.queuedAt, hopens.queue_eq, ← Store.queuedAt]
    · have hnone : (locks.map fun l => if l.1 = date then l.2.toNat else 0).sum = 0 :=
        List.sum_eq_zero (List.forall_mem_map.2 fun l hl => if_neg (hne l hl))
      have hlocked := hadds.lockedWhere_saved hs.keyed hopens a fun e => e = date
      simp only [decide_eq_true_eq, hnone, ite_self, Nat.add_zero] at hlocked
      exact hlocked
  | @extend _ _ moves d haccount hmoves hdraft =>
    right
    have hne : ∀ m ∈ moves, m.source ≠ date ∧ m.target ≠ date := by
      intro m hm
      obtain ⟨-, hsource, hlt, -⟩ := hmoves m hm
      constructor
      · rintro rfl
        exact hpassed hsource
      · rintro rfl
        exact hpassed (isLocked_of_lt hlt hsource)
    refine ⟨hdraft.queuedAt_of_ne hdate hne a, ?_⟩
    refine hdraft.lockedWhere_saved_eq hs.keyed haccount (fun m hm => ?_) a
    obtain ⟨hsource, htarget⟩ := hne m hm
    rw [decide_eq_false hsource, decide_eq_false htarget]
  | @clear t _ account haccount hreleases =>
    have hdraft : (Draft.saved ⟨account, s⟩).Mirrors now :=
      hs.opens (.upgraded (Store.account?_eq_of_lockup? haccount))
    by_cases ha : a = account.address
    · left
      rw [ha, Store.queuedAt_saved]
      exact hdraft.queuedAt_released hreleases hdate hpassed
    · right
      constructor
      · exact hreleases.queuedAt_eq fun _ _ _ => ha
      · calc _ = t.lockedOn a date := (Store.lockedOn_saved _ a date).trans (if_neg ha)
          _ = s.lockedOn a date := Store.lockedWhere_congr hreleases.requeued.accounts_eq a _
  | sweep _ =>
    left
    have hdue : time ≤ now.seconds := Nat.not_lt.1 fun hahead =>
      hpassed ((seconds_lt_iff_isLocked hdate).1 hahead)
    rw [Store.queuedAt_swept, if_pos hdue]

theorem Change.exact (h : Change now terms s t) (hs : s.Mirrors now)
    (hwindow : ∀ config ∈ terms, 0 < config.minMonths) (hexact : s.Exact) : t.Exact := by
  intro date time a hdate
  by_cases hlocked : isLocked now date
  · exact .inr ((h.mirrors hs).eq a hdate hlocked)
  · rcases h.passed_date hs hwindow hdate hlocked a with hnone | ⟨hqueued, hamount⟩
    · exact .inl hnone
    · rw [hqueued, hamount]
      exact hexact date time a hdate

theorem Changes.exact (h : Changes now terms s t) (hs : s.Mirrors now)
    (hwindow : ∀ config ∈ terms, 0 < config.minMonths) (hexact : s.Exact) : t.Exact := by
  suffices t.Mirrors now ∧ t.Exact from this.2
  induction h with
  | refl => exact ⟨hs, hexact⟩
  | tail _ hchange ih => exact ⟨hchange.mirrors ih.1, hchange.exact ih.1 hwindow ih.2⟩

/-- In a run whose calls all find a window that opens a month ahead at least, every entry of
the queue holds just what the schedule of its account does, also when it is due. -/
theorem Host.Runs.exact {steps : List Step} (h : Host.anyTotal.Runs now steps s)
    (hwindow : ∀ step ∈ steps, ∀ config ∈ step.before.config, 0 < config.minMonths) : s.Exact := by
  induction h with
  | start hs =>
    intro date time a _
    left
    unfold Store.queuedAt
    rw [hs.1]
    rfl
  | pass _ _ ih => exact ih hwindow
  | done hbefore hnext hrun ih =>
    have hs := hbefore.reaches.mirrors hnext
    obtain ⟨hbefores, hlast⟩ := List.forall_mem_append.1 hwindow
    exact (ends_call.of_ok hrun).exact hs (hlast _ (List.mem_singleton_self _)) (ih hbefores)
  | failed hbefore hnext hrun hkept ih =>
    have hs := hbefore.reaches.mirrors hnext
    obtain ⟨hbefores, hlast⟩ := List.forall_mem_append.1 hwindow
    obtain ⟨m, hm, heq | htorn⟩ := ends_call.of_error hrun
    · rw [heq]
      exact hm.exact hs (hlast _ (List.mem_singleton_self _)) (ih hbefores)
    · exact absurd hkept htorn.1

/-- In every run of a host whose time does not run backwards, every entry of the queue, due or
not, stands under the unlock time of a date on which its account has a lock of at least that
amount. The amounts are equal while the date is locked. They are always equal if every call
of the run found a window that opens a month ahead at least. -/
theorem queued_beside_lock {steps : List Step} (h : Host.anyTotal.Runs now steps s)
    {key : QueueKey} {entry : QueueEntry} (hget : s.queue.get? key = some entry) :
    ∃ date x account y, dateOfUnlockTime? key.time = some date ∧
      unlockTime? date = some key.time ∧ entry = .holds x ∧
      s.account? key.address = some (.lockup account) ∧ ⟨date, y⟩ ∈ account.schedule.locks ∧
      x ≤ y ∧ (isLocked now date → x = y) ∧
      ((∀ step ∈ steps, ∀ config ∈ step.before.config, 0 < config.minMonths) → x = y) := by
  have hs : s.Mirrors now := h.reaches.mirrors (Nat.le_refl _)
  obtain ⟨date, x, htime, rfl, hne, account, y, haccount, hlock⟩ := hs.exists_lock hget
  have hlockup := Store.lockup?_eq_some_iff.2 haccount
  have hlocked : s.lockedOn key.address date = y.toNat := by
    unfold Store.lockedOn
    rw [Store.lockedWhere_of_lockup? hlockup]
    exact (hs.ordered hlockup).amountOn_of_mem hlock
  have hqueued := Store.queuedAt_of_get? hget
  have hle := hs.le key.address htime
  rw [hlocked, hqueued] at hle
  refine ⟨date, x, account, y, dateOfUnlockTime?_eq htime, htime, rfl, haccount, hlock, hle, ?_, ?_⟩
  · intro hdate
    have heq := hs.eq key.address htime hdate
    rw [hlocked, hqueued] at heq
    exact Amount.ext heq
  · intro hwindow
    have hexact := h.exact hwindow date key.time key.address htime
    rw [hlocked, hqueued] at hexact
    rcases hexact with hzero | heq
    · exact absurd (Amount.ext hzero) hne
    · exact Amount.ext heq

end

namespace FirstLock

/-- The chain before the first lock, with a window that opens a month ahead. -/
def prudent : Chain StrictLedger :=
  ⟨⟨{ start.store with config := some ⟨alice, 1, 24, 100⟩ }, []⟩, ledger⟩

def today : Date := blockDate block.time

/-- Alice locks twice on the same day until that day. In between the block ends. -/
def twiceToday : List (Block × Call) :=
  [(block, .request alice (.lock [⟨"1970-01-01", stake⟩])), (block, .hook .endBlock),
    (block, .request alice (.lock [⟨"1970-01-01", ⟨"stake", ⟨10, by decide⟩⟩⟩]))]

end FirstLock

open FirstLock in
/-- When the first lock is due, and no block has ended yet, it is queued as it is scheduled. -/
theorem due_first_lock_beside_entry : ∃ steps s, Host.anyTotal.Runs dueBlock.time steps s ∧
    s.queue.get? ⟨59 * 86400, alice⟩ = some (.holds stake.amount) ∧
    ∃ date account, dateOfUnlockTime? (59 * 86400) = some date ∧
      s.account? alice = some (.lockup account) ∧
      ⟨date, stake.amount⟩ ∈ account.schedule.locks := by
  have hstart : Host.anyTotal.Runs block.time [] prudent.store :=
    .start ⟨rfl, fun _ _ haccount => nomatch haccount⟩
  have hrun : succeeds ((call.run block).run prudent) := by decide +kernel
  have hqueued : (finalState ((call.run block).run prudent)).store.queue.get?
      ⟨59 * 86400, alice⟩ = some (.holds stake.amount) := by decide +kernel
  obtain ⟨response, hok⟩ := exists_ok_of_succeeds hrun
  have hlocked := hstart.done (Nat.le_refl _) hok
  have hdue := hlocked.pass (by decide : block.time ≤ dueBlock.time)
  obtain ⟨date, x, account, y, hdate, -, hx, haccount, hlock, -, -, heq⟩ :=
    queued_beside_lock hdue hqueued
  cases hx
  refine ⟨_, _, hdue, hqueued, date, account, hdate, haccount, ?_⟩
  have hwindow : stake.amount = y := heq fun step hstep config hconfig => by
    rw [List.nil_append, List.mem_singleton] at hstep
    subst hstep
    cases hconfig
    exact Nat.one_pos
  rw [hwindow]
  exact hlock

open FirstLock in
/-- If the window opens on the day itself, a date that has been swept can be locked again. The
queue then holds the second lock alone, and the schedule both. -/
theorem same_day_lock_falls_short : ∃ steps s, Host.anyTotal.Runs block.time steps s ∧
    s.queue.get? ⟨block.time.seconds, alice⟩ = some (.holds ⟨10, by decide⟩) ∧
    dateOfUnlockTime? block.time.seconds = some today ∧
    (s.lockup? alice).map (fun account => account.schedule.locks) =
      some [⟨today, ⟨60, by decide⟩⟩] := by
  have hstart : Host.anyTotal.Runs block.time [] start.store :=
    .start ⟨rfl, fun _ _ haccount => nomatch haccount⟩
  have hplay : (Host.play start twiceToday).map (fun played =>
      (played.2.store.queue.get? ⟨block.time.seconds, alice⟩,
        (played.2.store.lockup? alice).map fun account => account.schedule.locks)) =
      some (some (.holds ⟨10, by decide⟩), some [⟨today, ⟨60, by decide⟩⟩]) := by decide +kernel
  obtain ⟨⟨steps, c⟩, hplayed, heq⟩ := Option.map_eq_some_iff.1 hplay
  have htimes : List.IsChain (fun earlier later : Timestamp => earlier ≤ later)
      (block.time :: twiceToday.map fun call => call.1.time) := by decide
  have hruns := hstart.play htimes hplayed
  simp only [Prod.mk.injEq] at heq
  exact ⟨_, _, hruns, heq.1, by decide, heq.2⟩

end StakeLock
