import StakeLock.Proofs.Calendar.DateText
import StakeLock.Proofs.Listing

/-!
# Paging through the active locks

Each page goes on where the one before it ends: its cursor is the last lock, printed, and
read back it is the key of that lock in the queue. So the pages together are what is
listed, whatever their lengths are.
-/

namespace StakeLock

open Query

def ActiveLock.cursor (lock : ActiveLock) : LockCursor := ⟨lock.date.text, lock.address.text⟩

/-- Pages that are asked for one after the other until one is empty, each from the last
lock of the one before it and with the next limit. -/
inductive Pages {σ : Type} [HostLedger σ] [AddressRule] (s : Store) (ledger : σ)
    (now : Timestamp) (before : Option String) :
    Option LockCursor → (Nat → Option Nat) → List (List ActiveLock) → Prop
  | done {after limits} :
    answer s ledger now (.activeLocks after (limits 0) before) = .ok (.activeLocks []) →
    Pages s ledger now before after limits []
  | next {after limits page last pages} :
    answer s ledger now (.activeLocks after (limits 0) before) = .ok (.activeLocks page) →
    page.getLast? = some last →
    Pages s ledger now before (some last.cursor) (fun n => limits (n + 1)) pages →
    Pages s ledger now before after limits (page :: pages)

theorem unlockTime?_lt_iff {d e : Date} {t u : Nat} (hd : unlockTime? d = some t)
    (he : unlockTime? e = some u) : t < u ↔ d < e := by
  rw [unlockTime?_eq_some_iff] at hd he
  rw [Date.lt_def]
  omega

def Query.DatedEntry.activeLock (bondDenom : String) (e : DatedEntry) : ActiveLock :=
  ⟨e.key.address, e.date, ⟨bondDenom, e.amount⟩⟩

section

variable {now : Timestamp} {s : Store} {after : Option QueueKey} {before : Option Nat}
variable {limit : Nat} {e : DatedEntry}

theorem filter_lt_eq_drop {l : List DatedEntry}
    (hsorted : l.Pairwise fun a b => compare a.key b.key = .lt)
    (he : (l.take limit).getLast? = some e) :
    (l.filter fun d => compare e.key d.key == .lt) = l.drop limit := by
  obtain ⟨init, htake⟩ := List.getLast?_eq_some_iff.1 he
  have hsplit := List.take_append_drop limit l
  rw [htake] at hsplit
  rw [← hsplit, List.pairwise_append, List.pairwise_append] at hsorted
  obtain ⟨⟨-, -, hinit⟩, -, hrest⟩ := hsorted
  have hfront : (init ++ [e]).filter (fun d => compare e.key d.key == .lt) = [] := by
    rw [List.filter_eq_nil_iff]
    intro d hd
    rcases List.mem_append.1 hd with hd | hd
    · have hlt := hinit d hd e (List.mem_singleton_self e)
      simp [Std.OrientedCmp.gt_of_lt hlt]
    · rw [List.mem_singleton.1 hd]
      simp
  have hback : (l.drop limit).filter (fun d => compare e.key d.key == .lt) = l.drop limit := by
    rw [List.filter_eq_self]
    intro d hd
    simp [hrest e (by simp) d hd]
  conv_lhs => rw [← hsplit, List.filter_append, hfront, hback, List.nil_append]

theorem listed_eq_filter (he : e ∈ s.listed now after before) :
    s.listed now (some e.key) before =
      (s.listed now after before).filter fun d => compare e.key d.key == .lt := by
  have hkey : after.all fun key => compare key e.key == .lt := by
    have hlisted := (List.mem_filter.1 he).2
    unfold DatedEntry.isListed at hlisted
    simp only [Bool.and_eq_true] at hlisted
    exact hlisted.1.1
  unfold Store.listed
  rw [List.filter_filter]
  apply List.filter_congr
  intro d _
  unfold DatedEntry.isListed
  by_cases hlt : compare e.key d.key = .lt
  · have hafter : after.all fun key => compare key d.key == .lt := by
      cases after with
      | none => rfl
      | some key =>
        change (compare key e.key == .lt) = true at hkey
        change (compare key d.key == .lt) = true
        rw [beq_iff_eq] at hkey ⊢
        exact Std.TransCmp.lt_trans hkey hlt
    simp [hlt, hafter]
  · have hnot : (compare e.key d.key == .lt) = false := by simpa using hlt
    simp [hnot]

/-- What is listed after the last entry of a page is what the page has left out. -/
theorem listed_eq_drop (he : ((s.listed now after before).take limit).getLast? = some e) :
    s.listed now (some e.key) before = (s.listed now after before).drop limit := by
  rw [listed_eq_filter (List.mem_of_mem_take (List.mem_of_getLast? he)),
    filter_lt_eq_drop (s.pairwise_listed now after before) he]

theorem Store.Dated.pairwise_activeLocks (h : s.Dated) {bondDenom : String} :
    ((s.listed now after before).map (DatedEntry.activeLock bondDenom)).Pairwise fun k l =>
      k.date < l.date ∨ k.date = l.date ∧ k.address.bytes < l.address.bytes := by
  rw [List.pairwise_map]
  refine (s.pairwise_listed now after before).imp_of_mem fun {d e} hd he hlt => ?_
  have hd := (h.mem_listed.1 hd).2.1
  have he := (h.mem_listed.1 he).2.1
  rcases QueueKey.compare_eq_lt_iff.1 hlt with htime | ⟨htime, haddress⟩
  · exact .inl ((unlockTime?_lt_iff hd he).1 htime)
  · rw [htime] at hd
    exact .inr ⟨unlockTime?_injective hd he, haddress⟩

end

/-! ## Runs -/

def pageSize (limit : Option Nat) : Nat := min (limit.getD defaultLimit) maxLimit

theorem pageSize_pos {limit : Option Nat} (h : limit ≠ some 0) : 0 < pageSize limit := by
  unfold pageSize defaultLimit maxLimit
  cases limit with
  | none => decide
  | some n =>
    have hpos : n ≠ 0 := fun hzero => h (by rw [hzero])
    simp only [Option.getD_some]
    omega

section

variable {σ : Type} [HostLedger σ] [AddressRule] {s : Store} {ledger : σ} {now : Timestamp}
variable {before : Option String} {bondDenom : String} {time : Option Nat}

theorem answer_activeLocks {after : Option LockCursor} {key : Option QueueKey}
    (hs : s.Dated) (hdenom : HostLedger.bondDenom ledger = .ok bondDenom)
    (hbefore : before.mapM unlockTimeOf = .ok time) (hafter : after.mapM cursorKey = .ok key)
    (limit : Option Nat) : answer s ledger now (.activeLocks after limit before) =
      .ok (.activeLocks (((s.listed now key time).take (pageSize limit)).map
        (DatedEntry.activeLock bondDenom))) := by
  simp only [answer, listActive, hdenom, hbefore, hafter, hs.readable.page]
  rfl

/-- The cursors of all entries can be read, and name the entries. -/
def Store.Nameable (s : Store) (bondDenom : String) : Prop :=
  ∀ e ∈ s.datedQueue, cursorKey (e.activeLock bondDenom).cursor = .ok e.key

theorem exists_cursor {key : Option QueueKey} {limit : Nat} {last : ActiveLock}
    (hnames : s.Nameable bondDenom)
    (hlast : (((s.listed now key time).take limit).map
      (DatedEntry.activeLock bondDenom)).getLast? = some last) :
    ∃ e : DatedEntry, (some last.cursor).mapM cursorKey = .ok (some e.key) ∧
      s.listed now (some e.key) time = (s.listed now key time).drop limit := by
  rw [List.getLast?_map, Option.map_eq_some_iff] at hlast
  obtain ⟨e, he, rfl⟩ := hlast
  have hmem := List.mem_of_mem_take (List.mem_of_getLast? he)
  refine ⟨e, ?_, listed_eq_drop he⟩
  rw [Option.mapM_some, hnames e (List.mem_filter.1 hmem).1]
  rfl

variable (hs : s.Dated) (hdenom : HostLedger.bondDenom ledger = .ok bondDenom)
  (hbefore : before.mapM unlockTimeOf = .ok time) (hnames : s.Nameable bondDenom)

include hs hdenom hbefore hnames

/-- Pages until an empty one are all that is listed. -/
theorem Pages.flatten_eq {after : Option LockCursor} {key : Option QueueKey}
    {limits : Nat → Option Nat} {pages : List (List ActiveLock)}
    (h : Pages s ledger now before after limits pages) (hlimits : ∀ n, limits n ≠ some 0)
    (hafter : after.mapM cursorKey = .ok key) :
    pages.flatten = (s.listed now key time).map (DatedEntry.activeLock bondDenom) := by
  induction h generalizing key with
  | done hanswer =>
    rw [answer_activeLocks hs hdenom hbefore hafter] at hanswer
    simp only [Except.ok.injEq, Answer.activeLocks.injEq, List.map_eq_nil_iff,
      List.take_eq_nil_iff] at hanswer
    rcases hanswer with hzero | hnone
    · exact absurd hzero (Nat.ne_of_gt (pageSize_pos (hlimits 0)))
    · simp [hnone]
  | next hanswer hlast _ ih =>
    rw [answer_activeLocks hs hdenom hbefore hafter] at hanswer
    cases hanswer
    obtain ⟨e, hcursor, hrest⟩ := exists_cursor hnames hlast
    rw [List.flatten_cons, ih (fun n => hlimits (n + 1)) hcursor, hrest, ← List.map_append,
      List.take_append_drop]

/-- Each page takes something off what is left to list, so there is an empty one. -/
theorem exists_pages {after : Option LockCursor} {key : Option QueueKey}
    (limits : Nat → Option Nat) (hlimits : ∀ n, limits n ≠ some 0)
    (hafter : after.mapM cursorKey = .ok key) :
    ∃ pages, Pages s ledger now before after limits pages := by
  induction hlength : (s.listed now key time).length using Nat.strongRecOn
    generalizing after key limits with
  | ind length ih =>
    have hanswer : answer s ledger now (.activeLocks after (limits 0) before) = _ :=
      answer_activeLocks hs hdenom hbefore hafter (limits 0)
    cases hpage : (((s.listed now key time).take (pageSize (limits 0))).map
        (DatedEntry.activeLock bondDenom)).getLast? with
    | none =>
      rw [List.getLast?_eq_none_iff] at hpage
      rw [hpage] at hanswer
      exact ⟨[], .done hanswer⟩
    | some last =>
      obtain ⟨e, hcursor, hrest⟩ := exists_cursor hnames hpage
      have hshorter : (s.listed now (some e.key) time).length < length := by
        have hsize := pageSize_pos (hlimits 0)
        have hlisted : s.listed now key time ≠ [] := by
          intro hnone
          simp [hnone] at hpage
        have hpos := List.length_pos_iff.2 hlisted
        rw [hrest, List.length_drop]
        omega
      obtain ⟨pages, hpages⟩ := ih _ hshorter (fun n => limits (n + 1))
        (fun n => hlimits (n + 1)) hcursor rfl
      exact ⟨_, .next hanswer hpage hpages⟩

end

/-! ## Agreement with the schedules -/

section

variable {σ : Type} [HostLedger σ] {s : Store} {ledger : σ} {now : Timestamp} {a : Address}
variable {lock : Lock} {bondDenom : String}

theorem mem_map_activeLock_iff {entries : List DatedEntry} {l : ActiveLock} :
    l ∈ entries.map (DatedEntry.activeLock bondDenom) ↔ l.amount.denom = bondDenom ∧
      (l.address, ⟨l.date, l.amount.amount⟩) ∈ entries.map DatedEntry.owned := by
  obtain ⟨address, date, denom, x⟩ := l
  simp only [List.mem_map]
  constructor
  · rintro ⟨e, he, heq⟩
    cases heq
    exact ⟨rfl, e, he, rfl⟩
  · rintro ⟨rfl, e, he, heq⟩
    cases heq
    exact ⟨e, he, rfl⟩

variable [AddressRule]

theorem mem_answer_locks_iff : (∃ locks,
    answer s ledger now (.locks a.text) = .ok (.locks ⟨a, locks⟩) ∧ lock ∈ locks) ↔
      AddressRule.validate a.text = .ok a ∧ lock ∈ s.activeLocks now a := by
  simp only [answer, Store.accountLocks_eq]
  cases AddressRule.validate a.text with
  | error _ => simp [Except.map]
  | ok address =>
    simp only [Except.map, Except.ok.injEq, Answer.locks.injEq, AccountLocks.mk.injEq]
    constructor
    · rintro ⟨_, ⟨rfl, rfl⟩, hlock⟩
      exact ⟨rfl, hlock⟩
    · rintro ⟨rfl, hlock⟩
      exact ⟨_, ⟨rfl, rfl⟩, hlock⟩

/-- In a mirrored store the locks that are listed are those that the question for the locks
of their account lists, up to the last date. -/
theorem Store.Mirrors.mem_activeLocks_iff (hs : s.Mirrors now)
    (hvalid : ∀ e ∈ s.queue.entries, AddressRule.validate e.1.address.text = .ok e.1.address)
    {time : Option Nat} {bound : Option Date}
    (hbound : ∀ d t, unlockTime? d = some t → ((∀ u ∈ time, t < u) ↔ ∀ D ∈ bound, d < D))
    {l : ActiveLock} :
    l ∈ (s.listed now none time).map (DatedEntry.activeLock bondDenom) ↔
      l.amount.denom = bondDenom ∧
      (∃ locks, answer s ledger now (.locks l.address.text) = .ok (.locks ⟨l.address, locks⟩) ∧
        ⟨l.date, l.amount.amount⟩ ∈ locks) ∧
      ∀ D ∈ bound, l.date < D := by
  rw [mem_map_activeLock_iff, mem_answer_locks_iff, hs.mem_owned_iff]
  apply and_congr_right
  intro _
  constructor
  · rintro ⟨hactive, hbefore⟩
    obtain ⟨hlocked, account, haccount, hlock⟩ := Store.mem_activeLocks.1 hactive
    obtain ⟨t, htime, hget⟩ :=
      hs.queued_of_mem hlocked (Store.account?_eq_of_lockup? haccount) hlock
    exact ⟨⟨hvalid _ (Table.get?_eq_some_iff.1 hget), hactive⟩,
      (hbound _ _ htime).1 (hbefore t htime)⟩
  · rintro ⟨⟨-, hactive⟩, hbefore⟩
    exact ⟨hactive, fun t htime => (hbound _ _ htime).2 hbefore⟩

end

/-! ## Printed cursors -/

section

variable {s : Store} {bondDenom : String}

/-- Every entry can be named in a question: its address is valid, and its date has a year
of four digits. -/
structure Store.Printable [AddressRule] (s : Store) : Prop where
  valid : ∀ e ∈ s.queue.entries, AddressRule.validate e.1.address.text = .ok e.1.address
  year : ∀ e ∈ s.queue.entries, ∀ date ∈ dateOfUnlockTime? e.1.time, date.civil.year ≤ 9999

theorem unlockTimeOf_eq {text : String} {date : Date} {time : Nat}
    (hread : parseDate text = .ok date) (htime : unlockTime? date = some time) :
    unlockTimeOf text = .ok time := by
  unfold unlockTimeOf
  rw [hread]
  change Except.mapError _ (unlockTime date) = _
  rw [unlockTime_eq_ok_iff.2 htime]
  rfl

theorem unlockTimeOf_text {date : Date} {time : Nat} (htime : unlockTime? date = some time)
    (hyear : date.civil.year ≤ 9999) : unlockTimeOf date.text = .ok time := by
  have hday : 0 ≤ date.epochDay := by
    rw [unlockTime?_eq_some_iff] at htime
    omega
  exact unlockTimeOf_eq (parseDate_text (Date.year_nonneg hday) hyear) htime

theorem Store.Dated.nameable [AddressRule] (hs : s.Dated) (h : s.Printable) :
    s.Nameable bondDenom := by
  intro e he
  obtain ⟨hget, hdate⟩ := Store.mem_datedQueue.1 he
  have hmem := Table.get?_eq_some_iff.1 hget
  have htime := unlockTimeOf_text (hs.unlockTime?_of_mem he) (h.year _ hmem _ hdate)
  have hvalid := h.valid _ hmem
  change (do
    let time ← unlockTimeOf e.date.text
    let address ← AddressRule.validate e.key.address.text
    return (⟨time, address⟩ : QueueKey)) = _
  rw [htime]
  change (AddressRule.validate e.key.address.text >>= _) = _
  rw [hvalid]
  rfl

theorem exists_unlockTimeOf {before : Option String} {bound : Option Date}
    (hbefore : before.mapM parseDate = .ok bound) (hfirst : ∀ D ∈ bound, 0 ≤ D.epochDay) :
    ∃ time, before.mapM unlockTimeOf = .ok time ∧
      ∀ d t, unlockTime? d = some t → ((∀ u ∈ time, t < u) ↔ ∀ D ∈ bound, d < D) := by
  cases before with
  | none =>
    cases hbefore
    exact ⟨none, rfl, by simp⟩
  | some text =>
    rw [Option.mapM_some] at hbefore
    cases hread : parseDate text with
    | error _ => simp [hread] at hbefore
    | ok last =>
      rw [hread] at hbefore
      cases hbefore
      have htime : unlockTime? last = some (last.epochDay.toNat * secondsPerDay) :=
        if_pos (hfirst last rfl)
      refine ⟨some (last.epochDay.toNat * secondsPerDay), ?_, ?_⟩
      · rw [Option.mapM_some, unlockTimeOf_eq hread htime]
        rfl
      · intro d t hd
        simpa using unlockTime?_lt_iff hd htime

end

/-- In a reachable store whose entries can be named in questions, asking for page after
page with any limits but zero ends with an empty page. The pages together list, in the
order of dates and of the bytes of the addresses and so each one once, just the locks that
the question for the locks of their account lists, as far as they end before the last
date. -/
theorem paging_lists_active_locks {σ : Type} [HostLedger σ] [AddressRule] {last now : Timestamp}
    {s : Store} (h : Host.anyTotal.Reaches last s) (hnow : last ≤ now) (hprintable : s.Printable)
    {ledger : σ} {bondDenom : String} (hdenom : HostLedger.bondDenom ledger = .ok bondDenom)
    {before : Option String} {bound : Option Date} (hbefore : before.mapM parseDate = .ok bound)
    (hfirst : ∀ D ∈ bound, 0 ≤ D.epochDay) {limits : Nat → Option Nat}
    (hlimits : ∀ n, limits n ≠ some 0) :
    (∃ pages, Pages s ledger now before none limits pages) ∧
    ∀ pages, Pages s ledger now before none limits pages →
      pages.flatten.Pairwise (fun k l => k.date < l.date ∨
        k.date = l.date ∧ k.address.bytes < l.address.bytes) ∧
      ∀ l : ActiveLock, l ∈ pages.flatten ↔
        l.amount.denom = bondDenom ∧
        (∃ locks, answer s ledger now (.locks l.address.text) = .ok (.locks ⟨l.address, locks⟩) ∧
          ⟨l.date, l.amount.amount⟩ ∈ locks) ∧
        ∀ D ∈ bound, l.date < D := by
  have hs : s.Mirrors now := h.mirrors hnow
  have hnames : s.Nameable bondDenom := hs.dated.nameable hprintable
  obtain ⟨time, htime, hlt⟩ := exists_unlockTimeOf hbefore hfirst
  refine ⟨exists_pages hs.dated hdenom htime hnames limits hlimits rfl, fun pages hpages => ?_⟩
  have hflatten := hpages.flatten_eq hs.dated hdenom htime hnames hlimits rfl
  rw [hflatten]
  exact ⟨hs.dated.pairwise_activeLocks, fun l => hs.mem_activeLocks_iff hprintable.valid hlt⟩

open FirstLock in
/-- Page by page with one lock each, the first lock is found before the end of its year. -/
theorem first_lock_paged :
    ∃ pages, Pages chain.store chain.ledger nextDay (some "1970-12-31") none (fun _ => some 1)
      pages ∧ ⟨alice, ⟨59, by decide, by decide⟩, ⟨"stake", ⟨50, by decide⟩⟩⟩ ∈ pages.flatten := by
  have hprintable : chain.store.Printable := ⟨by decide +kernel, by decide +kernel⟩
  have hdenom : HostLedger.bondDenom chain.ledger = .ok "stake" := by decide +kernel
  have hbefore : (some "1970-12-31").mapM parseDate =
      .ok (some ⟨364, by decide, by decide⟩) := by decide +kernel
  obtain ⟨⟨pages, hpages⟩, hmem⟩ := paging_lists_active_locks reached.anyTotal
    (by decide : block.time ≤ nextDay) hprintable hdenom hbefore (by decide)
    (by simp : ∀ n : Nat, (fun _ => some 1) n ≠ some 0)
  refine ⟨pages, hpages, ((hmem pages hpages).2 _).2 ⟨rfl, ?_, by decide⟩⟩
  exact ⟨[⟨⟨59, by decide, by decide⟩, ⟨50, by decide⟩⟩], by decide +kernel, by simp⟩

end StakeLock
