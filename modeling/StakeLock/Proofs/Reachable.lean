import StakeLock.Host.Strict
import StakeLock.Proofs.Outcome.Call

/-!
# Reachable stores

A host calls the engine again and again, in blocks of its own choice, with any
ledger and any rule for addresses, and decides which failed calls keep what they
wrote. An invariant has to survive single changes and the passing of time.
-/

namespace StakeLock

/-- The stores that a host begins with, the times that may follow a time, and
the faults after which it may keep what the call wrote. -/
structure Host where
  starts : Store → Prop
  follows : Timestamp → Timestamp → Prop
  keeps : Fault LockError → Prop

/-- A call that a host has kept, with the stores around it and with what it announced. -/
structure Step where
  block : Block
  call : Call
  before : Store
  after : Store
  events : List Event

namespace Host

/-- The stores that calls can lead to, with the time of the last block. A call that is
discarded only passes time. -/
inductive Reaches (host : Host) : Timestamp → Store → Prop
  | start {now s} : host.starts s → Reaches host now s
  | pass {now later s} : Reaches host now s → host.follows now later → Reaches host later s
  | done {σ : Type} [HostLedger σ] [AddressRule] {now : Timestamp} {block : Block} {call : Call}
      {c c' : Chain σ} {response : Response} :
      Reaches host now c.store → host.follows now block.time →
      (call.run block).run c = .ok response c' → Reaches host block.time c'.store
  | failed {σ : Type} [HostLedger σ] [AddressRule] {now : Timestamp} {block : Block} {call : Call}
      {c c' : Chain σ} {fault : Fault LockError} :
      Reaches host now c.store → host.follows now block.time →
      (call.run block).run c = .error fault c' → host.keeps fault → Reaches host block.time c'.store

/-- The calls that lead to a store, in order. A call that fails announces nothing, and is no
step at all if it is discarded. -/
inductive Runs (host : Host) : Timestamp → List Step → Store → Prop
  | start {now s} : host.starts s → Runs host now [] s
  | pass {now later steps s} : Runs host now steps s → host.follows now later →
      Runs host later steps s
  | done {σ : Type} [HostLedger σ] [AddressRule] {now : Timestamp} {steps : List Step}
      {block : Block} {call : Call} {c c' : Chain σ} {response : Response} :
      Runs host now steps c.store → host.follows now block.time →
      (call.run block).run c = .ok response c' →
      Runs host block.time (steps ++ [⟨block, call, c.store, c'.store, response.events⟩]) c'.store
  | failed {σ : Type} [HostLedger σ] [AddressRule] {now : Timestamp} {steps : List Step}
      {block : Block} {call : Call} {c c' : Chain σ} {fault : Fault LockError} :
      Runs host now steps c.store → host.follows now block.time →
      (call.run block).run c = .error fault c' → host.keeps fault →
      Runs host block.time (steps ++ [⟨block, call, c.store, c'.store, []⟩]) c'.store

/-- A property of stores that a host cannot break. -/
structure Maintains (host : Host) (inv : Timestamp → Store → Prop) : Prop where
  starts : ∀ {now s}, host.starts s → inv now s
  follows : ∀ {now later s}, host.follows now later → inv now s → inv later s
  change : ∀ {now terms s t}, inv now s → Change now terms s t → inv now t
  torn : ∀ {now s fault t}, inv now s → host.keeps fault → Torn s fault t → inv now t

variable {host : Host} {inv : Timestamp → Store → Prop} {now : Timestamp} {s t : Store}
variable {terms : Option Config}

theorem Maintains.changes (h : host.Maintains inv) (hs : inv now s) (ht : Changes now terms s t) :
    inv now t := by
  induction ht with
  | refl => exact hs
  | tail _ hchange ih => exact h.change ih hchange

theorem Maintains.leaves (h : host.Maintains inv) {fault : Fault LockError} (hs : inv now s)
    (hkeeps : host.keeps fault) (ht : Leaves now terms s fault t) : inv now t := by
  obtain ⟨m, hm, rfl | htorn⟩ := ht
  · exact h.changes hs hm
  · exact h.torn (h.changes hs hm) hkeeps htorn

theorem Maintains.reaches (h : host.Maintains inv) (hs : host.Reaches now s) : inv now s := by
  induction hs with
  | start hstart => exact h.starts hstart
  | pass _ hfollows ih => exact h.follows hfollows ih
  | done _ hfollows hrun ih => exact h.changes (h.follows hfollows ih) (ends_call.of_ok hrun)
  | failed _ hfollows hrun hkeeps ih =>
    exact h.leaves (h.follows hfollows ih) hkeeps (ends_call.of_error hrun)

theorem Runs.reaches {steps : List Step} (h : host.Runs now steps s) : host.Reaches now s := by
  induction h with
  | start hstart => exact .start hstart
  | pass _ hfollows ih => exact .pass ih hfollows
  | done _ hfollows hrun ih => exact .done ih hfollows hrun
  | failed _ hfollows hrun hkeeps ih => exact .failed ih hfollows hrun hkeeps

/-- Every reachable store is the end of a run. -/
theorem reaches_iff_exists_runs : host.Reaches now s ↔ ∃ steps, host.Runs now steps s := by
  constructor
  · intro h
    induction h with
    | start hstart => exact ⟨[], .start hstart⟩
    | pass _ hfollows ih =>
      obtain ⟨steps, hsteps⟩ := ih
      exact ⟨steps, .pass hsteps hfollows⟩
    | done _ hfollows hrun ih =>
      obtain ⟨steps, hsteps⟩ := ih
      exact ⟨_, .done hsteps hfollows hrun⟩
    | failed _ hfollows hrun hkeeps ih =>
      obtain ⟨steps, hsteps⟩ := ih
      exact ⟨_, .failed hsteps hfollows hrun hkeeps⟩
  · rintro ⟨steps, h⟩
    exact h.reaches

section

variable {σ : Type} [HostLedger σ] [AddressRule]

/-- Makes calls one after another, as long as they succeed. -/
def play (c : Chain σ) : List (Block × Call) → Option (List Step × Chain σ)
  | [] => some ([], c)
  | (block, call) :: calls =>
    match (call.run block).run c with
    | .ok response c' => (play c' calls).map fun (steps, last) =>
        (⟨block, call, c.store, c'.store, response.events⟩ :: steps, last)
    | .error _ _ => none

theorem Runs.play {c c' : Chain σ} {steps more : List Step} {calls : List (Block × Call)}
    (h : host.Runs now steps c.store)
    (htimes : List.IsChain host.follows (now :: calls.map fun call => call.1.time))
    (hplay : play c calls = some (more, c')) :
    host.Runs (calls.foldl (fun _ call => call.1.time) now) (steps ++ more) c'.store := by
  induction calls generalizing now steps more c with
  | nil =>
    cases hplay
    rw [List.append_nil]
    exact h
  | cons first calls ih =>
    obtain ⟨block, call⟩ := first
    rw [List.map_cons, List.isChain_cons_cons] at htimes
    unfold Host.play at hplay
    split at hplay
    · rename_i response m hrun
      obtain ⟨⟨rest, last⟩, hrest, heq⟩ := Option.map_eq_some_iff.1 hplay
      cases heq
      rw [List.append_cons]
      exact ih (h.done htimes.1 hrun) htimes.2 hrest
    · cases hplay

end

/-- A relation between stores that can be followed from change to change. -/
structure Carries (host : Host) (inv : Timestamp → Store → Prop) (R : Store → Store → Prop) :
    Prop where
  refl : ∀ s, R s s
  trans : ∀ {s t u}, R s t → R t u → R s u
  change : ∀ {now terms s t}, inv now s → Change now terms s t → R s t
  torn : ∀ {now s fault t}, inv now s → host.keeps fault → Torn s fault t → R s t

section

variable {R : Store → Store → Prop}

theorem Carries.changes (h : host.Carries inv R) (hinv : host.Maintains inv) (hs : inv now s)
    (ht : Changes now terms s t) : R s t := by
  induction ht with
  | refl => exact h.refl s
  | tail hm hchange ih => exact h.trans ih (h.change (hinv.changes hs hm) hchange)

theorem Carries.leaves (h : host.Carries inv R) (hinv : host.Maintains inv)
    {fault : Fault LockError} (hs : inv now s) (hkeeps : host.keeps fault)
    (ht : Leaves now terms s fault t) : R s t := by
  obtain ⟨m, hm, rfl | htorn⟩ := ht
  · exact h.changes hinv hs hm
  · exact h.trans (h.changes hinv hs hm) (h.torn (hinv.changes hs hm) hkeeps htorn)

theorem Carries.snoc (h : host.Carries inv R) {steps : List Step} {step : Step}
    (hsteps : ∀ other ∈ steps, R other.before step.before ∧ R other.after step.before)
    (hstep : R step.before step.after) :
    ∀ other ∈ steps ++ [step], R other.before step.after ∧ R other.after step.after := by
  intro other hother
  rcases List.mem_append.1 hother with hold | hlast
  · obtain ⟨hbefore, hafter⟩ := hsteps other hold
    exact ⟨h.trans hbefore hstep, h.trans hafter hstep⟩
  · rw [List.mem_singleton.1 hlast]
    exact ⟨hstep, h.refl _⟩

/-- All stores on the way of a run are related to the last one. -/
theorem Carries.runs (h : host.Carries inv R) (hinv : host.Maintains inv) {steps : List Step}
    (hs : host.Runs now steps s) : ∀ step ∈ steps, R step.before s ∧ R step.after s := by
  induction hs with
  | start _ => exact fun _ hstep => nomatch hstep
  | pass _ _ ih => exact ih
  | done hbefore hfollows hrun ih =>
    have hc := hinv.follows hfollows (hinv.reaches hbefore.reaches)
    exact h.snoc ih (h.changes hinv hc (ends_call.of_ok hrun))
  | failed hbefore hfollows hrun hkeeps ih =>
    have hc := hinv.follows hfollows (hinv.reaches hbefore.reaches)
    exact h.snoc ih (h.leaves hinv hc hkeeps (ends_call.of_error hrun))

end

end Host

namespace Store

/-- All accounts are base accounts, each under its own address. -/
def Plain (s : Store) : Prop :=
  ∀ address account, s.account? address = some account →
    ∃ base, account = .base base ∧ base.address = address

structure Fresh (s : Store) : Prop where
  queue : s.queue = .empty
  totalLocked : s.totalLocked = none
  plain : s.Plain

end Store

namespace Host

/-- Time does not run backwards, and what a call wrote before an abort or an internal
error is discarded. -/
def orderly : Host := ⟨Store.Fresh, (· ≤ ·), Fault.Ordinary⟩

/-- As an orderly host, but a total may have been stored before. -/
def anyTotal : Host := ⟨fun s => s.queue = .empty ∧ s.Plain, (· ≤ ·), Fault.Ordinary⟩

/-- Blocks come in any order of time, and accounts may have been there before. -/
def anyOrder : Host :=
  ⟨fun s => s.queue = .empty ∧ s.totalLocked = none, fun _ _ => True, Fault.Ordinary⟩

/-- Every failed call may keep what it wrote, and blocks come in any order of time. -/
def lenient : Host := ⟨fun s => s.queue = .empty ∧ s.Plain, fun _ _ => True, fun _ => True⟩

variable {host wider : Host} {now : Timestamp} {s : Store}

theorem Reaches.mono (h : host.Reaches now s) (hstarts : ∀ {s}, host.starts s → wider.starts s)
    (hfollows : ∀ {now later}, host.follows now later → wider.follows now later)
    (hkeeps : ∀ {fault}, host.keeps fault → wider.keeps fault) : wider.Reaches now s := by
  induction h with
  | start hs => exact .start (hstarts hs)
  | pass _ hnext ih => exact .pass ih (hfollows hnext)
  | done _ hnext hrun ih => exact .done ih (hfollows hnext) hrun
  | failed _ hnext hrun hkept ih => exact .failed ih (hfollows hnext) hrun (hkeeps hkept)

theorem Reaches.anyTotal (h : orderly.Reaches now s) : anyTotal.Reaches now s :=
  h.mono (fun hs => ⟨hs.queue, hs.plain⟩) id id

theorem Reaches.anyOrder (h : orderly.Reaches now s) : anyOrder.Reaches now s :=
  h.mono (fun hs => ⟨hs.queue, hs.totalLocked⟩) (fun _ => trivial) id

theorem Reaches.lenient (h : orderly.Reaches now s) : lenient.Reaches now s :=
  h.mono (fun hs => ⟨hs.queue, hs.plain⟩) (fun _ => trivial) fun _ => trivial

end Host

/-! ## A first lock -/

namespace FirstLock

def alice : Address := ⟨"alice"⟩

def tokens (n : Nat) : Amount := ⟨n % 2 ^ 128, Nat.mod_lt _ (by decide)⟩

/-- Alice has 40 tokens, and has delegated 100 that are the only ones of the validator. -/
def ledger : StrictLedger :=
  let hundred : Amount := ⟨100, by decide⟩
  let shares : Shares := ⟨⟨100 * Shares.one, by decide⟩⟩
  ⟨(((Books.empty "stake").setBalance alice "stake" ⟨40, by decide⟩).putValidator "val"
    ⟨"val", hundred, shares⟩).setDelegation alice "val" shares⟩

def start : Chain StrictLedger :=
  ⟨⟨{ Store.empty with config := some ⟨alice, 0, 24, 100⟩ }, []⟩, ledger⟩

def block : Block := ⟨1, Timestamp.zero⟩

def stake : Coin := ⟨"stake", ⟨50, by decide⟩⟩

def call : Call := .request alice (.lock [⟨"1970-03-01", stake⟩])

def extension : Request := .extend [⟨"1970-03-01", "1970-05-01", stake⟩]

def nextDay : Timestamp := ⟨86400 * 10 ^ 9, by decide⟩

/-- The chain after alice has locked 50 tokens. -/
def chain : Chain StrictLedger := finalState ((call.run block).run start)

theorem reached : Host.orderly.Reaches block.time chain.store := by
  have hfresh : start.store.Fresh := ⟨rfl, rfl, fun address account h => by cases h⟩
  have hrun : succeeds ((call.run block).run start) := by decide +kernel
  obtain ⟨response, hok⟩ := exists_ok_of_succeeds hrun
  exact .done (.start hfresh) (Nat.le_refl _) hok

end FirstLock

end StakeLock
