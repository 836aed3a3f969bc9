import StakeLock.Execute

/-!
# Reasons for refusal

The checks of a request refuse it for reasons that lie in the request itself. Moving a
lock of a schedule can overflow besides, but neither finds fault with the queue.
-/

namespace StakeLock

section

variable {α β : Type} {p q : LockError → Prop}

/-- A check that refuses, if it does, for a reason with a property. -/
def Refuses (p : LockError → Prop) (x : Except LockError α) : Prop :=
  ∀ reason, x = .error reason → p reason

theorem refuses_ok (a : α) : Refuses p (.ok a) := fun _ h => by cases h

theorem refuses_error {reason : LockError} (h : p reason) :
    Refuses p (.error reason : Except LockError α) := fun _ hr => by
  cases hr
  exact h

theorem Refuses.mono {x : Except LockError α} (h : Refuses p x)
    (hpq : ∀ {reason}, p reason → q reason) : Refuses q x := fun reason hr => hpq (h reason hr)

theorem refuses_bind {x : Except LockError α} {f : α → Except LockError β} (hx : Refuses p x)
    (hf : ∀ a, Refuses p (f a)) : Refuses p (x >>= f) := by
  cases x with
  | error reason => exact refuses_error (hx reason rfl)
  | ok a => exact hf a

theorem refuses_mapM {f : α → Except LockError β} (as : List α) (hf : ∀ a, Refuses p (f a)) :
    Refuses p (as.mapM f) := by
  induction as with
  | nil => exact refuses_ok []
  | cons a as ih =>
    rw [List.mapM_cons]
    exact refuses_bind (hf a) fun b => refuses_bind ih fun bs => refuses_ok (b :: bs)

theorem refuses_foldlM {f : β → α → Except LockError β} (as : List α) (b : β)
    (hf : ∀ b a, Refuses p (f b a)) : Refuses p (as.foldlM f b) := by
  induction as generalizing b with
  | nil => exact refuses_ok b
  | cons a as ih =>
    rw [List.foldlM_cons]
    exact refuses_bind (hf b a) ih

end

namespace LockError

/-- The queue does not match the locks of an account. -/
def Desync : LockError → Prop
  | queueDesync .. => True
  | _ => False

/-- The reason lies in the request, and not in the engine. -/
def Ordinary (reason : LockError) : Prop := reason.kind ≠ .internal

theorem not_desync_system (cause : SystemError) : ¬(system cause).Desync := id

theorem refuses_mapError_system {α : Type} (x : Except SystemError α) :
    Refuses (fun reason => ¬reason.Desync) (x.mapError .system) := by
  cases x with
  | ok a => exact refuses_ok a
  | error cause => exact refuses_error (not_desync_system cause)

theorem Ordinary.not_desync {reason : LockError} (h : reason.Ordinary) : ¬reason.Desync := by
  cases reason <;> first | exact id | exact absurd rfl h

end LockError

section

variable {now : Timestamp} {config : Config} {bondDenom : String}

theorem refuses_checkEntryCount (count : Nat) :
    Refuses LockError.Ordinary (config.checkEntryCount count) := by
  unfold Config.checkEntryCount
  split
  · exact refuses_error nofun
  · split
    · exact refuses_error nofun
    · exact refuses_ok ()

theorem refuses_checkBondCoin (coin : Coin) :
    Refuses LockError.Ordinary (checkBondCoin bondDenom coin) := by
  unfold checkBondCoin
  split
  · exact refuses_error nofun
  · split
    · exact refuses_error nofun
    · exact refuses_ok ()

theorem refuses_parseDate (text : String) : Refuses LockError.Ordinary (parseDate text) := by
  unfold parseDate
  split
  · exact refuses_error nofun
  · split
    · exact refuses_ok _
    · exact refuses_error nofun

theorem refuses_checkMaxHorizon (date : Date) (maxMonths : Nat) :
    Refuses LockError.Ordinary (checkMaxHorizon now date maxMonths) := by
  unfold checkMaxHorizon
  simp only
  split
  · exact refuses_error nofun
  · exact refuses_ok ()

theorem Extension.refuses_check (extension : Extension) :
    Refuses LockError.Ordinary (extension.check config bondDenom now) := by
  unfold check
  refine refuses_bind (refuses_checkBondCoin _) fun _ => ?_
  refine refuses_bind (refuses_parseDate _) fun source => ?_
  refine refuses_bind (refuses_parseDate _) fun target => ?_
  simp only
  split
  · exact refuses_error nofun
  · split
    · exact refuses_error nofun
    · exact refuses_bind (refuses_checkMaxHorizon _ _) fun _ => refuses_ok _

end

theorem Store.refuses_lockup (s : Store) (address : Address) :
    Refuses LockError.Ordinary (s.lockup address) := by
  unfold lockup
  split
  · exact refuses_ok _
  · exact refuses_error nofun

namespace Schedule

theorem refuses_shift (s : Schedule) (source target : Date) (amount : Amount) :
    Refuses (fun reason => ¬reason.Desync) (s.shift source target amount) := by
  unfold shift
  split
  · exact refuses_error id
  · split
    · exact refuses_error id
    · exact LockError.refuses_mapError_system _

theorem refuses_shiftAll (s : Schedule) (moves : List Move) :
    Refuses (fun reason => ¬reason.Desync) (s.shiftAll moves) :=
  refuses_foldlM moves s fun s _ => s.refuses_shift _ _ _

end Schedule

end StakeLock
