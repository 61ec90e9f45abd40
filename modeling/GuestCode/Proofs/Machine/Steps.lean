import GuestCode.Machine

/-!
# Running operations step by step

What an operation on the machine comes to when it is run: its outcome, and the machine it leaves.
Each way of putting operations together has one equation, so that a run is followed without looking
at how operations are represented.

## Main statements

* `Action.run_bind`: a step is taken only if the one before it has succeeded.
* `Action.run_attempt`: an attempted operation never fails, and keeps what was changed by a failure.
-/

namespace GuestCode

/-- What the next program does that is started on a machine. -/
def Machine.nextScript (m : Machine) : ChildScript := m.scripts.head?.getD .success

namespace Action

variable {α β : Type}

@[simp] theorem run_pure (a : α) (m : Machine) : (pure a : Action α).run m = (.ok a, m) := rfl

@[simp] theorem run_throw (f : Failure) (m : Machine) :
    (throw f : Action α).run m = (.error f, m) := rfl

@[simp] theorem run_fail (f : Failure) (m : Machine) : (fail f : Action α).run m = (.error f, m) :=
  rfl

@[simp] theorem run_get (m : Machine) : (get : Action Machine).run m = (.ok m, m) := rfl

@[simp] theorem run_set (n m : Machine) : (set n : Action PUnit).run m = (.ok ⟨⟩, n) := rfl

@[simp] theorem run_modify (f : Machine → Machine) (m : Machine) :
    (modify f : Action PUnit).run m = (.ok ⟨⟩, f m) := rfl

@[simp] theorem run_ofExcept (e : Except Failure α) (m : Machine) :
    (ofExcept e).run m = (e, m) := by
  cases e <;> rfl

theorem run_ofExcept_eq_ok_iff {e : Except Failure α} {m n : Machine} {a : α} :
    (ofExcept e).run m = (.ok a, n) ↔ e = .ok a ∧ m = n := by
  rw [run_ofExcept, Prod.mk.injEq]

/-- A step is taken only if the one before it has succeeded. -/
theorem run_bind (x : Action α) (f : α → Action β) (m : Machine) :
    (x >>= f).run m =
      match x.run m with
      | (.ok a, n) => (f a).run n
      | (.error e, n) => (.error e, n) := by
  simp only [Action.run, ExceptT.run_bind, StateT.run_bind]
  rcases (StateT.run (ExceptT.run x) m : Id _) with ⟨_ | a, n⟩ <;> simp <;> rfl

theorem run_bind_ok {x : Action α} {m n : Machine} {a : α} (h : x.run m = (.ok a, n))
    (f : α → Action β) : (x >>= f).run m = (f a).run n := by
  rw [run_bind, h]

theorem run_bind_error {x : Action α} {m n : Machine} {e : Failure} (h : x.run m = (.error e, n))
    (f : α → Action β) : (x >>= f).run m = (.error e, n) := by
  rw [run_bind, h]

/-- What has succeeded as a whole has succeeded step by step. -/
theorem exists_of_run_bind {x : Action α} {f : α → Action β} {m n : Machine} {b : β}
    (h : (x >>= f).run m = (.ok b, n)) :
    ∃ a m', x.run m = (.ok a, m') ∧ (f a).run m' = (.ok b, n) := by
  rw [run_bind] at h
  rcases hx : x.run m with ⟨_ | a, m'⟩
  · simp [hx] at h
  · rw [hx] at h
    exact ⟨a, m', rfl, h⟩

/-- A failure is handled where what has been changed by it is kept. -/
theorem run_tryCatch (x : Action α) (handler : Failure → Action α) (m : Machine) :
    (tryCatch x handler).run m =
      match x.run m with
      | (.ok a, n) => (.ok a, n)
      | (.error f, n) => (handler f).run n := by
  simp only [Action.run, tryCatch, tryCatchThe, MonadExceptOf.tryCatch, ExceptT.tryCatch, ExceptT.run,
    ExceptT.mk, StateT.run_bind]
  rcases (StateT.run x m : Id _) with ⟨_ | a, n⟩ <;> rfl

/-- An attempted operation never fails, and keeps what was changed by a failure. -/
@[simp] theorem run_attempt (x : Action α) (m : Machine) :
    (attempt x).run m = (.ok (x.run m).1, (x.run m).2) := rfl

@[simp] theorem run_write (text : String) (m : Machine) :
    (write text).run m = (.ok (), { m with output := m.output ++ [text] }) := rfl

/-- A program is started as the next script tells, unless that refuses it. -/
theorem run_launch (l : Launch) (m : Machine) :
    (launch l).run m =
      match m.nextScript.refusal with
      | some reason => (.ok (.error reason), { m with scripts := m.scripts.tail })
      | none =>
        (.ok (.ok m.nextScript),
          { m with scripts := m.scripts.tail, launches := m.launches ++ [l] }) := by
  unfold Machine.nextScript
  simp only [launch, run_bind, run_get]
  cases (m.scripts.head?.getD .success).refusal with
  | some reason => rfl
  | none => rfl

@[simp] theorem run_onDisk (look : Disk → Place → Except Failure α) (m : Machine) :
    (onDisk look).run m = (look m.disk m.workdir, m) := by
  simp [onDisk, run_bind]

/-- The folders that are made before a failure stay. -/
theorem run_makeFolders (path : Path) (m : Machine) :
    (makeFolders path).run m =
      match m.disk.makeFolders m.workdir path with
      | (disk, none) => (.ok (), { m with disk := disk })
      | (disk, some failure) => (.error failure, { m with disk := disk }) := by
  simp only [makeFolders, run_bind, run_get, run_set]
  rcases m.disk.makeFolders m.workdir path with ⟨disk, _ | failure⟩
  · rfl
  · rfl

theorem run_makeFolders_eq_ok_iff {path : Path} {m n : Machine} :
    (makeFolders path).run m = (.ok (), n) ↔
      ∃ disk, m.disk.makeFolders m.workdir path = (disk, none) ∧ n = { m with disk := disk } := by
  rw [run_makeFolders]
  rcases m.disk.makeFolders m.workdir path with ⟨disk, _ | failure⟩
  · simp [eq_comm]
  · simp

theorem run_writeText (path : Path) (text : String) (m : Machine) :
    (writeText path text).run m =
      match m.disk.write m.workdir path (Utf8.encode text.toList) with
      | .ok disk => (.ok (), { m with disk := disk })
      | .error failure => (.error failure, m) := by
  simp only [writeText, changeDisk, run_bind, run_get, run_ofExcept]
  cases m.disk.write m.workdir path (Utf8.encode text.toList) with
  | error failure => rfl
  | ok disk => rfl

theorem run_writeText_eq_ok_iff {path : Path} {text : String} {m n : Machine} :
    (writeText path text).run m = (.ok (), n) ↔
      ∃ disk, m.disk.write m.workdir path (Utf8.encode text.toList) = .ok disk ∧
        n = { m with disk := disk } := by
  rw [run_writeText]
  cases m.disk.write m.workdir path (Utf8.encode text.toList) with
  | error failure => simp
  | ok disk => simp [eq_comm]

end Action

end GuestCode
