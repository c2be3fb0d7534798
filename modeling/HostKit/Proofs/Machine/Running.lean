import HostKit.Machine

/-!
# Running actions

What an action does to a machine is found part by part. An action that only looks leaves the
machine as it is, and a change of the files adds one state to those that were passed through.
An action of two parts succeeds only if both of them do, the second on the machine that the
first one leaves.
-/

namespace HostKit

/-- The machine after its files went through some states, the latest first, to new ones. -/
def Machine.through (machine : Machine) (passed : List Files) (files : Files) : Machine :=
  { machine with files := files, past := passed ++ machine.past }

/-- The machine with one more record in its log. -/
def Machine.logged (machine : Machine) (level : Level) (text : Text) : Machine :=
  { machine with log := machine.log ++ [⟨level, text⟩] }

/-- A machine with some files on which nothing has run yet. -/
def Machine.resting (files : Files) : Machine where
  files := files
  past := []
  environment := {}
  log := []
  printed := []
  lookup := fun _ => .error .noEntry
  network := fun _ => .failsAtOnce .noEntry
  clock := fun _ => 0
  readings := 0
  peer := ⟨[], []⟩
  calls := []
  encoders := .plain

namespace Machine

@[simp] theorem through_files (machine : Machine) (passed : List Files) (files : Files) :
    (machine.through passed files).files = files := rfl

@[simp] theorem resting_files (files : Files) : (resting files).files = files := rfl

@[simp] theorem logged_files (machine : Machine) (level : Level) (text : Text) :
    (machine.logged level text).files = machine.files := rfl

/-- The states passed on the way add up. -/
@[simp] theorem through_through (machine : Machine) (passed passed' : List Files)
    (files files' : Files) :
    (machine.through passed files).through passed' files' =
      machine.through (passed' ++ passed) files' := by
  simp [through]

end Machine

namespace Action

variable {α β : Type} {machine : Machine}

@[simp] theorem runOn_pure (a : α) (machine : Machine) :
    runOn (pure a) machine = (.ok a, machine) := rfl

@[simp] theorem runOn_fail (failure : Failure) (machine : Machine) :
    runOn (fail failure : Action α) machine = (.error (.failure failure), machine) := rfl

/-- The second part runs on what the first one leaves, unless the first one stops. -/
theorem runOn_bind (action : Action α) (next : α → Action β) (machine : Machine) :
    runOn (action >>= next) machine =
      match runOn action machine with
      | (.ok a, machine) => runOn (next a) machine
      | (.error stop, machine) => (.error stop, machine) := by
  unfold runOn
  change ExceptT.bind action next machine = _
  simp only [ExceptT.bind, ExceptT.mk, bind, StateT.bind, ExceptT.bindCont]
  cases action machine with
  | mk outcome machine => cases outcome <;> rfl

/-- After a success the second part runs. -/
theorem runOn_bind_ok {action : Action α} {a : α} {machine' : Machine}
    (h : runOn action machine = (.ok a, machine')) (next : α → Action β) :
    runOn (action >>= next) machine = runOn (next a) machine' := by
  rw [runOn_bind, h]

/-- After a stop nothing runs. -/
theorem runOn_bind_error {action : Action α} {stop : Stop} {machine' : Machine}
    (h : runOn action machine = (.error stop, machine')) (next : α → Action β) :
    runOn (action >>= next) machine = (.error stop, machine') := by
  rw [runOn_bind, h]

/-- If an action of two parts succeeds, so does each of them. -/
theorem of_runOn_bind {action : Action α} {next : α → Action β} {b : β} {after : Machine}
    (h : runOn (action >>= next) machine = (.ok b, after)) :
    ∃ a between, runOn action machine = (.ok a, between) ∧
      runOn (next a) between = (.ok b, after) := by
  rw [runOn_bind] at h
  cases hfirst : runOn action machine with
  | mk outcome between =>
    cases outcome with
    | error stop => simp [hfirst] at h
    | ok a => exact ⟨a, between, rfl, by simpa [hfirst] using h⟩

/-- An action finds the machine that it runs on. -/
theorem runOn_get (machine : Machine) :
    runOn (get : Action Machine) machine = (.ok machine, machine) := rfl

/-- Looking at the files gives what is found there. -/
theorem runOn_look_ok {f : Files → Except IoError α} {a : α} (h : f machine.files = .ok a) :
    runOn (look f) machine = (.ok a, machine) := by
  rw [look, runOn_bind_ok (runOn_get machine), h]
  rfl

/-- Looking at the files fails where nothing is found. -/
theorem runOn_look_error {f : Files → Except IoError α} {e : IoError}
    (h : f machine.files = .error e) :
    runOn (look f) machine = (.error (.failure (.io e)), machine) := by
  rw [look, runOn_bind_ok (runOn_get machine), h]
  rfl

/-- A look at the files leaves the machine as it is. -/
theorem of_runOn_look {f : Files → Except IoError α} {a : α} {after : Machine}
    (h : runOn (look f) machine = (.ok a, after)) :
    f machine.files = .ok a ∧ after = machine := by
  cases hf : f machine.files with
  | error e => simp [runOn_look_error hf] at h
  | ok a' =>
    rw [runOn_look_ok hf] at h
    obtain ⟨ha, hafter⟩ := Prod.mk.inj h
    exact ⟨congrArg Except.ok (Except.ok.inj ha), hafter.symm⟩

/-- A change that is possible is one step of the files. -/
theorem runOn_change_ok {f : Files → Except IoError (α × Files)} {a : α} {files : Files}
    (h : f machine.files = .ok (a, files)) :
    runOn (change f) machine = (.ok a, machine.through [machine.files] files) := by
  rw [change, runOn_bind_ok (runOn_get machine), h]
  rfl

/-- A change that is not possible leaves the machine as it is. -/
theorem runOn_change_error {f : Files → Except IoError (α × Files)} {e : IoError}
    (h : f machine.files = .error e) :
    runOn (change f) machine = (.error (.failure (.io e)), machine) := by
  rw [change, runOn_bind_ok (runOn_get machine), h]
  rfl

@[simp] theorem runOn_log (level : Level) (text : Text) (machine : Machine) :
    runOn (log level text) machine = (.ok (), machine.logged level text) := rfl

/-- A success that is attempted is a value. -/
theorem runOn_attempt_ok {action : Action α} {a : α} {after : Machine}
    (h : runOn action machine = (.ok a, after)) :
    runOn (attempt action) machine = (.ok (.ok a), after) := by
  unfold runOn at h ⊢
  simp [attempt, h]

/-- A failure that is attempted is a value too. -/
theorem runOn_attempt_failure {action : Action α} {failure : Failure} {after : Machine}
    (h : runOn action machine = (.error (.failure failure), after)) :
    runOn (attempt action) machine = (.ok (.error failure), after) := by
  unfold runOn at h ⊢
  simp [attempt, h]

end Action
end HostKit
