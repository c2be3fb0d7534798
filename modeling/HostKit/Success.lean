/-!
# Successes taken apart

A row of steps that may fail succeeds only if each of them does, and a later step goes on from
the result of the one before it.
-/

namespace HostKit.Success

/-- If two steps succeed together, the first succeeds and the second goes on from its result. -/
theorem of_bind {ε α β : Type} {first : Except ε α} {next : α → Except ε β} {b : β}
    (h : first >>= next = .ok b) : ∃ a, first = .ok a ∧ next a = .ok b := by
  cases first with
  | error e => simp [bind, Except.bind] at h
  | ok a => exact ⟨a, rfl, h⟩

/-- If a step whose result is changed succeeds, so does the step. -/
theorem of_map {ε α β : Type} {step : Except ε α} {change : α → β} {b : β}
    (h : step.map change = .ok b) : ∃ a, step = .ok a ∧ change a = b := by
  cases step with
  | error e => simp [Except.map] at h
  | ok a => exact ⟨a, rfl, by simpa [Except.map] using h⟩

/-- A step whose result is changed fails as it did. -/
theorem map_eq_error_iff {ε α β : Type} {step : Except ε α} {change : α → β} {e : ε} :
    step.map change = .error e ↔ step = .error e := by
  cases step with
  | error cause =>
    exact ⟨fun h => congrArg Except.error (Except.error.inj h), fun h => by cases h; rfl⟩
  | ok a => exact ⟨fun h => (by cases h), fun h => (by cases h)⟩

/-- A step whose errors are reported otherwise succeeds as it did. -/
theorem mapError_eq_ok_iff {ε ε' α : Type} {step : Except ε α} {report : ε → ε'} {a : α} :
    step.mapError report = .ok a ↔ step = .ok a := by
  cases step with
  | error e => exact ⟨fun h => (by cases h), fun h => (by cases h)⟩
  | ok result => exact ⟨fun h => congrArg Except.ok (Except.ok.inj h), fun h => by cases h; rfl⟩

/-- An error that is reported otherwise is one of the step. -/
theorem of_mapError {ε ε' α : Type} {step : Except ε α} {report : ε → ε'} {e : ε'}
    (h : step.mapError report = .error e) : ∃ cause, step = .error cause ∧ report cause = e := by
  cases step with
  | error cause => exact ⟨cause, rfl, Except.error.inj h⟩
  | ok a => cases h

/-- Two steps succeed together exactly if the first one does and the second one does with its
result. -/
theorem exists_bind_iff {ε α β : Type} {first : Except ε α} {next : α → Except ε β} :
    (∃ b, first >>= next = .ok b) ↔ ∃ a, first = .ok a ∧ ∃ b, next a = .ok b :=
  ⟨fun ⟨b, h⟩ => have ⟨a, hfirst, hnext⟩ := of_bind h; ⟨a, hfirst, b, hnext⟩,
    fun ⟨_, hfirst, b, hnext⟩ => ⟨b, hfirst ▸ hnext⟩⟩

/-- A step whose result is changed succeeds exactly if the step does. -/
theorem exists_map_iff {ε α β : Type} {step : Except ε α} {change : α → β} :
    (∃ b, step.map change = .ok b) ↔ ∃ a, step = .ok a :=
  ⟨fun ⟨_, h⟩ => have ⟨a, hstep, _⟩ := of_map h; ⟨a, hstep⟩, fun ⟨a, h⟩ => ⟨change a, h ▸ rfl⟩⟩

/-- The result is there exactly if the step succeeds with it. -/
theorem toOption_eq_some_iff {ε α : Type} {step : Except ε α} {a : α} :
    step.toOption = some a ↔ step = .ok a := by
  cases step with
  | error e => exact ⟨fun h => (by cases h), fun h => (by cases h)⟩
  | ok result => exact ⟨fun h => congrArg Except.ok (Option.some.inj h), fun h => by cases h; rfl⟩

/-- A step after a success goes on from its result. -/
@[simp] theorem bind_ok {ε α β : Type} (a : α) (next : α → Except ε β) :
    (Except.ok a >>= next) = next a := rfl

/-- No step comes after an error. -/
@[simp] theorem bind_error {ε α β : Type} (e : ε) (next : α → Except ε β) :
    ((Except.error e : Except ε α) >>= next) = .error e := rfl

end HostKit.Success
