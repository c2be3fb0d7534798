import HostKit.Proofs.Files.Items
import HostKit.Proofs.Machine.Running

/-!
# How actions stop, and what they keep

Some things hold of an action because they hold of its parts: which part of the machine it leaves
as it is, with what it can stop, and that nothing is spoilt when it does. An action that only
keeps the files and the output before its one change spoils nothing, as long as nothing can fail
after the change.
-/

namespace HostKit

/-- What remains of a run once it is over: the files and the printed output. -/
def Machine.remains (machine : Machine) : Files × Bytes := (machine.files, machine.printed)

/-- A stop with a failure. -/
def Stop.IsFailure (stop : Stop) : Prop := ∃ failure, stop = .failure failure

theorem Stop.isFailure_failure (failure : Failure) : Stop.IsFailure (.failure failure) :=
  ⟨failure, rfl⟩

/-- A stop with an input or output error. -/
def Stop.IsIo (stop : Stop) : Prop := ∃ e, stop = .failure (.io e)

theorem Stop.isIo_io (e : IoError) : Stop.IsIo (.failure (.io e)) := ⟨e, rfl⟩

/-- An input or output error is a failure. -/
theorem Stop.IsIo.isFailure {stop : Stop} (h : stop.IsIo) : stop.IsFailure := by
  obtain ⟨e, rfl⟩ := h
  exact ⟨.io e, rfl⟩

namespace Action

open Files

variable {α β γ : Type} {part : Machine → γ} {P Q : Stop → Prop}
variable {action : Action α} {next : α → Action β} {machine after : Machine}

/-- However it ends, the action leaves a part of the machine as it is. -/
def Keeps (part : Machine → γ) (action : Action α) : Prop :=
  ∀ machine, part (runOn action machine).2 = part machine

/-- If the action stops, it does so in a certain way. -/
def Stops (P : Stop → Prop) (action : Action α) : Prop :=
  ∀ machine stop after, runOn action machine = (.error stop, after) → P stop

/-- The action never stops. -/
abbrev Sure (action : Action α) : Prop := Stops (fun _ => False) action

/-- If the action stops, the output is as before and so are the files. -/
def Unspoilt (action : Action α) : Prop :=
  ∀ machine stop after, runOn action machine = (.error stop, after) →
    after.printed = machine.printed ∧ Alike after.files machine.files

/-- The action panics on the machine. -/
def Panics (action : Action α) (machine : Machine) : Prop :=
  ∃ message after, runOn action machine = (.error (.panic message), after)

/-! ## Runs taken apart -/

/-- An action of two parts ends with the stop of the first one, or as the second one does. -/
theorem runOn_bind_cases {outcome : Except Stop β}
    (h : runOn (action >>= next) machine = (outcome, after)) :
    (∃ stop, outcome = .error stop ∧ runOn action machine = (.error stop, after)) ∨
      ∃ a between, runOn action machine = (.ok a, between) ∧
        runOn (next a) between = (outcome, after) := by
  rw [runOn_bind] at h
  cases hfirst : runOn action machine with
  | mk first between =>
    rw [hfirst] at h
    cases first with
    | error stop =>
      obtain ⟨rfl, rfl⟩ := Prod.mk.inj h
      exact .inl ⟨stop, rfl, rfl⟩
    | ok a => exact .inr ⟨a, between, rfl, h⟩

/-- An attempt ends with the outcome as a value, unless there is a panic. -/
theorem runOn_attempt_cases {outcome : Except Stop (Except Failure α)}
    (h : runOn (attempt action) machine = (outcome, after)) :
    (∃ a, outcome = .ok (.ok a) ∧ runOn action machine = (.ok a, after)) ∨
      (∃ failure, outcome = .ok (.error failure) ∧
        runOn action machine = (.error (.failure failure), after)) ∨
      ∃ message, outcome = .error (.panic message) ∧
        runOn action machine = (.error (.panic message), after) := by
  unfold runOn at h ⊢
  unfold attempt at h
  split at h
  · next a between hrun =>
    obtain ⟨rfl, rfl⟩ := Prod.mk.inj h
    exact .inl ⟨a, rfl, hrun⟩
  · next failure between hrun =>
    obtain ⟨rfl, rfl⟩ := Prod.mk.inj h
    exact .inr (.inl ⟨failure, rfl, hrun⟩)
  · next message between hrun =>
    obtain ⟨rfl, rfl⟩ := Prod.mk.inj h
    exact .inr (.inr ⟨message, rfl, hrun⟩)

/-- A change is made, or refused with an error that leaves the machine as it is. -/
theorem runOn_change_cases {f : Files → Except IoError (α × Files)} {outcome : Except Stop α}
    (h : runOn (change f) machine = (outcome, after)) :
    (∃ e, f machine.files = .error e ∧ outcome = .error (.failure (.io e)) ∧ after = machine) ∨
      ∃ a files, f machine.files = .ok (a, files) ∧ outcome = .ok a ∧
        after = machine.through [machine.files] files := by
  cases hf : f machine.files with
  | error e =>
    rw [runOn_change_error hf] at h
    obtain ⟨rfl, rfl⟩ := Prod.mk.inj h
    exact .inl ⟨e, rfl, rfl, rfl⟩
  | ok result =>
    obtain ⟨a, files⟩ := result
    rw [runOn_change_ok hf] at h
    obtain ⟨rfl, rfl⟩ := Prod.mk.inj h
    exact .inr ⟨a, files, rfl, rfl, rfl⟩

/-- The last part runs on what the action leaves, and its own end does not matter. -/
theorem runOn_ensuring (action : Action α) (last : Action Unit) (machine : Machine) :
    runOn (ensuring action last) machine =
      ((runOn action machine).1, (runOn last (runOn action machine).2).2) := rfl

/-! ## What an action keeps -/

/-- What an action keeps is as before at the end of a run. -/
theorem Keeps.eq {outcome : Except Stop α} (h : Keeps part action)
    (hrun : runOn action machine = (outcome, after)) : part after = part machine := by
  have hkept := h machine
  rwa [hrun] at hkept

/-- An action that keeps everything leaves the machine as it is. -/
theorem Keeps.after_eq {outcome : Except Stop α} (h : Keeps id action)
    (hrun : runOn action machine = (outcome, after)) : after = machine := h.eq hrun

theorem keeps_pure (a : α) : Keeps part (pure a : Action α) := fun _ => rfl

theorem keeps_throw (stop : Stop) : Keeps part (throw stop : Action α) := fun _ => rfl

theorem keeps_fail (failure : Failure) : Keeps part (fail failure : Action α) := fun _ => rfl

theorem keeps_get : Keeps part (get : Action Machine) := fun _ => rfl

theorem keeps_ofExcept (result : Except Failure α) : Keeps part (ofExcept result) := by
  cases result with
  | ok a => exact keeps_pure a
  | error failure => exact keeps_fail failure

/-- What both parts keep, the action keeps. -/
theorem Keeps.bind (h : Keeps part action) (hnext : ∀ a, Keeps part (next a)) :
    Keeps part (action >>= next) := by
  intro machine
  rcases hrun : runOn (action >>= next) machine with ⟨outcome, after⟩
  rcases runOn_bind_cases hrun with ⟨stop, -, hfirst⟩ | ⟨a, between, hfirst, hsecond⟩
  · exact h.eq hfirst
  · exact ((hnext a).eq hsecond).trans (h.eq hfirst)

/-- What is done with the machine as it is keeps what it keeps of that machine. -/
theorem keeps_get_bind {f : Machine → Action α}
    (h : ∀ machine, part (runOn (f machine) machine).2 = part machine) :
    Keeps part (get >>= f) := h

theorem keeps_look (f : Files → Except IoError α) : Keeps part (look f) := by
  refine keeps_get.bind fun machine => ?_
  cases f machine.files with
  | ok a => exact keeps_pure a
  | error e => exact keeps_fail _

/-- What no state of the files matters to is kept by a change of them. -/
theorem keeps_change (h : ∀ machine passed files, part (Machine.through machine passed files) =
    part machine) (f : Files → Except IoError (α × Files)) : Keeps part (change f) := by
  intro machine
  rcases hrun : runOn (change f) machine with ⟨outcome, after⟩
  rcases runOn_change_cases hrun with ⟨_, -, -, rfl⟩ | ⟨_, _, -, -, rfl⟩
  · rfl
  · exact h machine _ _

/-- An attempt keeps what the action does. -/
theorem Keeps.attempt (h : Keeps part action) : Keeps part (attempt action) := by
  intro machine
  rcases hrun : runOn (Action.attempt action) machine with ⟨outcome, after⟩
  rcases runOn_attempt_cases hrun with ⟨_, -, hrun⟩ | ⟨_, -, hrun⟩ | ⟨_, -, hrun⟩ <;>
    exact h.eq hrun

/-- What the action and its last part keep, both of them do. -/
theorem Keeps.ensuring {last : Action Unit} (h : Keeps part action) (hlast : Keeps part last) :
    Keeps part (ensuring action last) :=
  fun machine => (hlast (runOn action machine).2).trans (h machine)

/-- A call is recorded, and refused or not. -/
theorem runOn_call (c : Call) (machine : Machine) :
    runOn (call c) machine =
      ((machine.peer.refusal? c).elim (.ok ()) fun message => .error (.failure (.ssh message)),
        { machine with calls := machine.calls ++ [c] }) := by
  unfold call
  rw [runOn_bind_ok (runOn_get machine)]
  cases machine.peer.refusal? c <;> rfl

theorem keeps_call (h : ∀ machine calls, part { machine with calls } = part machine) (c : Call) :
    Keeps part (call c) := by
  intro machine
  rw [runOn_call]
  exact h machine _

/-- What each action keeps, all of them in a row do. -/
theorem keeps_forM {f : α → Action PUnit} (h : ∀ a, Keeps part (f a)) (as : List α) :
    Keeps part (as.forM f) := by
  induction as with
  | nil => exact keeps_pure _
  | cons a as ih => exact (h a).bind fun _ => ih

/-! ## How an action stops -/

theorem Stops.mono (h : Stops P action) (hPQ : ∀ stop, P stop → Q stop) : Stops Q action :=
  fun machine stop after hrun => hPQ stop (h machine stop after hrun)

/-- An action that never stops does not stop in any other way. -/
theorem Sure.stops (h : Sure action) : Stops P action := h.mono fun _ => False.elim

theorem stops_pure (a : α) : Stops P (pure a : Action α) := by
  intro machine stop after hrun
  cases hrun

theorem stops_throw {stop : Stop} (h : P stop) : Stops P (throw stop : Action α) := by
  rintro machine stop' after hrun
  obtain ⟨hstop, -⟩ := Prod.mk.inj hrun
  exact Except.error.inj hstop ▸ h

theorem stops_fail {failure : Failure} (h : P (.failure failure)) :
    Stops P (fail failure : Action α) := stops_throw h

theorem stops_get : Stops P (get : Action Machine) := by
  intro machine stop after hrun
  cases hrun

theorem stops_ofExcept {result : Except Failure α}
    (h : ∀ failure, result = .error failure → P (.failure failure)) :
    Stops P (ofExcept result) := by
  cases result with
  | ok a => exact stops_pure a
  | error failure => exact stops_fail (h failure rfl)

theorem stops_modify (f : Machine → Machine) : Stops P (modify f : Action Unit) := by
  intro machine stop after hrun
  cases hrun

theorem stops_set (machine : Machine) : Stops P (set machine : Action PUnit) := by
  intro machine stop after hrun
  cases hrun

theorem stops_log (level : Level) (text : Text) : Stops P (log level text) := stops_modify _

theorem stops_print (data : Bytes) : Stops P (print data) := stops_modify _

/-- As both parts stop, so does the action. -/
theorem Stops.bind (h : Stops P action) (hnext : ∀ a, Stops P (next a)) :
    Stops P (action >>= next) := by
  intro machine stop after hrun
  rcases runOn_bind_cases hrun with ⟨stop', hstop, hfirst⟩ | ⟨a, between, -, hsecond⟩
  · exact h machine stop after (Except.error.inj hstop ▸ hfirst)
  · exact hnext a between stop after hsecond

theorem stops_look {f : Files → Except IoError α} (h : ∀ e, P (.failure (.io e))) :
    Stops P (look f) := by
  refine stops_get.bind fun machine => ?_
  cases f machine.files with
  | ok a => exact stops_pure a
  | error e => exact stops_fail (h e)

theorem stops_change {f : Files → Except IoError (α × Files)} (h : ∀ e, P (.failure (.io e))) :
    Stops P (change f) := by
  intro machine stop after hrun
  rcases runOn_change_cases hrun with ⟨e, -, hstop, -⟩ | ⟨_, _, -, hok, -⟩
  · exact Except.error.inj hstop ▸ h e
  · cases hok

theorem stops_call {c : Call} (h : ∀ message, P (.failure (.ssh message))) :
    Stops P (call c) := by
  intro machine stop after hrun
  rw [runOn_call] at hrun
  obtain ⟨hstop, -⟩ := Prod.mk.inj hrun
  cases hrefusal : machine.peer.refusal? c with
  | none => simp [hrefusal] at hstop
  | some message =>
    rw [hrefusal] at hstop
    exact Except.error.inj hstop ▸ h message

/-- A change that is always possible never stops. -/
theorem sure_change {f : Files → Files} : Sure (change fun files => .ok ((), f files)) := by
  intro machine stop after hrun
  cases hrun

/-- An attempt stops as the action does, and only with a panic. -/
theorem Stops.attempt (h : Stops P action) :
    Stops (fun stop => P stop ∧ ∃ message, stop = .panic message) (attempt action) := by
  intro machine stop after hrun
  rcases runOn_attempt_cases hrun with ⟨_, hok, -⟩ | ⟨_, hok, -⟩ | ⟨message, hstop, hrun'⟩
  · cases hok
  · cases hok
  · obtain rfl := Except.error.inj hstop
    exact ⟨h machine _ after hrun', message, rfl⟩

/-- How the last part ends does not matter. -/
theorem Stops.ensuring (h : Stops P action) (last : Action Unit) :
    Stops P (ensuring action last) := by
  intro machine stop after hrun
  obtain ⟨hstop, -⟩ := Prod.mk.inj hrun
  exact h machine stop _ (Prod.ext hstop rfl)

/-- As each action stops, so do all of them in a row. -/
theorem stops_forM {f : α → Action PUnit} (h : ∀ a, Stops P (f a)) (as : List α) :
    Stops P (as.forM f) := by
  induction as with
  | nil => exact stops_pure _
  | cons a as ih => exact (h a).bind fun _ => ih

/-! ## Panics -/

/-- Where all stops are failures there is no panic. -/
theorem Stops.not_panics (h : Stops Stop.IsFailure action) (machine : Machine) :
    ¬Panics action machine := by
  rintro ⟨message, after, hrun⟩
  obtain ⟨failure, heq⟩ := h machine _ after hrun
  cases heq

/-- An action of two parts panics if the first one does, or the second one after it. -/
theorem panics_bind_iff :
    Panics (action >>= next) machine ↔
      Panics action machine ∨
        ∃ a between, runOn action machine = (.ok a, between) ∧ Panics (next a) between := by
  constructor
  · rintro ⟨message, after, hrun⟩
    rcases runOn_bind_cases hrun with ⟨stop, hstop, hfirst⟩ | ⟨a, between, hfirst, hsecond⟩
    · exact .inl ⟨message, after, Except.error.inj hstop ▸ hfirst⟩
    · exact .inr ⟨a, between, hfirst, message, after, hsecond⟩
  · rintro (⟨message, after, hrun⟩ | ⟨a, between, hfirst, message, after, hsecond⟩)
    · exact ⟨message, after, runOn_bind_error hrun next⟩
    · exact ⟨message, after, (runOn_bind_ok hfirst next).trans hsecond⟩

/-- If the first part cannot panic, it is the second one that does. -/
theorem Stops.panics_bind_iff (h : Stops Stop.IsFailure action) :
    Panics (action >>= next) machine ↔
      ∃ a between, runOn action machine = (.ok a, between) ∧ Panics (next a) between :=
  Action.panics_bind_iff.trans (or_iff_right (h.not_panics machine))

/-- If the second part cannot panic, it is the first one that does. -/
theorem panics_bind_iff_of_stops (h : ∀ a, Stops Stop.IsFailure (next a)) :
    Panics (action >>= next) machine ↔ Panics action machine :=
  panics_bind_iff.trans
    (or_iff_left fun ⟨a, between, _, hpanics⟩ => (h a).not_panics between hpanics)

/-- The last part does not change whether there is a panic. -/
theorem panics_ensuring_iff {last : Action Unit} :
    Panics (ensuring action last) machine ↔ Panics action machine := by
  constructor
  · rintro ⟨message, after, hrun⟩
    exact ⟨message, _, Prod.ext (Prod.mk.inj hrun).1 rfl⟩
  · rintro ⟨message, after, hrun⟩
    refine ⟨message, (runOn last after).2, ?_⟩
    rw [runOn_ensuring, hrun]

/-! ## Stops that spoil nothing -/

/-- An action that keeps the files and the output spoils nothing. -/
theorem Keeps.unspoilt (h : Keeps Machine.remains action) : Unspoilt action := by
  intro machine stop after hrun
  obtain ⟨hfiles, hprinted⟩ := Prod.mk.inj (h.eq hrun)
  exact ⟨hprinted, hfiles ▸ .refl _⟩

/-- An action that never stops spoils nothing by a stop. -/
theorem Sure.unspoilt (h : Sure action) : Unspoilt action :=
  fun machine stop after hrun => (h machine stop after hrun).elim

/-- A change that is refused spoils nothing. -/
theorem unspoilt_change (f : Files → Except IoError (α × Files)) : Unspoilt (change f) := by
  intro machine stop after hrun
  rcases runOn_change_cases hrun with ⟨e, -, -, rfl⟩ | ⟨_, _, -, hok, -⟩
  · exact ⟨rfl, .refl _⟩
  · cases hok

/-- After a part that keeps the files and the output, it is the next one that matters. -/
theorem Keeps.bind_unspoilt (h : Keeps Machine.remains action) (hnext : ∀ a, Unspoilt (next a)) :
    Unspoilt (action >>= next) := by
  intro machine stop after hrun
  rcases runOn_bind_cases hrun with ⟨stop', -, hfirst⟩ | ⟨a, between, hfirst, hsecond⟩
  · exact h.unspoilt machine stop' after hfirst
  · obtain ⟨hfiles, hprinted⟩ := Prod.mk.inj (h.eq hfirst)
    obtain ⟨hprinted', hfiles'⟩ := hnext a between stop after hsecond
    exact ⟨hprinted'.trans hprinted, hfiles ▸ hfiles'⟩

/-- Before a part that never stops, it is the first one that matters. -/
theorem Unspoilt.bind_sure (h : Unspoilt action) (hnext : ∀ a, Sure (next a)) :
    Unspoilt (action >>= next) := by
  intro machine stop after hrun
  rcases runOn_bind_cases hrun with ⟨stop', -, hfirst⟩ | ⟨a, between, -, hsecond⟩
  · exact h machine stop' after hfirst
  · exact (hnext a between stop after hsecond).elim

/-- Writing a file fails before anything is changed. -/
theorem unspoilt_writeFile (path : Text) (content : Bytes) : Unspoilt (writeFile path content) :=
  (unspoilt_change _).bind_sure fun _ => sure_change

end Action
end HostKit
