import HostKit.Proofs.Machine.Stopping
import HostKit.Remote.Connection

/-!
# What remote runs keep, and how they stop

Nothing that is done on a session touches the files or the printed output. Up to where a command
has been started, not even the clock is read. All stops are failures, but for one: the point in
time at which a command has to be done may lie beyond what can be told.
-/

namespace HostKit

namespace Connection

open HostKit.Action

variable {γ : Type} {part : Machine → γ}

/-! ## What sessions keep -/

theorem keeps_connect (address : SocketAddress) (timeout : Duration) :
    Keeps part (connect address timeout) := by
  refine keeps_get.bind fun machine => ?_
  cases machine.network address with
  | failsAtOnce error => exact keeps_fail _
  | settles delay outcome =>
    dsimp only
    split
    · exact keeps_fail _
    split
    · exact keeps_fail _
    cases outcome with
    | none => exact keeps_pure ()
    | some error => exact keeps_fail _

/-- The part does not depend on the log and on the session. -/
structure Apart (part : Machine → γ) : Prop where
  logged : ∀ machine level text, part (Machine.logged machine level text) = part machine
  calls : ∀ (machine : Machine) calls, part { machine with calls } = part machine
  peer : ∀ (machine : Machine) peer, part { machine with peer } = part machine

theorem Apart.keeps_log (h : Apart part) (level : Level) (text : Text) :
    Keeps part (log level text) := fun machine => h.logged machine level text

theorem Apart.keeps_call (h : Apart part) (c : Call) : Keeps part (call c) :=
  Action.keeps_call h.calls c

theorem Apart.keeps_openTo (h : Apart part) (options : ConnectionOptions) :
    Keeps part (openTo options) :=
  keeps_get.bind fun _ => (keeps_ofExcept _).bind fun address =>
    (keeps_connect address _).bind fun _ =>
    (h.keeps_call _).bind fun _ => (h.keeps_call _).bind fun _ => (h.keeps_call _).bind fun _ =>
    (h.keeps_call _).bind fun _ => (h.keeps_call _).bind fun _ =>
    (h.keeps_log _ _).bind fun _ => keeps_pure _

theorem Apart.keeps_openChannel (h : Apart part) : Keeps part openChannel := by
  refine (h.keeps_call _).bind fun _ => keeps_get_bind fun machine => ?_
  cases machine.peer.channels with
  | nil => rfl
  | cons channel channels => exact h.peer machine _

theorem Apart.keeps_askVariable (h : Apart part) (channel : Channel) (name value : Text) :
    Keeps part (askVariable channel name value) := by
  refine (h.keeps_call _).attempt.bind fun outcome => ?_
  cases outcome with
  | ok _ =>
    dsimp only
    split
    · exact h.keeps_log _ _
    · exact keeps_pure ()
  | error failure =>
    cases failure with
    | ssh message => exact h.keeps_log _ _
    | _ => exact keeps_fail _

theorem Apart.keeps_start (h : Apart part) (command : Text) (options : CommandOptions) :
    Keeps part (start command options) :=
  (h.keeps_call _).bind fun _ => h.keeps_openChannel.bind fun channel =>
    (keeps_forM (fun _ => h.keeps_askVariable channel _ _) _).bind fun _ =>
      (h.keeps_call _).bind fun _ => (h.keeps_call _).bind fun _ => keeps_pure _

/-- What does not depend on the log is kept when a run is judged. -/
theorem keeps_judge
    (h : ∀ machine level text, part (Machine.logged machine level text) = part machine)
    (command : Text) (options : CommandOptions) (host : Text) (output : CommandOutput) :
    Keeps part (Remote.judge command options host output) := by
  have hlines (level : Level) (text : Text) : Keeps part (Remote.logLines level host text) :=
    keeps_forM (fun _ machine => h machine _ _) _
  unfold Remote.judge
  split
  · dsimp only
    split
    · exact (hlines _ _).bind fun _ => (hlines _ _).bind fun _ => keeps_fail _
    · exact keeps_fail _
  · dsimp only
    split
    · exact (hlines _ _).bind fun _ => (hlines _ _).bind fun _ => keeps_pure _
    · exact keeps_pure _

section Readings

variable (h : Apart part)
  (hreadings : ∀ (machine : Machine) readings, part { machine with readings } = part machine)
include hreadings

theorem keeps_collectOutput (channel : Channel) (timeout : Option Duration) :
    Keeps part (collectOutput channel timeout) := by
  have hdeadline : Keeps part (deadlineAfter timeout) := by
    cases timeout with
    | none => exact keeps_pure none
    | some timeout =>
      have hnow : Keeps part now := keeps_get_bind fun machine => hreadings machine _
      refine hnow.bind fun time => ?_
      dsimp only
      split
      · exact keeps_throw _
      · exact keeps_pure _
  exact hdeadline.bind fun deadline => keeps_get_bind fun machine => hreadings machine _

include h

theorem Apart.keeps_execute (command : Text) (options : CommandOptions) :
    Keeps part (execute command options) :=
  (h.keeps_start command options).bind fun channel =>
    (keeps_collectOutput hreadings channel _).bind fun _ => (h.keeps_call _).bind fun _ =>
    (keeps_ofExcept _).bind fun _ => (h.keeps_call _).bind fun _ =>
    (h.keeps_call _).bind fun _ => keeps_pure _

/-- A remote run keeps whatever does not depend on the log, the session and the clock. -/
theorem Apart.keeps_run (command : Text) (options : CommandOptions) (target : ConnectionOptions) :
    Keeps part (Remote.run command options target) :=
  (h.keeps_openTo target).bind fun _ =>
    ((h.keeps_execute hreadings command options).bind fun output =>
      keeps_judge h.logged command options target.host output).ensuring (h.keeps_call _)

end Readings

/-- A remote run leaves the files and the printed output as they are. -/
theorem keeps_remains_run (command : Text) (options : CommandOptions)
    (target : ConnectionOptions) : Keeps Machine.remains (Remote.run command options target) :=
  Apart.keeps_run ⟨fun _ _ _ => rfl, fun _ _ => rfl, fun _ _ => rfl⟩ (fun _ _ => rfl) _ _ _

/-! ## How sessions stop -/

theorem stops_call_failure (c : Call) : Stops Stop.IsFailure (call c) :=
  stops_call fun _ => Stop.isFailure_failure _

theorem stops_openTo (options : ConnectionOptions) : Stops Stop.IsFailure (openTo options) := by
  have hconnect (address : SocketAddress) (timeout : Duration) :
      Stops Stop.IsFailure (connect address timeout) := by
    refine stops_get.bind fun machine => ?_
    cases machine.network address with
    | failsAtOnce error => exact stops_fail (Stop.isFailure_failure _)
    | settles delay outcome =>
      dsimp only
      split
      · exact stops_fail (Stop.isFailure_failure _)
      split
      · exact stops_fail (Stop.isFailure_failure _)
      cases outcome with
      | none => exact stops_pure ()
      | some error => exact stops_fail (Stop.isFailure_failure _)
  exact stops_get.bind fun _ => (stops_ofExcept fun _ _ => Stop.isFailure_failure _).bind
    fun address => (hconnect address _).bind fun _ => (stops_call_failure _).bind fun _ =>
    (stops_call_failure _).bind fun _ => (stops_call_failure _).bind fun _ =>
    (stops_call_failure _).bind fun _ => (stops_call_failure _).bind fun _ =>
    (stops_log _ _).bind fun _ => stops_pure _

theorem stops_start (command : Text) (options : CommandOptions) :
    Stops Stop.IsFailure (start command options) := by
  have hchannel : Stops Stop.IsFailure openChannel := by
    refine (stops_call_failure _).bind fun _ => stops_get.bind fun machine => ?_
    cases machine.peer.channels with
    | nil => exact stops_fail (Stop.isFailure_failure _)
    | cons channel channels => exact (stops_set _).bind fun _ => stops_pure _
  have hask (channel : Channel) (name value : Text) :
      Stops Stop.IsFailure (askVariable channel name value) := by
    refine ((stops_call_failure _).attempt.mono fun stop h => h.1).bind fun outcome => ?_
    cases outcome with
    | ok _ =>
      dsimp only
      split
      · exact stops_log _ _
      · exact stops_pure ()
    | error failure =>
      cases failure with
      | ssh message => exact stops_log _ _
      | _ => exact stops_fail (Stop.isFailure_failure _)
  exact (stops_call_failure _).bind fun _ => hchannel.bind fun channel =>
    (stops_forM (fun _ => hask channel _ _) _).bind fun _ => (stops_call_failure _).bind fun _ =>
      (stops_call_failure _).bind fun _ => stops_pure _

theorem stops_judge (command : Text) (options : CommandOptions) (host : Text)
    (output : CommandOutput) :
    Stops Stop.IsFailure (Remote.judge command options host output) := by
  have hlines (level : Level) (text : Text) :
      Stops Stop.IsFailure (Remote.logLines level host text) :=
    stops_forM (fun _ => stops_log _ _) _
  unfold Remote.judge
  split
  · dsimp only
    split
    · exact (hlines _ _).bind fun _ => (hlines _ _).bind fun _ =>
        stops_fail (Stop.isFailure_failure _)
    · exact stops_fail (Stop.isFailure_failure _)
  · dsimp only
    split
    · exact (hlines _ _).bind fun _ => (hlines _ _).bind fun _ => stops_pure _
    · exact stops_pure _

/-- Output is collected without a panic unless the deadline lies beyond what can be told. -/
theorem panics_collectOutput_iff {channel : Channel} {timeout : Option Duration}
    {machine : Machine} :
    Panics (collectOutput channel timeout) machine ↔
      ∃ duration, timeout = some duration ∧
        maxSeconds < Duration.seconds (machine.clock machine.readings + duration) := by
  unfold collectOutput
  refine (panics_bind_iff_of_stops fun deadline => stops_get.bind fun machine =>
    (stops_set _).bind fun _ => stops_pure _).trans ?_
  cases timeout with
  | none =>
    have hpure : Stops Stop.IsFailure (deadlineAfter none) := stops_pure none
    constructor
    · exact fun hpanics => (hpure.not_panics machine hpanics).elim
    · rintro ⟨duration, hnone, -⟩
      cases hnone
  | some duration =>
    have hnow : runOn now machine =
        (.ok (machine.clock machine.readings), { machine with readings := machine.readings + 1 }) :=
      rfl
    unfold Panics deadlineAfter
    dsimp only
    rw [runOn_bind_ok hnow]
    by_cases hfar : maxSeconds < Duration.seconds (machine.clock machine.readings + duration)
    · rw [if_pos hfar]
      exact ⟨fun _ => ⟨duration, rfl, hfar⟩, fun _ => ⟨_, _, rfl⟩⟩
    · rw [if_neg hfar]
      refine ⟨?_, ?_⟩
      · rintro ⟨message, after, hrun⟩
        cases hrun
      · rintro ⟨duration', hsome, hfar'⟩
        obtain rfl := Option.some.inj hsome
        exact absurd hfar' hfar

/-- A command panics exactly if it is started and its deadline lies beyond what can be told. -/
theorem panics_execute_iff {command : Text} {options : CommandOptions} {machine : Machine} :
    Panics (execute command options) machine ↔
      ∃ duration, options.timeout = some duration ∧
        maxSeconds < Duration.seconds (machine.clock machine.readings + duration) ∧
        ∃ channel started, runOn (start command options) machine = (.ok channel, started) := by
  -- The clock is first read for the deadline, so its present reading is the one at the start.
  have htime : Keeps (fun machine => machine.clock machine.readings) (start command options) :=
    Apart.keeps_start ⟨fun _ _ _ => rfl, fun _ _ => rfl, fun _ _ => rfl⟩ command options
  unfold execute
  rw [(stops_start command options).panics_bind_iff]
  -- After the output has been collected, nothing panics any more.
  refine (exists_congr fun channel => exists_congr fun started => and_congr_right fun hstart =>
    (panics_bind_iff_of_stops fun collected => (stops_call_failure _).bind fun _ =>
      (stops_ofExcept fun _ _ => Stop.isFailure_failure _).bind fun _ =>
      (stops_call_failure _).bind fun _ => (stops_call_failure _).bind fun _ =>
      stops_pure _).trans panics_collectOutput_iff).trans ?_
  constructor
  · rintro ⟨channel, started, hstart, duration, htimeout, hfar⟩
    exact ⟨duration, htimeout, htime.eq hstart ▸ hfar, channel, started, hstart⟩
  · rintro ⟨duration, htimeout, hfar, channel, started, hstart⟩
    exact ⟨channel, started, hstart, duration, htimeout, (htime.eq hstart).symm ▸ hfar⟩

/-- A remote run panics exactly if the session is opened, the command started, and its deadline
lies beyond what can be told. -/
theorem panics_run_iff {command : Text} {options : CommandOptions} {target : ConnectionOptions}
    {machine : Machine} :
    Panics (Remote.run command options target) machine ↔
      ∃ duration, options.timeout = some duration ∧
        maxSeconds < Duration.seconds (machine.clock machine.readings + duration) ∧
        ∃ connection opened channel started,
          runOn (openTo target) machine = (.ok connection, opened) ∧
            runOn (start command options) opened = (.ok channel, started) := by
  have htime : Keeps (fun machine => machine.clock machine.readings) (openTo target) :=
    Apart.keeps_openTo ⟨fun _ _ _ => rfl, fun _ _ => rfl, fun _ _ => rfl⟩ target
  have hrun (machine : Machine) : Panics (Action.ensuring (do
      let output ← execute command options
      Remote.judge command options target.host output) close) machine ↔ _ :=
    panics_ensuring_iff.trans ((panics_bind_iff_of_stops fun output =>
      stops_judge command options target.host output).trans panics_execute_iff)
  unfold Remote.run
  rw [(stops_openTo target).panics_bind_iff]
  constructor
  · rintro ⟨connection, opened, hopen, hpanics⟩
    obtain ⟨duration, htimeout, hfar, channel, started, hstart⟩ := (hrun opened).mp hpanics
    exact ⟨duration, htimeout, htime.eq hopen ▸ hfar, connection, opened, channel, started,
      hopen, hstart⟩
  · rintro ⟨duration, htimeout, hfar, connection, opened, channel, started, hopen, hstart⟩
    exact ⟨connection, opened, hopen, (hrun opened).mpr
      ⟨duration, htimeout, (htime.eq hopen).symm ▸ hfar, channel, started, hstart⟩⟩

end Connection
end HostKit
