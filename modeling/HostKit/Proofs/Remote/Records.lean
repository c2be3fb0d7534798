import HostKit.Proofs.Remote.Sessions

/-!
# The records of a session

Three steps of a remote run write to the log. An open session is one record, each variable that the
far end refuses is one, and the judgement on the output of a command is one for each line of it. All
other steps leave the log as it is, and a session that is not opened leaves no record either.
-/

namespace HostKit

/-- The machine with more records at the end of its log. -/
def Machine.recorded (machine : Machine) (records : List LogRecord) : Machine :=
  { machine with log := machine.log ++ records }

namespace Machine

@[simp] theorem recorded_log (machine : Machine) (records : List LogRecord) :
    (machine.recorded records).log = machine.log ++ records := rfl

@[simp] theorem recorded_nil (machine : Machine) : machine.recorded [] = machine := by
  simp [recorded]

@[simp] theorem recorded_recorded (machine : Machine) (records later : List LogRecord) :
    (machine.recorded records).recorded later = machine.recorded (records ++ later) := by
  simp [recorded]

end Machine

namespace Action

variable {α β : Type} {action : Action α} {next : α → Action β} {machine : Machine}

/-- If the action stops, the log is as before. -/
def SilentStop (action : Action α) : Prop :=
  ∀ machine stop after, runOn action machine = (.error stop, after) → after.log = machine.log

/-- An action that never stops leaves no record by a stop. -/
theorem Sure.silentStop (h : Sure action) : SilentStop action :=
  fun machine stop after hrun => (h machine stop after hrun).elim

/-- After a part that keeps the log, it is the next one that matters. -/
theorem Keeps.bind_silentStop (h : Keeps Machine.log action) (hnext : ∀ a, SilentStop (next a)) :
    SilentStop (action >>= next) := by
  intro machine stop after hrun
  rcases runOn_bind_cases hrun with ⟨stop', -, hfirst⟩ | ⟨a, between, hfirst, hsecond⟩
  · exact h.eq hfirst
  · exact (hnext a between stop after hsecond).trans (h.eq hfirst)

/-- Before parts that keep the log, it is the first one that matters. -/
theorem log_bind_of_keeps (hnext : ∀ a, Keeps Machine.log (next a)) :
    (runOn (action >>= next) machine).2.log = (runOn action machine).2.log := by
  rcases hrun : runOn (action >>= next) machine with ⟨outcome, after⟩
  rcases runOn_bind_cases hrun with ⟨stop, -, hfirst⟩ | ⟨a, between, hfirst, hsecond⟩
  · rw [hfirst]
  · rw [hfirst]
    exact (hnext a).eq hsecond

theorem keeps_log_call (c : Call) : Keeps Machine.log (call c) := keeps_call (fun _ _ => rfl) c

/-- Texts that are logged one after the other are a record each. -/
theorem runOn_forM_log {level : Level} {f : α → Text} (as : List α) (machine : Machine) :
    runOn (as.forM fun a => log level (f a)) machine =
      (.ok (), machine.recorded (as.map fun a => ⟨level, f a⟩)) := by
  induction as generalizing machine with
  | nil => exact congrArg (Prod.mk _) machine.recorded_nil.symm
  | cons a as ih =>
    have hfirst : runOn (log level (f a)) machine = (.ok (), machine.recorded [⟨level, f a⟩]) := rfl
    refine (runOn_bind_ok hfirst _).trans ((ih _).trans ?_)
    rw [Machine.recorded_recorded]
    rfl

end Action

open HostKit.Action

/-! ## Output -/

namespace Remote

/-- The records of the output of a command: its lines with the host in front, those of the standard
output first. -/
def outputRecords (host : Text) (output : CommandOutput) : List LogRecord :=
  (Text.lines output.stdout).map (fun line => ⟨.info, "[" ++ host ++ "] " ++ line⟩) ++
    (Text.lines output.stderr).map fun line => ⟨.warn, "[" ++ host ++ "] " ++ line⟩

/-- What the output of a command is taken for: a failure if its status is neither zero nor accepted
all the same. -/
def judged (command : Text) (options : CommandOptions) (output : CommandOutput) :
    Except Stop CommandOutput :=
  if output.status ≠ 0 ∧ options.warn = false then
    .error (.failure (.remoteCommand command output.status output.stderr))
  else .ok output

/-- The lines of the output are logged unless they are hidden, whatever the output is taken for. -/
theorem runOn_judge (command : Text) (options : CommandOptions) (host : Text)
    (output : CommandOutput) (machine : Machine) :
    runOn (judge command options host output) machine =
      (judged command options output,
        machine.recorded (if options.hide then [] else outputRecords host output)) := by
  have hlines (level : Level) (text : Text) (machine : Machine) :
      runOn (logLines level host text) machine = (.ok (), machine.recorded
        ((Text.lines text).map fun line => ⟨level, "[" ++ host ++ "] " ++ line⟩)) :=
    runOn_forM_log _ machine
  have hverdict (machine : Machine) :
      runOn (if !output.success && !options.warn then
          Action.fail (.remoteCommand command output.status output.stderr)
        else pure output) machine = (judged command options output, machine) := by
    unfold judged CommandOutput.success
    by_cases hstatus : output.status = 0 <;> cases options.warn <;> simp [hstatus]
  unfold judge
  cases options.hide with
  | true => exact (hverdict machine).trans (by simp)
  | false =>
    refine (runOn_bind_ok (hlines .info output.stdout machine) _).trans ?_
    refine (runOn_bind_ok (hlines .warn output.stderr _) _).trans ((hverdict _).trans ?_)
    rw [Machine.recorded_recorded]
    rfl

end Remote

namespace Connection

variable {machine after : Machine}

/-! ## Variables -/

/-- What the far end says to a variable, if it refuses it: by itself or by the channel. -/
def refusedWith? (peer : Peer) (channel : Channel) (name value : Text) : Option Text :=
  (peer.refusal? (.setVariable name value)).or
    (if name.isOneOf channel.refused then some "refused" else none)

/-- The record of a variable that is refused. -/
def refusalRecord (name reason : Text) : LogRecord :=
  ⟨.warn, "Remote refused environment variable " ++ name ++ ": " ++ reason⟩

/-- The records of the variables that are refused, in the order in which they are asked for. -/
def refusalRecords (peer : Peer) (channel : Channel) (environment : List (Text × Text)) :
    List LogRecord :=
  environment.flatMap fun (name, value) =>
    ((refusedWith? peer channel name value).map (refusalRecord name)).toList

/-- The log is all in which asking for a variable differs from the call alone, and a refusal is all
that shows in it. -/
theorem runOn_askVariable (channel : Channel) (name value : Text) (machine : Machine) :
    runOn (askVariable channel name value) machine =
      (.ok (), { machine with calls := machine.calls ++ [Call.setVariable name value] }.recorded
        ((refusedWith? machine.peer channel name value).map (refusalRecord name)).toList) := by
  have hcall := runOn_call (.setVariable name value) machine
  unfold askVariable refusedWith?
  cases hrefusal : machine.peer.refusal? (.setVariable name value) with
  | none =>
    rw [hrefusal] at hcall
    rw [runOn_bind_ok (runOn_attempt_ok hcall)]
    dsimp only
    split
    · rfl
    · exact congrArg (Prod.mk _) (Machine.recorded_nil _).symm
  | some message =>
    rw [hrefusal] at hcall
    rw [runOn_bind_ok (runOn_attempt_failure hcall)]
    rfl

/-- All variables are asked for, and each refusal is logged. -/
theorem runOn_askVariables (channel : Channel) (environment : List (Text × Text))
    (machine : Machine) :
    ∃ calls, runOn (environment.forM fun (name, value) => askVariable channel name value) machine =
      (.ok (), { machine with calls }.recorded
        (refusalRecords machine.peer channel environment)) := by
  induction environment generalizing machine with
  | nil => exact ⟨machine.calls, congrArg (Prod.mk _) machine.recorded_nil.symm⟩
  | cons first environment ih =>
    obtain ⟨name, value⟩ := first
    have hfirst := runOn_askVariable channel name value machine
    obtain ⟨calls, hlater⟩ := ih (runOn (askVariable channel name value) machine).2
    rw [hfirst] at hlater
    refine ⟨calls, (runOn_bind_ok hfirst _).trans (hlater.trans ?_)⟩
    simp [refusalRecords, Machine.recorded]

/-! ## Starting and running a command -/

/-- Opening a channel fails if the far end refuses, or has none left, and writes nothing to the
log. -/
theorem runOn_openChannel (machine : Machine) :
    runOn openChannel machine =
      match machine.peer.refusal? .openChannel, machine.peer.channels with
      | some message, _ =>
        (.error (.failure (.ssh message)),
          { machine with calls := machine.calls ++ [.openChannel] })
      | none, [] =>
        (.error (.failure (.ssh "no more channels")),
          { machine with calls := machine.calls ++ [.openChannel] })
      | none, channel :: channels =>
        (.ok channel, { machine with
          calls := machine.calls ++ [.openChannel], peer := { machine.peer with channels } }) := by
  have hcall := runOn_call .openChannel machine
  unfold openChannel
  cases hrefusal : machine.peer.refusal? .openChannel with
  | some message =>
    rw [hrefusal] at hcall
    exact runOn_bind_error hcall _
  | none =>
    rw [hrefusal] at hcall
    rw [runOn_bind_ok hcall, runOn_bind_ok (runOn_get _)]
    cases machine.peer.channels <;> rfl

/-- The records of starting a command: where a channel is opened, the refused variables. -/
def startRecords (peer : Peer) (environment : List (Text × Text)) : List LogRecord :=
  match peer.refusal? .openChannel, peer.channels with
  | none, channel :: _ => refusalRecords peer channel environment
  | _, _ => []

/-- What a far end refuses depends on its refusals alone. -/
theorem refusal?_congr {peer other : Peer} (h : other.refusals = peer.refusals) (c : Call) :
    other.refusal? c = peer.refusal? c := by
  unfold Peer.refusal?
  rw [h]

/-- The records of starting a command do not depend on what the channel delivers. -/
theorem startRecords_congr {peer other : Peer} (hrefusals : other.refusals = peer.refusals)
    (hrefused : other.channels.head?.map Channel.refused = peer.channels.head?.map Channel.refused)
    (environment : List (Text × Text)) :
    startRecords other environment = startRecords peer environment := by
  unfold startRecords
  rw [refusal?_congr hrefusals]
  cases peer.refusal? .openChannel with
  | some message => rfl
  | none =>
    cases hchannels : peer.channels with
    | nil =>
      have hother : other.channels = [] := by simpa [hchannels] using hrefused
      rw [hother]
    | cons channel channels =>
      rw [hchannels] at hrefused
      obtain ⟨channel', hhead, hchannel⟩ := Option.map_eq_some_iff.mp hrefused
      obtain ⟨channels', hother⟩ := List.head?_eq_some_iff.mp hhead
      rw [hother]
      have hreason (name value : Text) :
          refusedWith? other channel' name value = refusedWith? peer channel name value := by
        rw [refusedWith?, refusal?_congr hrefusals, hchannel, refusedWith?]
      simp only [refusalRecords, hreason]

/-- Refused variables are all that starting a command writes to the log. -/
theorem log_start (command : Text) (options : CommandOptions) (machine : Machine) :
    (runOn (start command options) machine).2.log =
      machine.log ++ startRecords machine.peer options.environment := by
  have htimeout (millis : Nat) : runOn (call (.setTimeout millis)) machine =
      (.ok (), { machine with calls := machine.calls ++ [.setTimeout millis] }) := rfl
  have hopen (calls : List Call) := runOn_openChannel { machine with calls }
  unfold start startRecords
  rw [runOn_bind_ok (htimeout _)]
  cases hrefusal : machine.peer.refusal? .openChannel with
  | some message =>
    simp only [hrefusal] at hopen
    rw [runOn_bind_error (hopen _), List.append_nil]
  | none =>
    cases hchannels : machine.peer.channels with
    | nil =>
      simp only [hrefusal, hchannels] at hopen
      rw [runOn_bind_error (hopen _), List.append_nil]
    | cons channel channels =>
      simp only [hrefusal, hchannels] at hopen
      obtain ⟨calls, hasked⟩ := runOn_askVariables channel options.environment _
      rw [runOn_bind_ok (hopen _), runOn_bind_ok hasked]
      exact (keeps_log_call _).bind (fun _ => (keeps_log_call _).bind fun _ => keeps_pure _) _

/-- Refused variables are all that running a command writes to the log. -/
theorem log_execute (command : Text) (options : CommandOptions) (machine : Machine) :
    (runOn (execute command options) machine).2.log =
      machine.log ++ startRecords machine.peer options.environment := by
  rw [← log_start command options machine]
  exact log_bind_of_keeps fun channel => (keeps_collectOutput (fun _ _ => rfl) channel _).bind
    fun _ => (keeps_log_call _).bind fun _ => (keeps_ofExcept _).bind fun _ =>
      (keeps_log_call _).bind fun _ => (keeps_log_call _).bind fun _ => keeps_pure _

/-! ## Opening a session -/

/-- The record of an open session. -/
def openRecord (options : ConnectionOptions) : LogRecord :=
  ⟨.info, "Connected to " ++ options.host ++ " as " ++ options.user⟩

/-- A session that is not opened leaves no record. -/
theorem silentStop_openTo (options : ConnectionOptions) : SilentStop (openTo options) := by
  have hlast : Sure (log .info ("Connected to " ++ options.host ++ " as " ++ options.user) >>=
      fun _ => pure (⟨options.host⟩ : Connection)) :=
    (stops_log _ _).bind fun _ => stops_pure _
  exact keeps_get.bind_silentStop fun _ => (keeps_ofExcept _).bind_silentStop fun address =>
    (keeps_connect address _).bind_silentStop fun _ => (keeps_log_call _).bind_silentStop fun _ =>
    (keeps_log_call _).bind_silentStop fun _ => (keeps_log_call _).bind_silentStop fun _ =>
    (keeps_log_call _).bind_silentStop fun _ => (keeps_log_call _).bind_silentStop fun _ =>
    hlast.silentStop

end Connection
end HostKit
