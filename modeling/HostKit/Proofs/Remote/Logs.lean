import HostKit.Proofs.Remote.Runs

/-!
# The log and the outcome of a run

A run whose command yields an output ends as this output is taken for. By then all records have
been written: the open session, the refused variables, and the lines of the output unless they are
hidden. So nothing of a hidden output shows in the log, nor does whether there is one at all.
-/

namespace HostKit.Connection

open HostKit.Action

variable {machine other ready between : Machine} {command : Text} {options : CommandOptions}
variable {target : ConnectionOptions} {connection : Connection} {output : CommandOutput}

/-- The machines have the same log and lead to far ends that let in and refuse the same. What the
far ends deliver, how their commands end, and all else may differ. -/
structure Admits (machine other : Machine) : Prop where
  log : other.log = machine.log
  lookup : other.lookup = machine.lookup
  network : other.network = machine.network
  refusals : other.peer.refusals = machine.peer.refusals
  refused : other.peer.channels.head?.map Channel.refused =
    machine.peer.channels.head?.map Channel.refused

/-- What is done on an open session ends as the output of the command is taken for, once the output
has been logged. -/
theorem runOn_body_of_output
    (hexecute : runOn (execute command options) ready = (.ok output, between)) (host : Text) :
    runOn (body command options host) ready = (Remote.judged command options output,
      between.recorded (if options.hide then [] else Remote.outputRecords host output)) := by
  rw [body, runOn_bind_ok hexecute, Remote.runOn_judge]

/-- A run whose command yields an output ends as this output is taken for. -/
theorem outcome_run_of_output (hopen : runOn (openTo target) machine = (.ok connection, ready))
    (hexecute : runOn (execute command options) ready = (.ok output, between)) :
    (runOn (Remote.run command options target) machine).1 =
      Remote.judged command options output := by
  rw [runOn_run_of_open hopen, runOn_body_of_output hexecute]

/-- An open session is a record, and so is each variable that is then refused. -/
theorem log_execute_of_open (hopen : runOn (openTo target) machine = (.ok connection, ready))
    (command : Text) (options : CommandOptions) :
    (runOn (execute command options) ready).2.log =
      machine.log ++ openRecord target :: startRecords machine.peer options.environment := by
  rw [log_execute, (of_runOn_openTo hopen).1]
  exact List.append_assoc machine.log [openRecord target] _

/-- A run whose command yields an output logs the lines of this output after all else, unless they
are hidden. -/
theorem log_run_of_output (hopen : runOn (openTo target) machine = (.ok connection, ready))
    (hexecute : runOn (execute command options) ready = (.ok output, between)) :
    (runOn (Remote.run command options target) machine).2.log =
      machine.log ++ openRecord target :: startRecords machine.peer options.environment ++
        if options.hide then [] else Remote.outputRecords target.host output := by
  have hlog := log_execute_of_open hopen command options
  rw [hexecute] at hlog
  rw [runOn_run_of_open hopen, runOn_body_of_output hexecute, ← hlog]
  rfl

/-- A hidden run on an open session logs nothing more than the refused variables. -/
theorem log_run_of_hide (hhide : options.hide = true)
    (hopen : runOn (openTo target) machine = (.ok connection, ready)) :
    (runOn (Remote.run command options target) machine).2.log =
      machine.log ++ openRecord target :: startRecords machine.peer options.environment := by
  have hjudge (output : CommandOutput) :
      Keeps Machine.log (Remote.judge command options target.host output) := by
    intro machine
    rw [Remote.runOn_judge, hhide, if_pos rfl, Machine.recorded_nil]
  rw [runOn_run_of_open hopen, ← log_execute_of_open hopen command options]
  exact log_bind_of_keeps hjudge

/-- Nothing that a far end delivers shows in the log of a hidden run, whatever becomes of it. -/
theorem Admits.log_run (h : Admits machine other) (hhide : options.hide = true) (command : Text)
    (target : ConnectionOptions) :
    (runOn (Remote.run command options target) other).2.log =
      (runOn (Remote.run command options target) machine).2.log := by
  have hstop : other.peer.stop? = machine.peer.stop? :=
    funext fun c => congrArg (Option.map _) (refusal?_congr h.refusals c)
  have hsame := reach_congr target h.lookup h.network
  cases hreach : (runOn (reach target) machine).1 with
  | error stop =>
    rw [Remote.run, runOn_bind_error (runOn_openTo_of_unreached hreach),
      runOn_bind_error (runOn_openTo_of_unreached (hsame.trans hreach))]
    exact h.log
  | ok _ =>
    have hplays := plays_openTo hreach
    have hplays' := plays_openTo (hsame.trans hreach)
    rw [hstop] at hplays'
    -- Either both sessions are opened or both runs stop at the same call.
    cases hrow : (openRow target).findSome? machine.peer.stop? with
    | some stop =>
      have hsilent {machine : Machine} (hrun : (runOn (openTo target) machine).1 = .error stop) :
          (runOn (Remote.run command options target) machine).2.log = machine.log := by
        rw [Remote.run, runOn_bind_error (Prod.ext hrun rfl)]
        exact silentStop_openTo target machine stop _ (Prod.ext hrun rfl)
      rw [hsilent (hplays.stops stop hrow), hsilent (hplays'.stops stop hrow), h.log]
    | none =>
      obtain ⟨connection, hrun, hready⟩ := hplays.succeeds hrow
      obtain ⟨connection', hrun', hready'⟩ := hplays'.succeeds hrow
      rw [log_run_of_hide hhide (Prod.ext hrun hready),
        log_run_of_hide hhide (Prod.ext hrun' hready'), h.log,
        startRecords_congr h.refusals h.refused]

end HostKit.Connection
