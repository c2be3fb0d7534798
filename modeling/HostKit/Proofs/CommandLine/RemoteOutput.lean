import HostKit.CommandLine.Run
import HostKit.Proofs.Remote.Logs
import HostKit.Proofs.Remote.Output

/-!
# Where the output of a remote command goes

The output of a remote command goes to the log line by line, or, if it is hidden there, its standard
output is printed. It is logged before it is known for a failure, but printed only after a success.
-/

namespace HostKit.CommandLine.RemoteCommand

open HostKit.Action

/-- How the run ends that the command asks for. -/
def outcome (command : RemoteCommand) (ssh : SshConfig) (machine : Machine) :
    Except Stop CommandOutput :=
  match command.connectionOptions ssh machine.environment with
  | .error failure => .error (.failure failure)
  | .ok target => (runOn (Remote.run command.text command.commandOptions target) machine).1

/-- The report prints the standard output exactly if it is hidden from the log. -/
theorem printed_report (command : RemoteCommand) (output : CommandOutput) (machine : Machine) :
    (runOn (command.report output) machine).2.printed =
      machine.printed ++ if command.hide then Utf8.encode output.stdout else [] := by
  unfold report
  cases command.hide <;> cases output.success <;> simp <;> rfl

/-- A remote command stops where its run does, and else reports the output. -/
theorem runOn_run (command : RemoteCommand) (ssh : SshConfig) (machine : Machine) :
    ∃ between, between.printed = machine.printed ∧
      runOn (command.run ssh) machine =
        match command.outcome ssh machine with
        | .ok output => runOn (command.report output) between
        | .error stop => (.error stop, between) := by
  unfold outcome run
  rw [runOn_bind_ok (runOn_get machine)]
  cases command.connectionOptions ssh machine.environment with
  | error failure => exact ⟨machine, rfl, rfl⟩
  | ok target =>
    have hremains := Connection.keeps_remains_run command.text command.commandOptions target machine
    refine ⟨_, congrArg Prod.snd hremains, ?_⟩
    dsimp only
    rcases hrun : runOn (Remote.run command.text command.commandOptions target) machine with
      ⟨stop | output, after⟩
    · exact runOn_bind_error hrun _
    · exact runOn_bind_ok hrun _

/-- A remote command prints the standard output if it is hidden from the log and the run succeeds,
and nothing otherwise. -/
theorem printed_run (command : RemoteCommand) (ssh : SshConfig) (machine : Machine) :
    (∀ output, command.outcome ssh machine = .ok output →
      (runOn (command.run ssh) machine).2.printed =
        machine.printed ++ if command.hide then Utf8.encode output.stdout else []) ∧
    ∀ stop, command.outcome ssh machine = .error stop →
      (runOn (command.run ssh) machine).2.printed = machine.printed := by
  obtain ⟨between, hprinted, hrun⟩ := runOn_run command ssh machine
  rw [hrun]
  constructor
  · intro output houtcome
    rw [houtcome, ← hprinted]
    exact printed_report command output between
  · intro stop houtcome
    rw [houtcome]
    exact hprinted

open Connection Collect

/-- A run whose command yields an output fails exactly if the status is neither zero nor accepted
all the same, with the command, the status and the whole error output; else it gives the output as
it is. Either way its records are the open session, the refused variables, and then, unless they are
hidden, the lines of the standard output and those of the error output. If they are hidden, no other
output leads to another log. A remote command prints the standard output if it is hidden and the run
succeeds, and nothing otherwise. -/
theorem run_judged_and_logged {text : Text} {options : CommandOptions} {target : ConnectionOptions}
    {machine ready between : Machine} {connection : Connection} {output : CommandOutput}
    (hopen : runOn (openTo target) machine = (.ok connection, ready))
    (hexecute : runOn (execute text options) ready = (.ok output, between)) :
    ((runOn (Remote.run text options target) machine).1 =
        .error (.failure (.remoteCommand text output.status output.stderr)) ↔
      output.status ≠ 0 ∧ options.warn = false) ∧
    (¬(output.status ≠ 0 ∧ options.warn = false) →
      (runOn (Remote.run text options target) machine).1 = .ok output) ∧
    (runOn (Remote.run text options target) machine).2.log =
      machine.log ++ openRecord target :: startRecords machine.peer options.environment ++
        (if options.hide then [] else Remote.outputRecords target.host output) ∧
    (options.hide = true → ∀ other, Admits machine other →
      (runOn (Remote.run text options target) other).2.log =
        (runOn (Remote.run text options target) machine).2.log) ∧
    ∀ (command : RemoteCommand) (config : Config) (machine : Machine),
      (∀ output, command.outcome config.ssh machine = .ok output →
        (runOn ((Command.exec command).run config) machine).2.printed =
          machine.printed ++ if command.hide then Utf8.encode output.stdout else []) ∧
      ∀ stop, command.outcome config.ssh machine = .error stop →
        (runOn ((Command.exec command).run config) machine).2.printed = machine.printed := by
  have houtcome := outcome_run_of_output hopen hexecute
  refine ⟨?_, ?_, log_run_of_output hopen hexecute, ?_, ?_⟩
  · rw [houtcome, Remote.judged]
    split
    · next hfails => exact iff_of_true rfl hfails
    · next hpasses => exact iff_of_false (by simp) hpasses
  · intro hpasses
    rw [houtcome, Remote.judged, if_neg hpasses]
  · exact fun hhide other hother => hother.log_run hhide text target
  · exact fun command config machine => printed_run command config.ssh machine

/-- A channel that refuses a variable, and on which a command fails after some output. -/
def grumbling : Channel := ⟨[.data [97, 10, 98]], [.data [99]], 0, 3, ["A"]⟩

/-- The output of a command that fails is logged all the same, and if it is hidden the log does not
tell the command from a silent one. -/
theorem grumbling_logged :
    (runOn (Remote.run "true" { environment := [("A", "1")] } guest)
        (.facing ⟨[], [grumbling]⟩)).1 = .error (.failure (.remoteCommand "true" 3 "c")) ∧
    (runOn (Remote.run "true" { environment := [("A", "1")] } guest)
        (.facing ⟨[], [grumbling]⟩)).2.log =
      [openRecord guest, refusalRecord "A" "refused", ⟨.info, "[localhost] a"⟩,
        ⟨.info, "[localhost] b"⟩, ⟨.warn, "[localhost] c"⟩] ∧
    (runOn (Remote.run "true" { hide := true } guest)
        (.facing ⟨[], [{ silent with refused := ["A"] }]⟩)).2.log =
      (runOn (Remote.run "true" { hide := true } guest) (.facing ⟨[], [grumbling]⟩)).2.log := by
  have hopen : runOn (openTo guest) (.facing ⟨[], [grumbling]⟩) =
      (.ok ⟨guest.host⟩, opened guest (.facing ⟨[], [grumbling]⟩)) := rfl
  have hserves : Serves (opened guest (.facing ⟨[], [grumbling]⟩)) "true" grumbling :=
    ⟨rfl, rfl, rfl, rfl, rfl⟩
  have hsteady : Steady (.ofChannel grumbling) := by
    refine ⟨?_, ?_, ?_, ?_⟩ <;>
      simp [grumbling, Progress.ofChannel, Faultless, Prompt, remaining]
  have hstdout : Utf8.decodeLossy (contents grumbling.stdout) = "a\nb" := by decide +kernel
  have hstderr : Utf8.decodeLossy (contents grumbling.stderr) = "c" := by decide +kernel
  have hexecute (options : CommandOptions) (htimeout : options.timeout = none) :
      runOn (execute "true" options) (opened guest (.facing ⟨[], [grumbling]⟩)) =
        (.ok ⟨"a\nb", "c", 3⟩, (runOn (execute "true" options)
          (opened guest (.facing ⟨[], [grumbling]⟩))).2) := by
    refine Prod.ext ((hserves.runOn_execute htimeout hsteady).trans ?_) rfl
    rw [hstdout, hstderr]
    rfl
  obtain ⟨hfails, -, hlog, -⟩ :=
    run_judged_and_logged hopen (hexecute { environment := [("A", "1")] } rfl)
  obtain ⟨-, -, -, hsame, -⟩ := run_judged_and_logged hopen (hexecute { hide := true } rfl)
  exact ⟨hfails.mpr ⟨by decide, rfl⟩, hlog, hsame rfl _ ⟨rfl, rfl, rfl, rfl, rfl⟩⟩

end HostKit.CommandLine.RemoteCommand
