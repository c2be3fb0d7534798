import HostKit.CommandLine.Run
import HostKit.Proofs.CommandLine.Failures
import HostKit.Proofs.Table.Widths

/-!
# Commands that panic

The bounds on which subtractions, indices and slices rely hold for all inputs, and nearly all
commands end with a result or a failure. The exception is a remote command with a timeout so long
that the point in time at which it runs out cannot be told: once the command has been started,
adding the timeout to the present panics.
-/

namespace HostKit.CommandLine

open HostKit.Action Files Connection

/-- The bounds on which commands rely where they subtract, cut or index. -/
structure InBounds : Prop where
  /-- A cell is not longer than its column is wide, so that it can be padded. -/
  padding : ∀ (rows : List (List Text)) (row : List Text) (column : Nat), row ∈ rows →
    (row.getD column []).length ≤ Table.columnWidth rows column
  /-- A title that fits leaves room for both corners of the top rule. -/
  title : ∀ (title : Text) (horizontal : Char) (ends : Table.Ends) (widths : List Nat),
    title.length ≤ Table.firstSegment widths →
      title.length + 2 ≤ (Table.rule horizontal ends widths).length
  /-- All lines of a table are equally long. -/
  lines : ∀ (title? : Option Text) (rows : List (List Text)) (style : Table.Style) (line : Text),
    line ∈ Table.blocks title? rows style → line.length =
      (Table.rule style.border.horizontal style.border.bottom (Table.columnWidths rows)).length
  /-- The value of a digit is that of one of the thirty-six digits. -/
  digit : ∀ (radix n : Nat), Radix.isRadix radix = true → n % radix < 36
  /-- No more lines are kept than there were. -/
  kept : ∀ (ip : Text) (lines : List Text),
    (HostRegistry.otherLines ip lines).length ≤ lines.length
  /-- A read brings no more than the buffer holds. -/
  buffer : ∀ (steps rest : List ReadStep) (bytes : Bytes),
    Collect.readAvailable steps = .ok (bytes, rest) → bytes.length ≤ Collect.bufferSize
  /-- The timeout in a call takes 32 bits. -/
  millis : ∀ duration : Duration, duration.millis32 ≤ Word.largest 32

/-- A read brings no more than the buffer holds. -/
theorem length_le_of_readAvailable {steps rest : List ReadStep} {bytes : Bytes}
    (h : Collect.readAvailable steps = .ok (bytes, rest)) :
    bytes.length ≤ Collect.bufferSize := by
  rcases Collect.readAvailable_cases h with ⟨-, rfl, -⟩ | ⟨step, -, -, hle⟩ |
    ⟨more, later, -, -, hfull, -⟩
  · exact Nat.zero_le _
  · exact hle
  · exact Nat.le_of_eq hfull

/-- The bounds hold for all inputs. -/
theorem inBounds : InBounds where
  padding _ _ column h := Table.length_getD_le_columnWidth h column
  title title horizontal ends widths h := by
    have hsegment := Table.firstSegment_add_two_le horizontal ends widths
    omega
  lines _ _ _ _ h := Table.length_of_mem_blocks h
  digit radix n h := by
    obtain ⟨hlow, hhigh⟩ : 2 ≤ radix ∧ radix ≤ 36 := by simpa [Radix.isRadix] using h
    have hlt : n % radix < radix := Nat.mod_lt n (by omega)
    omega
  kept ip lines := List.length_filter_le _ lines
  buffer _ _ _ h := length_le_of_readAvailable h
  millis _ := Nat.min_le_right _ _

/-! ## Commands that cannot panic -/

theorem stops_loadOrDefault (path? : Option Text) :
    Stops Stop.IsFailure (Config.loadOrDefault path?) := by
  cases path? with
  | none => exact stops_pure _
  | some path =>
    refine (stops_look fun _ => Stop.isFailure_failure _).bind fun content => ?_
    cases Utf8.decode content with
    | ok document => exact stops_ofExcept fun _ _ => Stop.isFailure_failure _
    | error e => exact stops_fail (Stop.isFailure_failure _)

theorem HostsCommand.stops (command : HostsCommand) (registry : HostRegistry) :
    Stops Stop.IsFailure (command.run registry) := by
  have hline (text : Text) : Stops Stop.IsFailure (printLine text) := stops_print _
  have hfail (failure : Failure) : Stops Stop.IsFailure (fail failure : Action Unit) :=
    stops_fail (Stop.isFailure_failure failure)
  have hio {α : Type} {action : Action α} (h : Stops Stop.IsIo action) :
      Stops Stop.IsFailure action := h.mono fun _ => Stop.IsIo.isFailure
  cases command with
  | add ip hostname => exact (HostRegistry.locked_add registry ip hostname).stops
  | remove ip => exact (HostRegistry.locked_remove registry ip).stops
  | set ip hostname => exact (HostRegistry.locked_set registry ip hostname).stops
  | «exists» ip =>
    refine (hio (HostRegistry.stops_contains registry ip)).bind fun found => ?_
    cases found with
    | true => exact hline ip
    | false => exact hfail _
  | get ip =>
    refine (hio (HostRegistry.stops_hostname? registry ip)).bind fun hostname? => ?_
    cases hostname? with
    | some hostname => exact hline hostname
    | none => exact hfail _
  | list style =>
    exact (stops_ofExcept fun _ _ => Stop.isFailure_failure _).bind fun style =>
      (hio (HostRegistry.stops_entries registry)).bind fun entries => hline _

/-- A command other than a remote one ends with a result or a failure. -/
theorem Command.stops {command : Command} {config : Config} (h : ∀ c, command ≠ .exec c) :
    Stops Stop.IsFailure (command.run config) := by
  have hline (text : Text) : Stops Stop.IsFailure (printLine text) := stops_print _
  have hlook (path : Text) : Stops Stop.IsFailure (readFile path) :=
    stops_look fun _ => Stop.isFailure_failure _
  have hresult {α : Type} (result : Except Failure α) : Stops Stop.IsFailure (ofExcept result) :=
    stops_ofExcept fun _ _ => Stop.isFailure_failure _
  have hinput (input : TextInput) : Stops Stop.IsFailure input.read := by
    cases input with
    | inline text => exact stops_pure _
    | file path => exact hlook path
  have hwrite (path : Text) (content : Bytes) : Stops Stop.IsFailure (writeFile path content) :=
    (stops_change fun _ => Stop.isFailure_failure _).bind fun _ =>
      stops_change fun _ => Stop.isFailure_failure _
  cases command with
  | hosts command =>
    exact stops_get.bind fun machine => (hresult _).bind fun path => command.stops ⟨path⟩
  | encode codec input => exact (hinput input).bind fun data => hline _
  | decode codec input =>
    exact (hinput input).bind fun data => (hresult _).bind fun text =>
      (hresult _).bind fun data => stops_print _
  | compress codec input output =>
    exact (hlook input).bind fun data => stops_get.bind fun machine =>
      (hresult _).bind fun packed => (hwrite output packed).bind fun _ => stops_log _ _
  | decompress codec input output =>
    exact (hlook input).bind fun packed => (hresult _).bind fun data =>
      (hwrite output data).bind fun _ => stops_log _ _
  | yaml file =>
    exact (hlook file).bind fun data => (hresult _).bind fun document =>
      (hresult _).bind fun normal => stops_print _
  | int value fromRadix toRadix => exact (hresult _).bind fun text => hline text
  | table title style rows => exact (hresult _).bind fun style => hline _
  | exec command => exact (h command rfl).elim

/-! ## Remote commands -/

/-- A remote command panics if its run does. -/
theorem RemoteCommand.panics_iff {command : RemoteCommand} {ssh : SshConfig} {machine : Machine} :
    Panics (command.run ssh) machine ↔ ∃ options,
      command.connectionOptions ssh machine.environment = .ok options ∧
        Panics (Remote.run command.text command.commandOptions options) machine := by
  have hreport (options : ConnectionOptions) : Panics (do
      let output ← Remote.run command.text command.commandOptions options
      command.report output) machine ↔ _ :=
    panics_bind_iff_of_stops fun output => (command.sure_report output).stops
  have hoptions : Panics (command.run ssh) machine ↔ Panics (do
      let options ← ofExcept (command.connectionOptions ssh machine.environment)
      let output ← Remote.run command.text command.commandOptions options
      command.report output) machine := by
    unfold RemoteCommand.run Panics
    rw [runOn_bind_ok (runOn_get machine)]
  rw [hoptions]
  cases command.connectionOptions ssh machine.environment with
  | error failure =>
    have hfail : Stops Stop.IsFailure (do
        let options ← ofExcept (.error failure)
        let output ← Remote.run command.text command.commandOptions options
        command.report output) := stops_fail (Stop.isFailure_failure failure)
    exact ⟨fun hpanics => (hfail.not_panics machine hpanics).elim, fun ⟨_, herror, _⟩ => by
      cases herror⟩
  | ok options =>
    refine ⟨fun hpanics => ⟨options, rfl, (hreport options).mp hpanics⟩, ?_⟩
    rintro ⟨options', hsame, hpanics⟩
    obtain rfl := Except.ok.inj hsame
    exact (hreport options).mpr hpanics

/-- The bounds of all arithmetic hold, and a command panics exactly if it is a remote one whose
session is opened, whose command is started, and whose timeout ends beyond what can be told. -/
theorem Invocation.inBounds_and_panics_iff {invocation : Invocation} {machine : Machine} :
    InBounds ∧ (Panics invocation.run machine ↔
      ∃ command seconds config options connection opened channel started,
        invocation.command = .exec command ∧ command.timeout = some seconds ∧
        maxSeconds < Duration.seconds
          (machine.clock machine.readings + Duration.ofSeconds seconds) ∧
        runOn (Config.loadOrDefault invocation.configPath) machine = (.ok config, machine) ∧
        command.connectionOptions config.ssh machine.environment = .ok options ∧
        runOn (openTo options) machine = (.ok connection, opened) ∧
        runOn (start command.text command.commandOptions) opened = (.ok channel, started)) := by
  refine ⟨inBounds, ?_⟩
  unfold Invocation.run
  rw [(stops_loadOrDefault invocation.configPath).panics_bind_iff]
  constructor
  · rintro ⟨config, loaded, hload, hpanics⟩
    obtain rfl := (Config.keeps_loadOrDefault _).after_eq hload
    by_cases hexec : ∃ command, invocation.command = .exec command
    · obtain ⟨command, hexec⟩ := hexec
      rw [hexec] at hpanics
      obtain ⟨options, hoptions, hpanics⟩ := RemoteCommand.panics_iff.mp hpanics
      obtain ⟨duration, htimeout, hfar, connection, opened, channel, started, hopen, hstart⟩ :=
        panics_run_iff.mp hpanics
      obtain ⟨seconds, hseconds, rfl⟩ := Option.map_eq_some_iff.mp htimeout
      exact ⟨command, seconds, config, options, connection, opened, channel, started, hexec,
        hseconds, hfar, hload, hoptions, hopen, hstart⟩
    · exact absurd hpanics
        ((Command.stops fun command hcommand => hexec ⟨command, hcommand⟩).not_panics _)
  · rintro ⟨command, seconds, config, options, connection, opened, channel, started, hexec,
      hseconds, hfar, hload, hoptions, hopen, hstart⟩
    refine ⟨config, machine, hload, ?_⟩
    rw [hexec]
    refine RemoteCommand.panics_iff.mpr ⟨options, hoptions, panics_run_iff.mpr ?_⟩
    exact ⟨Duration.ofSeconds seconds, by simp [RemoteCommand.commandOptions, hseconds], hfar,
      connection, opened, channel, started, hopen, hstart⟩

/-- A remote command that is given the longest timeout. -/
def endless : RemoteCommand where
  host := "127.0.0.1".toList
  user := some "me".toList
  port := none
  keyFile := none
  passphrase := none
  password := none
  connectTimeout := none
  timeout := some (Word.largest 64)
  warn := false
  hide := false
  environment := []
  words := ["true".toList]

/-- A machine whose network and far end accept one command. -/
def accepting : Machine :=
  { Machine.resting (flat []) with
    network := fun _ => .settles 0 none
    peer := ⟨[], [⟨[], [], 0, 0, []⟩]⟩ }

/-- The longest timeout ends beyond what can be told even if the clock starts at zero. -/
theorem endless_panics :
    Panics (Invocation.run ⟨none, none, .exec endless⟩) accepting := by
  let target : ConnectionOptions := { host := "127.0.0.1".toList, user := "me".toList }
  let opened := (runOn (openTo target) accepting).2
  have hload : runOn (Config.loadOrDefault none) accepting = (.ok {}, accepting) := rfl
  have hfar : maxSeconds < Duration.seconds (0 + Duration.ofSeconds (Word.largest 64)) := by
    decide
  have htarget : endless.connectionOptions {} {} = .ok target := rfl
  have hopen : runOn (openTo target) accepting = (.ok ⟨target.host⟩, opened) := rfl
  obtain ⟨started, hstart⟩ : ∃ started, runOn (start endless.text endless.commandOptions) opened =
      (.ok ⟨[], [], 0, 0, []⟩, started) := ⟨_, rfl⟩
  exact Invocation.inBounds_and_panics_iff.2.mpr ⟨endless, Word.largest 64, {}, target, _, opened,
    _, started, rfl, rfl, hfar, hload, htarget, hopen, hstart⟩

end HostKit.CommandLine
