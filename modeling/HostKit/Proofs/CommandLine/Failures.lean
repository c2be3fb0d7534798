import HostKit.CommandLine.Run
import HostKit.Proofs.Config.PathVariables
import HostKit.Proofs.Hosts.Effects
import HostKit.Proofs.Remote.Sessions

/-!
# Commands that fail

A command has one effect, a file that it writes or an output that it prints, and nothing can fail
after it. So a command that fails has printed nothing and left the files as they were; only the
empty lock file of a hosts file may be new.
-/

namespace HostKit

open HostKit.Action Files

namespace Config

variable {γ : Type} {part : Machine → γ}

theorem keeps_loadOrDefault (path? : Option Text) : Keeps part (loadOrDefault path?) := by
  cases path? with
  | none => exact keeps_pure _
  | some path =>
    refine (keeps_look _).bind fun content => ?_
    cases Utf8.decode content with
    | ok document => exact keeps_ofExcept _
    | error e => exact keeps_fail _

end Config

namespace CommandLine

variable {machine after : Machine} {stop : Stop}

/-- The command changes the hosts file. -/
def HostsCommand.Changes : HostsCommand → Prop
  | .add _ _ | .remove _ | .set _ _ => True
  | .exists _ | .get _ | .list _ => False

/-- A command that changes the hosts file takes the lock. -/
theorem HostsCommand.locked {command : HostsCommand} (h : command.Changes)
    (registry : HostRegistry) : registry.Locked (command.run registry) := by
  cases command with
  | add ip hostname => exact HostRegistry.locked_add registry ip hostname
  | remove ip => exact HostRegistry.locked_remove registry ip
  | set ip hostname => exact HostRegistry.locked_set registry ip hostname
  | «exists» ip => exact h.elim
  | get ip => exact h.elim
  | list style => exact h.elim

/-- A command that only looks at the hosts file prints after all that can fail. -/
theorem HostsCommand.unspoilt {command : HostsCommand} (h : ¬command.Changes)
    (registry : HostRegistry) : Unspoilt (command.run registry) := by
  have hline (text : Text) : Unspoilt (printLine text) := Sure.unspoilt (stops_print _)
  have hfail (failure : Failure) : Unspoilt (fail failure : Action Unit) :=
    (keeps_fail failure).unspoilt
  cases command with
  | «exists» ip =>
    refine (HostRegistry.keeps_contains registry ip).bind_unspoilt fun found => ?_
    cases found with
    | true => exact hline ip
    | false => exact hfail _
  | get ip =>
    refine (HostRegistry.keeps_hostname? registry ip).bind_unspoilt fun hostname? => ?_
    cases hostname? with
    | some hostname => exact hline hostname
    | none => exact hfail _
  | list style =>
    exact (keeps_ofExcept _).bind_unspoilt fun style =>
      (HostRegistry.keeps_entries registry).bind_unspoilt fun entries => hline _
  | add ip hostname => exact (h trivial).elim
  | remove ip => exact (h trivial).elim
  | set ip hostname => exact (h trivial).elim

theorem keeps_readInput {γ : Type} {part : Machine → γ} (input : TextInput) :
    Keeps part input.read := by
  cases input with
  | inline text => exact keeps_pure _
  | file path => exact keeps_look _

theorem unspoilt_compressFile (codec : CompressionCodec) (input output : Text) :
    Unspoilt (compressFile codec input output) :=
  (keeps_look _).bind_unspoilt fun _ => keeps_get.bind_unspoilt fun _ =>
    (keeps_ofExcept _).bind_unspoilt fun _ =>
      (unspoilt_writeFile _ _).bind_sure fun _ => stops_log _ _

theorem unspoilt_decompressFile (codec : CompressionCodec) (input output : Text) :
    Unspoilt (decompressFile codec input output) :=
  (keeps_look _).bind_unspoilt fun _ => (keeps_ofExcept _).bind_unspoilt fun _ =>
    (unspoilt_writeFile _ _).bind_sure fun _ => stops_log _ _

/-- Nothing can go wrong when the output is reported. -/
theorem RemoteCommand.sure_report (command : RemoteCommand) (output : CommandOutput) :
    Sure (command.report output) := by
  unfold RemoteCommand.report
  split
  · dsimp only
    split
    · exact (stops_print _).bind fun _ => stops_log _ _
    · exact stops_log _ _
  · dsimp only
    split
    · exact (stops_print _).bind fun _ => stops_pure _
    · exact stops_pure _

/-- A remote run prints when it is over. -/
theorem RemoteCommand.unspoilt (command : RemoteCommand) (ssh : SshConfig) :
    Unspoilt (command.run ssh) := by
  refine keeps_get.bind_unspoilt fun machine => (keeps_ofExcept _).bind_unspoilt fun options => ?_
  exact (Connection.keeps_remains_run _ _ _).bind_unspoilt fun output =>
    (command.sure_report output).unspoilt

/-- A command that leaves the hosts file alone spoils nothing if it fails. -/
theorem Command.unspoilt {command : Command} {config : Config}
    (h : ∀ c, command = .hosts c → ¬c.Changes) : Unspoilt (command.run config) := by
  have hline (text : Text) : Unspoilt (printLine text) := Sure.unspoilt (stops_print _)
  have hprint (data : Bytes) : Unspoilt (print data) := Sure.unspoilt (stops_print _)
  have hdecode (data : Bytes) : Keeps Machine.remains (decodeUtf8 data) := keeps_ofExcept _
  cases command with
  | hosts command =>
    exact keeps_get.bind_unspoilt fun machine => (keeps_ofExcept _).bind_unspoilt fun path =>
      HostsCommand.unspoilt (h command rfl) ⟨path⟩
  | encode codec input => exact (keeps_readInput input).bind_unspoilt fun data => hline _
  | decode codec input =>
    exact (keeps_readInput input).bind_unspoilt fun data => (hdecode data).bind_unspoilt fun text =>
      (keeps_ofExcept _).bind_unspoilt fun data => hprint data
  | compress codec input output => exact unspoilt_compressFile codec input output
  | decompress codec input output => exact unspoilt_decompressFile codec input output
  | yaml file =>
    exact (keeps_look _).bind_unspoilt fun data => (hdecode data).bind_unspoilt fun document =>
      (keeps_ofExcept _).bind_unspoilt fun normal => hprint _
  | int value fromRadix toRadix => exact (keeps_ofExcept _).bind_unspoilt fun text => hline text
  | table title style rows => exact (keeps_ofExcept _).bind_unspoilt fun style => hline _
  | exec command => exact command.unspoilt config.ssh

/-- A command that fails has printed nothing, and the files are as before, but for the empty lock
file of the hosts file, which a command that changes this file may have made. -/
theorem Invocation.remains_of_error {invocation : Invocation}
    (hrun : runOn invocation.run machine = (.error stop, after)) :
    after.printed = machine.printed ∧
      (Alike after.files machine.files ∨
        ∃ command config path k, invocation.command = .hosts command ∧ command.Changes ∧
          runOn (Config.loadOrDefault invocation.configPath) machine = (.ok config, machine) ∧
          Config.expandPath machine.environment (invocation.hostsFile.getD config.hostsFile) =
            .ok path ∧
          (HostRegistry.mk path).LocksAt machine.files k ∧ machine.files.item? k = none ∧
          Alike after.files
            (machine.files.insert k (.file machine.files.setting.newFileMode []))) := by
  unfold Invocation.run at hrun
  rcases runOn_bind_cases hrun with ⟨stop', -, hload⟩ | ⟨config, between, hload, hcommand⟩
  · obtain rfl := (Config.keeps_loadOrDefault _).after_eq hload
    exact ⟨rfl, .inl (.refl _)⟩
  obtain rfl : between = machine := (Config.keeps_loadOrDefault _).after_eq hload
  by_cases hchanges : ∃ c, invocation.command = .hosts c ∧ c.Changes
  · obtain ⟨command, hhosts, hchanges⟩ := hchanges
    rw [hhosts, Command.run, runOn_bind_ok (runOn_get _)] at hcommand
    cases hpath : Config.expandPath between.environment
        (invocation.hostsFile.getD config.hostsFile) with
    | error failure =>
      simp only [Config.hostsFilePath, hpath] at hcommand
      obtain ⟨-, rfl⟩ := Prod.mk.inj hcommand
      exact ⟨rfl, .inl (.refl _)⟩
    | ok path =>
      simp only [Config.hostsFilePath, hpath] at hcommand
      have hcommand' : runOn (command.run ⟨path⟩) between = (.error stop, after) := hcommand
      rcases (HostsCommand.locked hchanges ⟨path⟩).of_runOn_error hcommand' with
        rfl | ⟨k, e, hk, -, hprinted, halike⟩
      · exact ⟨rfl, .inl (.refl _)⟩
      refine ⟨hprinted, ?_⟩
      cases hitem : between.files.item? k with
      | some item =>
        simp only [ensureFile, hitem] at halike
        exact .inl halike
      | none =>
        simp only [ensureFile, hitem] at halike
        exact .inr ⟨command, config, path, k, hhosts, hchanges, hload, hpath, hk, hitem, halike⟩
  · obtain ⟨hprinted, halike⟩ := Command.unspoilt
      (fun c hhosts hc => hchanges ⟨c, hhosts, hc⟩) _ _ _ hcommand
    exact ⟨hprinted, .inl halike⟩

/-- The root directory with a hosts file that is no text. -/
def garbled : List (Text × Item) := [("hosts".toList, .file 0o644 [255])]

/-- The removal of an address from the hosts file in the working directory. -/
def removal : Invocation where
  configPath := none
  hostsFile := some "hosts".toList
  command := .hosts (.remove "10.0.0.1".toList)

/-- A removal from a hosts file that is no text prints nothing, and leaves at most an empty lock
file behind. -/
theorem removal_remains :
    ∃ after, runOn removal.run (.resting (flat garbled)) =
        (.error (.failure (.io .notText)), after) ∧
      after.printed = [] ∧ (Alike after.files (flat garbled) ∨
        Alike after.files
          ((flat garbled).insert HostRegistry.plainLock (.file 0o644 []))) := by
  have hitem : (flat garbled).item? HostRegistry.plainPlace = some (.file 0o644 [255]) := by
    rfl
  have hend : IsEnd ((flat garbled).item? HostRegistry.plainPlace) :=
    isEnd_iff.mpr (.inr ⟨_, _, hitem⟩)
  have hopens : (flat garbled).Opens HostRegistry.plain.path HostRegistry.plainPlace :=
    (names_flat (by decide) hend).opens hend
  have hk : HostRegistry.plain.LocksAt (Machine.resting (flat garbled)).files
      HostRegistry.plainLock :=
    HostRegistry.locksAt_flat (isEnd_iff.mpr (.inl (by rfl)))
  have hexpand : Config.expandPath {} "hosts".toList = .ok "hosts".toList :=
    Config.expandPath_of_plain (by decide) (by decide)
  have hfind : runOn (look (·.find HostRegistry.plain.path)) (.resting (flat garbled)) =
      (.ok (HostRegistry.plainPlace, .file 0o644 [255]), .resting (flat garbled)) :=
    runOn_look_ok (find_of_resolve hopens.resolve hitem)
  have hlocked : ((Machine.resting (flat garbled)).locked HostRegistry.plainLock).files.read
      HostRegistry.plain.path = .ok [255] := by
    refine (hopens.grows (grows_ensureFile hk.isEnd)).read
      ((item?_ensureFile_of_some hk.isEnd ?_).trans hitem)
    simp [hitem]
  have hdecode : Utf8.decode [255] = .error (.invalid 1 0) := by
    have hsequence : Utf8.sequence 255 [] = .invalid 1 [] := by rfl
    rw [Utf8.decode, Utf8.decodeFrom]
    split <;> simp_all
  have hremove : runOn (HostRegistry.plain.remove "10.0.0.1".toList) (.resting (flat garbled)) =
      (.error (.failure (.io .notText)),
        (Machine.resting (flat garbled)).locked HostRegistry.plainLock) := by
    rw [HostRegistry.remove, runOn_bind_ok hfind, runOn_bind_ok (HostsFile.runOn_lock hk)]
    exact runOn_bind_error (HostsFile.runOn_readLines_garbled hlocked hdecode) _
  have hrun : runOn removal.run (.resting (flat garbled)) = (.error (.failure (.io .notText)),
      (Machine.resting (flat garbled)).locked HostRegistry.plainLock) := by
    have hload : runOn (Config.loadOrDefault none) (.resting (flat garbled)) =
        (.ok {}, .resting (flat garbled)) := rfl
    rw [removal, Invocation.run, runOn_bind_ok hload, Command.run, runOn_bind_ok (runOn_get _)]
    simp only [Config.hostsFilePath, Option.getD_some, Machine.resting, hexpand]
    exact hremove
  obtain ⟨hprinted, hremains⟩ := Invocation.remains_of_error hrun
  refine ⟨_, hrun, hprinted, hremains.imp id ?_⟩
  rintro ⟨command, config, path, k, -, -, -, hpath, hk', -, halike⟩
  obtain rfl : "hosts".toList = path := Except.ok.inj (hexpand.symm.trans hpath)
  obtain rfl := Opens.unique hk hk'
  exact halike

end CommandLine
end HostKit
