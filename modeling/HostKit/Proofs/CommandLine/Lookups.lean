import HostKit.Proofs.CommandLine.Failures
import HostKit.Proofs.Hosts.Readers

/-!
# Lookups

Each lookup reads the lines anew and scans them in a way of its own. What they have in common is
that reading is all that can fail, and that a line matches an address exactly if the entry on it is
one for that address. So the lookups fail together, or they all tell the same of the entries, and
the commands that print what they find end alike.
-/

namespace HostKit

open HostKit.Action

namespace HostRegistry

open HostsFile

variable {registry : HostRegistry} {machine : Machine} {ip : Text}

/-- Lines are read without changing anything, or there is an input or output error. -/
theorem runOn_readLines_cases (path : Text) (machine : Machine) :
    (∃ e, runOn (readLines path) machine = (.error (.failure (.io e)), machine)) ∨
      ∃ ls, runOn (readLines path) machine = (.ok ls, machine) := by
  rcases hrun : runOn (readLines path) machine with ⟨outcome, after⟩
  obtain rfl : after = machine := (keeps_readLines path).after_eq hrun
  cases outcome with
  | error stop =>
    obtain ⟨e, rfl⟩ := stops_readLines path _ _ _ hrun
    exact .inl ⟨e, rfl⟩
  | ok ls => exact .inr ⟨ls, rfl⟩

/-- The lookups fail together with the same error, or all of them tell of the entries that are
listed: whether one of them is for the address, and the name in the first of those. -/
theorem runOn_lookups (registry : HostRegistry) (ip : Text) (machine : Machine) :
    (∃ e, runOn (registry.contains ip) machine = (.error (.failure (.io e)), machine) ∧
      runOn (registry.hostname? ip) machine = (.error (.failure (.io e)), machine) ∧
      runOn registry.entries machine = (.error (.failure (.io e)), machine)) ∨
    ∃ listed, runOn registry.entries machine = (.ok listed, machine) ∧
      runOn (registry.contains ip) machine =
        (.ok (listed.any fun entry => entry.ip = ip), machine) ∧
      runOn (registry.hostname? ip) machine =
        (.ok ((listed.find? fun entry => entry.ip = ip).map HostEntry.hostname), machine) := by
  rcases runOn_readLines_cases registry.path machine with ⟨e, hread⟩ | ⟨ls, hread⟩
  · exact .inl ⟨e, runOn_bind_error hread _, runOn_bind_error hread _, runOn_bind_error hread _⟩
  · exact .inr ⟨entriesOf ls, runOn_bind_ok hread _, runOn_contains_of_lines hread,
      runOn_bind_ok hread _⟩

end HostRegistry

/-! ## The commands -/

/-- The machine with a line more in its output. -/
def Machine.printing (machine : Machine) (text : Text) : Machine :=
  { machine with printed := machine.printed ++ Utf8.encode (text ++ ['\n']) }

namespace CommandLine

variable {machine : Machine} {registry : HostRegistry} {configPath hostsFile : Option Text}

/-- On the machine the flags for the configuration and for the hosts file lead to the registry. -/
def Names (configPath hostsFile : Option Text) (machine : Machine) (registry : HostRegistry) :
    Prop :=
  ∃ config, runOn (Config.loadOrDefault configPath) machine = (.ok config, machine) ∧
    Config.expandPath machine.environment (hostsFile.getD config.hostsFile) = .ok registry.path

/-- On the machine the flags for the configuration and for the hosts file lead to no registry: the
configuration cannot be loaded, or the path in it cannot be expanded. -/
def NamesNone (configPath hostsFile : Option Text) (machine : Machine) (failure : Failure) : Prop :=
  runOn (Config.loadOrDefault configPath) machine = (.error (.failure failure), machine) ∨
    ∃ config, runOn (Config.loadOrDefault configPath) machine = (.ok config, machine) ∧
      Config.expandPath machine.environment (hostsFile.getD config.hostsFile) = .error failure

/-- A failure that is no lookup without a result. -/
def IsOther (stop : Stop) : Prop :=
  ∃ failure, stop = .failure failure ∧ failure.isEntryNotFound = false

/-- Loading the configuration looks up no entry. -/
theorem stops_loadOrDefault_other (configPath : Option Text) :
    Stops IsOther (Config.loadOrDefault configPath) := by
  cases configPath with
  | none => exact stops_pure _
  | some path =>
    refine (stops_look fun e => ⟨.io e, rfl, rfl⟩).bind fun content => ?_
    cases Utf8.decode content with
    | error e => exact stops_fail ⟨.io .notText, rfl, rfl⟩
    | ok document =>
      refine stops_ofExcept fun failure hfailure => ⟨failure, rfl, ?_⟩
      unfold Config.ofToml at hfailure
      split at hfailure
      · cases hfailure
        rfl
      · obtain ⟨refusal, -, rfl⟩ := Success.of_mapError hfailure
        rfl

/-- A command on the hosts file runs on the registry that is named. -/
theorem Names.runOn_hosts (h : Names configPath hostsFile machine registry)
    (command : HostsCommand) :
    runOn (Invocation.run ⟨configPath, hostsFile, .hosts command⟩) machine =
      runOn (command.run registry) machine := by
  obtain ⟨config, hload, hpath⟩ := h
  rw [Invocation.run, runOn_bind_ok hload, Command.run, runOn_bind_ok (runOn_get _)]
  simp only [Config.hostsFilePath, hpath]
  rfl

/-- The flags lead to a registry, or fail to do so for a reason that is no lookup. -/
theorem names_or_namesNone (configPath hostsFile : Option Text) (machine : Machine) :
    (∃ registry, Names configPath hostsFile machine registry) ∨
      ∃ failure, failure.isEntryNotFound = false ∧
        NamesNone configPath hostsFile machine failure := by
  rcases hload : runOn (Config.loadOrDefault configPath) machine with ⟨outcome, after⟩
  obtain rfl : after = machine := (Config.keeps_loadOrDefault configPath).after_eq hload
  cases outcome with
  | error stop =>
    obtain ⟨failure, rfl, hother⟩ := stops_loadOrDefault_other configPath _ _ _ hload
    exact .inr ⟨failure, hother, .inl hload⟩
  | ok config =>
    cases hpath : Config.expandPath after.environment (hostsFile.getD config.hostsFile) with
    | ok path => exact .inl ⟨⟨path⟩, config, hload, hpath⟩
    | error failure =>
      obtain ⟨unset, -, hfailure⟩ := Success.of_mapError hpath
      exact .inr ⟨failure, by rw [← hfailure]; rfl, .inr ⟨config, hload, hpath⟩⟩

/-- Without a registry all commands on the hosts file fail alike. -/
theorem NamesNone.runOn_hosts {failure : Failure}
    (h : NamesNone configPath hostsFile machine failure) (command : HostsCommand) :
    runOn (Invocation.run ⟨configPath, hostsFile, .hosts command⟩) machine =
      (.error (.failure failure), machine) := by
  rcases h with hload | ⟨config, hload, hpath⟩
  · exact runOn_bind_error hload _
  · rw [Invocation.run, runOn_bind_ok hload, Command.run, runOn_bind_ok (runOn_get _)]
    simp only [Config.hostsFilePath, hpath]
    rfl

/-- The commands for a lookup end as the lookup of the name does: both print a line if there is one,
and both fail alike if there is none or if the lookup fails. -/
theorem runOn_exists_get (registry : HostRegistry) (ip : Text) (machine : Machine) :
    (∃ name, runOn (registry.hostname? ip) machine = (.ok (some name), machine) ∧
      runOn ((HostsCommand.exists ip).run registry) machine = (.ok (), machine.printing ip) ∧
      runOn ((HostsCommand.get ip).run registry) machine = (.ok (), machine.printing name)) ∨
    (runOn (registry.hostname? ip) machine = (.ok none, machine) ∧
      ∀ command ∈ [HostsCommand.exists ip, HostsCommand.get ip],
        runOn (command.run registry) machine = (.error (.failure (.entryNotFound ip)), machine)) ∨
    ∃ e, runOn (registry.hostname? ip) machine = (.error (.failure (.io e)), machine) ∧
      ∀ command ∈ [HostsCommand.exists ip, HostsCommand.get ip],
        runOn (command.run registry) machine = (.error (.failure (.io e)), machine) := by
  simp only [List.mem_cons, List.not_mem_nil, or_false, forall_eq_or_imp, forall_eq]
  rcases registry.runOn_lookups ip machine with
    ⟨e, hcontains, hname, -⟩ | ⟨listed, -, hcontains, hname⟩
  · exact .inr (.inr ⟨e, hname, runOn_bind_error hcontains _, runOn_bind_error hname _⟩)
  rw [← List.isSome_find?] at hcontains
  cases hfind : listed.find? fun entry => entry.ip = ip with
  | none =>
    rw [hfind] at hcontains hname
    exact .inr (.inl ⟨hname, runOn_bind_ok hcontains _, runOn_bind_ok hname _⟩)
  | some entry =>
    rw [hfind] at hcontains hname
    exact .inl ⟨entry.hostname, hname, runOn_bind_ok hcontains _, runOn_bind_ok hname _⟩

/-- The lookups agree: on every machine they fail together with the same error, or an address has an
entry, has a name and is listed all at once, and its name is that of the first entry listed for
it. Under the same configuration the commands for a lookup print the address and this name if there
is one, find no entry if there is none, and fail with the error of the lookups if these fail.
Without a registry both fail for the reason that there is none. -/
theorem lookups_agree (ip : Text) (machine : Machine) :
    (∀ registry : HostRegistry,
      (∃ e, runOn (registry.contains ip) machine = (.error (.failure (.io e)), machine) ∧
        runOn (registry.hostname? ip) machine = (.error (.failure (.io e)), machine) ∧
        runOn registry.entries machine = (.error (.failure (.io e)), machine)) ∨
      ∃ found name? listed, runOn (registry.contains ip) machine = (.ok found, machine) ∧
        runOn (registry.hostname? ip) machine = (.ok name?, machine) ∧
        runOn registry.entries machine = (.ok listed, machine) ∧
        (found = true ↔ name?.isSome = true) ∧
        (name?.isSome = true ↔ ∃ entry ∈ listed, entry.ip = ip) ∧
        name? = (listed.find? fun entry => entry.ip = ip).map HostEntry.hostname) ∧
    ∀ configPath hostsFile : Option Text,
      (∃ registry name, Names configPath hostsFile machine registry ∧
        runOn (registry.hostname? ip) machine = (.ok (some name), machine) ∧
        runOn (Invocation.run ⟨configPath, hostsFile, .hosts (.exists ip)⟩) machine =
          (.ok (), machine.printing ip) ∧
        runOn (Invocation.run ⟨configPath, hostsFile, .hosts (.get ip)⟩) machine =
          (.ok (), machine.printing name)) ∨
      (∃ registry, Names configPath hostsFile machine registry ∧
        runOn (registry.hostname? ip) machine = (.ok none, machine) ∧
        ∀ command ∈ [HostsCommand.exists ip, HostsCommand.get ip],
          runOn (Invocation.run ⟨configPath, hostsFile, .hosts command⟩) machine =
            (.error (.failure (.entryNotFound ip)), machine)) ∨
      (∃ registry e, Names configPath hostsFile machine registry ∧
        runOn (registry.hostname? ip) machine = (.error (.failure (.io e)), machine) ∧
        ∀ command ∈ [HostsCommand.exists ip, HostsCommand.get ip],
          runOn (Invocation.run ⟨configPath, hostsFile, .hosts command⟩) machine =
            (.error (.failure (.io e)), machine)) ∨
      ∃ failure, failure.isEntryNotFound = false ∧
        NamesNone configPath hostsFile machine failure ∧
        ∀ command ∈ [HostsCommand.exists ip, HostsCommand.get ip],
          runOn (Invocation.run ⟨configPath, hostsFile, .hosts command⟩) machine =
            (.error (.failure failure), machine) := by
  refine ⟨fun registry => ?_, fun configPath hostsFile => ?_⟩
  · rcases registry.runOn_lookups ip machine with hfails | ⟨listed, hlisted, hfound, hname⟩
    · exact .inl hfails
    · refine .inr ⟨_, _, listed, hfound, hname, hlisted, ?_, ?_, rfl⟩
      · rw [Option.isSome_map, List.isSome_find?]
      · simp [List.find?_isSome]
  · rcases names_or_namesNone configPath hostsFile machine with
      ⟨registry, hnames⟩ | ⟨failure, hother, hnone⟩
    · simp only [hnames.runOn_hosts]
      rcases runOn_exists_get registry ip machine with
        ⟨name, hname, hexists, hget⟩ | ⟨hname, hfail⟩ | ⟨e, hname, hfail⟩
      · exact .inl ⟨registry, name, hnames, hname, hexists, hget⟩
      · exact .inr (.inl ⟨registry, hnames, hname, hfail⟩)
      · exact .inr (.inr (.inl ⟨registry, e, hnames, hname, hfail⟩))
    · exact .inr (.inr (.inr ⟨failure, hother, hnone, fun command _ => hnone.runOn_hosts command⟩))

end CommandLine
end HostKit
