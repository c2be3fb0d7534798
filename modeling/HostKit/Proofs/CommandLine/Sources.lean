import HostKit.CommandLine.Run
import HostKit.Proofs.Config.PathVariables

/-!
# Where the options of a remote command come from

Each option of a connection has a row of sources: what the command line gives, what is configured,
and what holds otherwise. The highest source that gives a value decides, so nothing below it
matters. The authentication has one row for all its kinds, and only the path of the key that is
decided on is expanded. Expanding reads the environment once more, and this is the one way in which
a variable still counts that has been overridden as the user.
-/

namespace HostKit.CommandLine

/-- The sources of a value, the highest one first. -/
abbrev Sources (α : Type) := List (Option α)

namespace Sources

variable {α : Type} {sources sources' : Sources α}

/-- The value that counts: that of the highest source that gives one. -/
def value? (sources : Sources α) : Option α := sources.findSome? id

/-- Sources that differ in nothing but values that a higher source overrides. -/
inductive Alike : Sources α → Sources α → Prop
  | nil : Alike [] []
  | given (a : α) (lower lower' : Sources α) : Alike (some a :: lower) (some a :: lower')
  | missing {lower lower' : Sources α} : Alike lower lower' → Alike (none :: lower) (none :: lower')

/-- Values that are overridden do not count. -/
theorem Alike.value?_eq (h : Alike sources sources') : sources'.value? = sources.value? := by
  induction h with
  | nil => rfl
  | given a lower lower' => rfl
  | missing _ ih => exact ih

/-- Sources are alike to themselves. -/
theorem Alike.refl (sources : Sources α) : Alike sources sources := by
  induction sources with
  | nil => exact .nil
  | cons source lower ih =>
    cases source with
    | none => exact .missing ih
    | some a => exact .given a lower lower

/-- Above a default the first of two sources counts before the second. -/
theorem value?_default (first second : Option α) (default : α) :
    value? [first, second, some default] = some ((first <|> second).getD default) := by
  cases first with
  | some a => rfl
  | none => cases second <;> rfl

/-- No value counts exactly if no source gives one. -/
theorem value?_eq_none_iff : sources.value? = none ↔ ∀ source ∈ sources, source = none := by
  rw [value?, List.findSome?_eq_none_iff]
  rfl

end Sources

namespace RemoteCommand

variable {command command' : RemoteCommand} {ssh ssh' : SshConfig}
variable {environment environment' : Environment} {options : ConnectionOptions}

/-! ## The sources -/

/-- The sources of the user. -/
def users (command : RemoteCommand) (ssh : SshConfig) (environment : Environment) : Sources Text :=
  [command.user, ssh.user, environment.value? userVariable]

/-- The sources of the port. -/
def ports (command : RemoteCommand) (ssh : SshConfig) : Sources Nat :=
  [command.port, ssh.port, some 22]

/-- The sources of the time that connecting may take. -/
def connectTimeouts (command : RemoteCommand) (ssh : SshConfig) : Sources Duration :=
  [command.connectTimeout.map Duration.ofSeconds, ssh.connectTimeoutSecs.map Duration.ofSeconds,
    some (Duration.ofSeconds 10)]

/-- The sources of the authentication, with the paths of keys as they are given. -/
def credentials (command : RemoteCommand) (ssh : SshConfig) : Sources Auth :=
  [command.password.map .password, command.keyFile.map (.keyFile · command.passphrase),
    ssh.keyFile.map (.keyFile · command.passphrase), some .agent]

/-- An authentication with the path of its key expanded. -/
def expanded (environment : Environment) : Auth → Except Failure Auth
  | .keyFile path passphrase =>
    (Config.expandPath environment path).map fun path => .keyFile path passphrase
  | auth => .ok auth

/-- The user is the one that counts, and there has to be one. -/
theorem resolveUser_eq (command : RemoteCommand) (ssh : SshConfig) (environment : Environment) :
    command.resolveUser ssh environment =
      match (users command ssh environment).value? with
      | some user => .ok user
      | none => .error noUser := by
  unfold resolveUser users
  cases command.user with
  | some user => rfl
  | none =>
    cases ssh.user with
    | some user => rfl
    | none => cases environment.value? userVariable <;> rfl

/-- The authentication is the one that counts, expanded. -/
theorem exists_credentials (command : RemoteCommand) (ssh : SshConfig) (environment : Environment) :
    ∃ auth, (credentials command ssh).value? = some auth ∧
      command.resolveAuth ssh environment = expanded environment auth := by
  unfold resolveAuth credentials
  cases command.password with
  | some password => exact ⟨.password password, rfl, rfl⟩
  | none =>
    cases command.keyFile with
    | some path => exact ⟨.keyFile path command.passphrase, rfl, rfl⟩
    | none =>
      cases ssh.keyFile with
      | some path => exact ⟨.keyFile path command.passphrase, rfl, rfl⟩
      | none => exact ⟨.agent, rfl, rfl⟩

/-- Of the port, the time for connecting and the authentication there is always one that counts, so
the options are those with the user that counts, unless there is none or the authentication does not
expand. -/
theorem exists_choices (command : RemoteCommand) (ssh : SshConfig) (environment : Environment) :
    ∃ port connectTimeout auth, (ports command ssh).value? = some port ∧
      (connectTimeouts command ssh).value? = some connectTimeout ∧
      (credentials command ssh).value? = some auth ∧
      command.connectionOptions ssh environment =
        match (users command ssh environment).value? with
        | none => .error noUser
        | some user => (expanded environment auth).map fun auth =>
          ⟨command.host, user, port, auth, connectTimeout⟩ := by
  obtain ⟨auth, hauth, hresolve⟩ := exists_credentials command ssh environment
  have hmap : (command.connectTimeout.map Duration.ofSeconds <|>
      ssh.connectTimeoutSecs.map Duration.ofSeconds) =
        (command.connectTimeout <|> ssh.connectTimeoutSecs).map Duration.ofSeconds := by
    cases command.connectTimeout <;> rfl
  refine ⟨_, _, auth, Sources.value?_default _ _ _, Sources.value?_default _ _ _, hauth, ?_⟩
  rw [connectionOptions, resolveUser_eq, hresolve, hmap]
  cases (users command ssh environment).value? with
  | none => rfl
  | some user => cases expanded environment auth <;> rfl

/-! ## What counts -/

/-- Options in which each value is the one that counts, the authentication with its path
expanded. -/
structure IsMerged (command : RemoteCommand) (ssh : SshConfig) (environment : Environment)
    (options : ConnectionOptions) : Prop where
  host : options.host = command.host
  user : (users command ssh environment).value? = some options.user
  port : (ports command ssh).value? = some options.port
  connectTimeout : (connectTimeouts command ssh).value? = some options.connectTimeout
  auth : ∃ auth, (credentials command ssh).value? = some auth ∧
    expanded environment auth = .ok options.auth

/-- The options of a connection are those in which each value is the one that counts. -/
theorem connectionOptions_eq_ok_iff :
    command.connectionOptions ssh environment = .ok options ↔
      IsMerged command ssh environment options := by
  obtain ⟨port, connectTimeout, auth, hport, htimeout, hauth, heq⟩ :=
    exists_choices command ssh environment
  rw [heq]
  constructor
  · intro h
    cases huser : (users command ssh environment).value? with
    | none =>
      rw [huser] at h
      cases h
    | some user =>
      rw [huser] at h
      obtain ⟨auth', hexpanded, rfl⟩ := Success.of_map h
      exact ⟨rfl, huser, hport, htimeout, auth, hauth, hexpanded⟩
  · rintro ⟨hhost, huser, hport', htimeout', auth', hauth', hexpanded⟩
    obtain rfl := Option.some.inj (hauth.symm.trans hauth')
    obtain rfl := Option.some.inj (hport.symm.trans hport')
    obtain rfl := Option.some.inj (htimeout.symm.trans htimeout')
    rw [huser, hexpanded, ← hhost]
    rfl

/-- There is no user exactly if no source gives one. -/
theorem users_eq_none_iff : (users command ssh environment).value? = none ↔
    command.user = none ∧ ssh.user = none ∧ environment.value? userVariable = none := by
  rw [Sources.value?_eq_none_iff, users, List.forall_mem_cons, List.forall_mem_cons,
    List.forall_mem_singleton]

/-- The key that the authentication is by does not expand. -/
def KeyFails (command : RemoteCommand) (ssh : SshConfig) (environment : Environment) : Prop :=
  ∃ path passphrase failure, (credentials command ssh).value? = some (.keyFile path passphrase) ∧
    Config.expandPath environment path = .error failure

/-- Only the path of a key can keep an authentication from being expanded, and this is an argument
that is refused. -/
theorem of_expanded_eq_error {auth : Auth} {failure : Failure}
    (h : expanded environment auth = .error failure) :
    (∃ path passphrase failure, auth = .keyFile path passphrase ∧
      Config.expandPath environment path = .error failure) ∧
      ∃ message, failure = .invalidArgument message := by
  cases auth with
  | agent => cases h
  | password password => cases h
  | keyFile path passphrase =>
    have hpath := Success.map_eq_error_iff.mp h
    exact ⟨⟨path, passphrase, failure, rfl, hpath⟩, Config.of_expandPath_eq_error hpath⟩

/-- There are no options if there is no user or the key fails, and what is refused then is an
argument. -/
theorem of_connectionOptions_eq_error {failure : Failure}
    (h : command.connectionOptions ssh environment = .error failure) :
    ((users command ssh environment).value? = none ∨ KeyFails command ssh environment) ∧
      ∃ message, failure = .invalidArgument message := by
  obtain ⟨port, connectTimeout, auth, -, -, hauth, heq⟩ := exists_choices command ssh environment
  rw [heq] at h
  cases huser : (users command ssh environment).value? with
  | none =>
    rw [huser] at h
    exact ⟨.inl rfl, _, (Except.error.inj h).symm⟩
  | some user =>
    rw [huser] at h
    obtain ⟨⟨path, passphrase, cause, rfl, hpath⟩, hargument⟩ :=
      of_expanded_eq_error (Success.map_eq_error_iff.mp h)
    exact ⟨.inr ⟨path, passphrase, cause, hauth, hpath⟩, hargument⟩

/-- Without a user, or with a key that fails, there are no options. -/
theorem exists_failure_of_missing
    (h : (users command ssh environment).value? = none ∨ KeyFails command ssh environment) :
    ∃ failure, command.connectionOptions ssh environment = .error failure := by
  cases hoptions : command.connectionOptions ssh environment with
  | error failure => exact ⟨failure, rfl⟩
  | ok options =>
    have hmerged := connectionOptions_eq_ok_iff.mp hoptions
    rcases h with huser | ⟨path, passphrase, failure, hkey, hpath⟩
    · cases huser.symm.trans hmerged.user
    · obtain ⟨auth, hauth, hexpanded⟩ := hmerged.auth
      obtain rfl := Option.some.inj (hkey.symm.trans hauth)
      rw [expanded, hpath] at hexpanded
      cases hexpanded

/-! ## What does not count -/

/-- Commands with their configurations and environments that differ in nothing but what a higher
source overrides. The environments agree on what the path of a key is expanded with, if there is a
key to authenticate by, and may differ in all else. -/
structure SameChoices (command : RemoteCommand) (ssh : SshConfig) (environment : Environment)
    (command' : RemoteCommand) (ssh' : SshConfig) (environment' : Environment) : Prop where
  host : command'.host = command.host
  users : Sources.Alike (users command ssh environment) (users command' ssh' environment')
  ports : Sources.Alike (ports command ssh) (ports command' ssh')
  connectTimeouts : Sources.Alike (connectTimeouts command ssh) (connectTimeouts command' ssh')
  credentials : Sources.Alike (credentials command ssh) (credentials command' ssh')
  lookups : ∀ path passphrase, (RemoteCommand.credentials command ssh).value? =
    some (.keyFile path passphrase) → (∀ name ∈ Expand.homeVariable :: Expand.namesIn path,
      environment'.value? name = environment.value? name) ∧
        environment'.userHome = environment.userHome

/-- What is overridden does not change the options of a connection, nor whether there are any. -/
theorem SameChoices.connectionOptions_eq
    (h : SameChoices command ssh environment command' ssh' environment') :
    command'.connectionOptions ssh' environment' = command.connectionOptions ssh environment := by
  obtain ⟨port, connectTimeout, auth, hport, htimeout, hauth, heq⟩ :=
    exists_choices command ssh environment
  obtain ⟨port', connectTimeout', auth', hport', htimeout', hauth', heq'⟩ :=
    exists_choices command' ssh' environment'
  rw [h.ports.value?_eq, hport] at hport'
  rw [h.connectTimeouts.value?_eq, htimeout] at htimeout'
  rw [h.credentials.value?_eq, hauth] at hauth'
  obtain rfl := Option.some.inj hport'
  obtain rfl := Option.some.inj htimeout'
  obtain rfl := Option.some.inj hauth'
  have hexpanded : expanded environment' auth = expanded environment auth := by
    cases auth with
    | agent => rfl
    | password password => rfl
    | keyFile path passphrase =>
      obtain ⟨hnames, huser⟩ := h.lookups path passphrase hauth
      rw [expanded, expanded, Config.expandPath_congr hnames huser]
  rw [heq, heq', h.users.value?_eq, hexpanded, h.host]

/-- A user that has been overridden is one more variable of the environment, which counts for the
path of a key that names it, and for nothing else. -/
theorem sameChoices_of_user {other : Environment}
    (hother : ∀ name, name ≠ userVariable → other.value? name = environment.value? name)
    (hhome : other.userHome = environment.userHome)
    (huser : command.user ≠ none ∨ ssh.user ≠ none)
    (hnames : ∀ path passphrase, (credentials command ssh).value? =
      some (.keyFile path passphrase) → userVariable ∉ Expand.namesIn path) :
    SameChoices command ssh environment command ssh other where
  host := rfl
  users := by
    unfold RemoteCommand.users
    cases hcommand : command.user with
    | some user => exact .given user _ _
    | none =>
      cases hssh : ssh.user with
      | some user => exact .missing (.given user _ _)
      | none => exact absurd huser (by simp [hcommand, hssh])
  ports := .refl _
  connectTimeouts := .refl _
  credentials := .refl _
  lookups := by
    intro path passphrase hkey
    refine ⟨fun name hname => hother name ?_, hhome⟩
    rintro rfl
    rcases List.mem_cons.mp hname with hhome | hname
    · exact absurd hhome (by decide)
    · exact hnames path passphrase hkey hname

/-- The options of a connection take each value from the highest source that gives it: the user
from the command line, the configuration or the environment, the port and the time for connecting
from the first two of these or the defaults, and the authentication by the password, the key that is
given, the key that is configured, or the agent, with the path of the key expanded. There are none
exactly if nobody is found as the user or the path of the key that is decided on does not expand,
and what is refused then is an argument. Nothing that is overridden changes the outcome, be it
options or a failure, with one exception: the variable of a user that is overridden still counts
where the path of the key names it. -/
theorem connectionOptions_merged (command : RemoteCommand) (ssh : SshConfig)
    (environment : Environment) :
    (∀ options, command.connectionOptions ssh environment = .ok options ↔
      IsMerged command ssh environment options) ∧
    ((∃ failure, command.connectionOptions ssh environment = .error failure) ↔
      (command.user = none ∧ ssh.user = none ∧ environment.value? userVariable = none) ∨
        KeyFails command ssh environment) ∧
    (∀ failure, command.connectionOptions ssh environment = .error failure →
      ∃ message, failure = .invalidArgument message) ∧
    (∀ command' ssh' environment',
      SameChoices command ssh environment command' ssh' environment' →
        command'.connectionOptions ssh' environment' =
          command.connectionOptions ssh environment) ∧
    ∀ other : Environment,
      (∀ name, name ≠ userVariable → other.value? name = environment.value? name) →
      other.userHome = environment.userHome → command.user ≠ none ∨ ssh.user ≠ none →
      (∀ path passphrase, (credentials command ssh).value? = some (.keyFile path passphrase) →
        userVariable ∉ Expand.namesIn path) →
      command.connectionOptions ssh other = command.connectionOptions ssh environment := by
  refine ⟨fun options => connectionOptions_eq_ok_iff, ?_, ?_, ?_, ?_⟩
  · rw [← users_eq_none_iff]
    constructor
    · rintro ⟨failure, h⟩
      exact (of_connectionOptions_eq_error h).1
    · exact exists_failure_of_missing
  · exact fun failure h => (of_connectionOptions_eq_error h).2
  · exact fun command' ssh' environment' h => h.connectionOptions_eq
  · exact fun other hother hhome huser hnames =>
      (sameChoices_of_user hother hhome huser hnames).connectionOptions_eq

/-- A path of a key with the user's variable in it. -/
def userKey : Text := "$\x7bUSER\x7d/key"

/-- Before the rest of the path stands what the user's variable is looked up as. -/
theorem variablesIn_userKey (environment : Environment) :
    Expand.variablesIn environment userKey =
      (do
        let value ← Expand.lookup environment userVariable none
        .ok (value ++ "/key")) := by
  have hsplit : Text.splitFirst? '\x7d' "USER\x7d/key" =
    some (userVariable, ("/key" : Text)) := rfl
  have hplain : Expand.variablesIn environment "/key" = .ok "/key" :=
    Expand.variablesIn_of_not_mem (by decide)
  refine (Expand.variablesIn_braces hsplit).trans ?_
  rw [hplain]
  rfl

/-- A command for a given user, with a key whose path has the user's variable in it. -/
def keyed : RemoteCommand where
  host := "box"
  user := some "me"
  port := none
  keyFile := some userKey
  passphrase := none
  password := none
  connectTimeout := none
  timeout := none
  warn := false
  hide := false
  environment := []
  words := ["true"]

/-- An environment in which the user's variable alone is set. -/
def withUser (user : Text) : Environment := { assignments := [("USER", user)] }

/-- The user's variable counts for the path of a key, even though the user that is given overrides
it: another value of the variable is another key, and without one there are no options. -/
theorem overridden_user_counts :
    Sources.Alike (users keyed {} (withUser "a")) (users keyed {} (withUser "b")) ∧
      Sources.Alike (users keyed {} (withUser "a")) (users keyed {} {}) ∧
      keyed.connectionOptions {} (withUser "a") =
        .ok { host := "box", user := "me", auth := .keyFile "a/key" none } ∧
      keyed.connectionOptions {} (withUser "b") =
        .ok { host := "box", user := "me", auth := .keyFile "b/key" none } ∧
      keyed.connectionOptions {} {} =
        .error (.invalidArgument (Expand.Unset.message ⟨userVariable⟩)) := by
  have hfirst : expanded (withUser "a") (.keyFile userKey none) = .ok (.keyFile "a/key" none) := by
    rw [expanded, Config.expandPath, Expand.path, variablesIn_userKey]
    rfl
  have hsecond : expanded (withUser "b") (.keyFile userKey none) =
      .ok (.keyFile "b/key" none) := by
    rw [expanded, Config.expandPath, Expand.path, variablesIn_userKey]
    rfl
  have hmissing : Config.expandPath {} userKey =
      .error (.invalidArgument (Expand.Unset.message ⟨userVariable⟩)) := by
    rw [Config.expandPath, Expand.path, variablesIn_userKey]
    rfl
  refine ⟨.given _ _ _, .given _ _ _, ?_, ?_, ?_⟩
  · exact connectionOptions_eq_ok_iff.mpr ⟨rfl, rfl, rfl, rfl, _, rfl, hfirst⟩
  · exact connectionOptions_eq_ok_iff.mpr ⟨rfl, rfl, rfl, rfl, _, rfl, hsecond⟩
  · have hauth : keyed.resolveAuth {} {} =
        (Config.expandPath {} userKey).map (.keyFile · none) := rfl
    rw [connectionOptions, hauth, hmissing]
    rfl

end RemoteCommand
end HostKit.CommandLine
