import HostKit.Codec.Radix
import HostKit.CommandLine.Command
import HostKit.Config.Basic
import HostKit.Hosts.Registry
import HostKit.Remote.Connection
import HostKit.Table
import HostKit.Yaml.Load
import HostKit.Yaml.Print

/-!
# Running commands

The configuration is loaded first, and a hosts file on the command line takes the place of the
one in it. Then the command runs. What a remote command does not say itself is taken from the
configuration, and the user in the end from the environment. A command prints only when
nothing can go wrong any more.
-/

namespace HostKit.CommandLine

/-- Print a text without a line feed after it. -/
def printText (text : Text) : Action Unit := Action.print (Utf8.encode text)

/-- The content of a file. -/
def readFile (path : Text) : Action Bytes := Action.look (·.read path)

/-- Data as text. -/
def decodeUtf8 (data : Bytes) : Action Text :=
  Action.ofExcept ((Utf8.decode data).mapError fun error => .codec "utf8" error.message)

/-! ## The hosts file -/

/-- The heads of the columns of the table of all entries. -/
def entriesHeader : List Text := ["ip", "hostname"]

/-- The rows of the table of all entries. -/
def entryRows (entries : List HostEntry) : List (List Text) :=
  entriesHeader :: entries.map fun entry => [entry.ip, entry.hostname]

/-- Run a command on the hosts file. -/
def HostsCommand.run (command : HostsCommand) (registry : HostRegistry) : Action Unit :=
  match command with
  | .exists ip => do
    if ← registry.contains ip then Action.printLine ip else Action.fail (.entryNotFound ip)
  | .get ip => do
    match ← registry.hostname? ip with
    | some hostname => Action.printLine hostname
    | none => Action.fail (.entryNotFound ip)
  | .add ip hostname => registry.add ip hostname
  | .remove ip => registry.remove ip
  | .set ip hostname => registry.set ip hostname
  | .list style => do
    let style ← Action.ofExcept (Table.Style.ofName style)
    let entries ← registry.entries
    Action.printLine (Table.render (some registry.path) (entryRows entries) style)

/-! ## Codecs -/

/-- The input of a text codec as data. -/
def TextInput.read : TextInput → Action Bytes
  | .inline text => pure (Utf8.encode text)
  | .file path => readFile path

/-- Compress a file into another one. -/
def compressFile (codec : CompressionCodec) (input output : Text) : Action Unit := do
  let data ← readFile input
  let packed ← Action.ofExcept (codec.compress (← get).encoders data)
  Action.writeFile output packed
  Action.log .info ("Compressed " ++ input ++ " (" ++ Text.ofNat data.length ++ " bytes) into "
    ++ output ++ " (" ++ Text.ofNat packed.length ++ " bytes)")

/-- Decompress a file into another one. -/
def decompressFile (codec : CompressionCodec) (input output : Text) : Action Unit := do
  let packed ← readFile input
  let data ← Action.ofExcept (codec.decompress packed)
  Action.writeFile output data
  Action.log .info ("Decompressed " ++ input ++ " into " ++ output ++ " ("
    ++ Text.ofNat data.length ++ " bytes)")

/-- The normal form of a document. -/
def normalizeYaml (document : Text) : Except Failure Text := do
  let value ← (Yaml.load document).mapError Yaml.Error.toFailure
  (Yaml.dump value).mapError Yaml.Error.toFailure

/-- The integer that a text stands for in one radix, written in another one. -/
def convertRadix (value : Text) (fromRadix toRadix : Nat) : Except Failure Text := do
  let n ← (Radix.parse value fromRadix).mapError Radix.Error.toFailure
  (Radix.render n toRadix).mapError Radix.Error.toFailure

/-! ## Tables -/

/-- The cells of a row, without the blanks around them. -/
def splitCells (row : Text) : List Text := (Text.splitOn ',' row).map Text.trim

/-! ## Remote commands -/

namespace RemoteCommand

/-- The failure of a command for which no user is found. -/
def noUser : Failure := .invalidArgument "no remote user given and $USER unset"

/-- The variable that the user may come from. -/
def userVariable : Text := "USER"

/-- Who the user is on the other host: the one given, the one configured, or the one who runs
the command. -/
def resolveUser (command : RemoteCommand) (ssh : SshConfig) (environment : Environment) :
    Except Failure Text :=
  match command.user <|> ssh.user <|> environment.value? userVariable with
  | some user => .ok user
  | none => .error noUser

/-- How the user proves who they are: by the password if there is one, by the key given or
configured, or by the agent. -/
def resolveAuth (command : RemoteCommand) (ssh : SshConfig) (environment : Environment) :
    Except Failure Auth :=
  match command.password, command.keyFile <|> ssh.keyFile with
  | some password, _ => .ok (.password password)
  | none, some keyFile =>
    (Config.expandPath environment keyFile).map fun path => .keyFile path command.passphrase
  | none, none => .ok .agent

/-- Where to connect and as whom. -/
def connectionOptions (command : RemoteCommand) (ssh : SshConfig)
    (environment : Environment) : Except Failure ConnectionOptions := do
  let user ← command.resolveUser ssh environment
  let auth ← command.resolveAuth ssh environment
  let default : ConnectionOptions := { host := command.host, user }
  .ok { default with
    auth
    port := (command.port <|> ssh.port).getD default.port
    connectTimeout :=
      ((command.connectTimeout <|> ssh.connectTimeoutSecs).map Duration.ofSeconds).getD
        default.connectTimeout }

/-- How to run the command. -/
def commandOptions (command : RemoteCommand) : CommandOptions where
  warn := command.warn
  hide := command.hide
  timeout := command.timeout.map Duration.ofSeconds
  environment := command.environment

/-- The words of the command as one text. -/
def text (command : RemoteCommand) : Text := Text.join " " command.words

/-- Print the output that is not in the log, and warn of a status other than zero. -/
def report (command : RemoteCommand) (output : CommandOutput) : Action Unit := do
  if command.hide then printText output.stdout
  if !output.success then
    Action.log .warn ("\x60" ++ command.text ++ "\x60 exited with status "
      ++ Text.ofInt output.status)

/-- Run the command on the other host. -/
def run (command : RemoteCommand) (ssh : SshConfig) : Action Unit := do
  let options ← Action.ofExcept (command.connectionOptions ssh (← get).environment)
  let output ← Remote.run command.text command.commandOptions options
  command.report output

end RemoteCommand

/-! ## All commands -/

/-- Run a command under a configuration. -/
def Command.run (command : Command) (config : Config) : Action Unit :=
  match command with
  | .hosts command => do
    let path ← Action.ofExcept (config.hostsFilePath (← get).environment)
    command.run ⟨path⟩
  | .encode codec input => do Action.printLine (codec.encode (← input.read))
  | .decode codec input => do
    let text ← decodeUtf8 (← input.read)
    let data ← Action.ofExcept (codec.decode text)
    Action.print data
  | .compress codec input output => compressFile codec input output
  | .decompress codec input output => decompressFile codec input output
  | .yaml file => do
    let document ← decodeUtf8 (← readFile file)
    let normal ← Action.ofExcept (normalizeYaml document)
    printText normal
  | .int value fromRadix toRadix => do
    let text ← Action.ofExcept (convertRadix value fromRadix toRadix)
    Action.printLine text
  | .table title style rows => do
    let style ← Action.ofExcept (Table.Style.ofName style)
    Action.printLine (Table.render title (rows.map splitCells) style)
  | .exec command => command.run config.ssh

/-- Load the configuration and run the command. -/
def Invocation.run (invocation : Invocation) : Action Unit := do
  let config ← Config.loadOrDefault invocation.configPath
  let hostsFile := invocation.hostsFile.getD config.hostsFile
  invocation.command.run { config with hostsFile }

end HostKit.CommandLine
