import HostKit.CommandLine.Command
import HostKit.CommandLine.Words
import HostKit.Environment
import HostKit.Word

/-!
# The grammar of the command line

A word names the command, and for the hosts file a second one what to do with it. The flags
for the configuration and the hosts file may stand at each of these places; the one furthest
to the right counts. A password and a passphrase may come from the environment. Of two
arguments that exclude each other, a conflict is found before a missing argument.
-/

namespace HostKit.CommandLine

/-- The variable that a password may come from. -/
def passwordVariable : Text := "HOSTBELT_SSH_PASSWORD"

/-- The variable that a passphrase may come from. -/
def passphraseVariable : Text := "HOSTBELT_SSH_PASSPHRASE"

/-- The flags that every command has. -/
def commonFlags : List Flag :=
  [{ name := "config", letter := some 'c', effect := .once .path },
   { name := "hosts-file", effect := .once .text },
   { name := "help", letter := some 'h', effect := .ends .help }]

/-- The flag for the version. -/
def versionFlag : Flag := { name := "version", letter := some 'V', effect := .ends .version }

/-- The name of the command that shows help. -/
def helpName : Text := "help"

/-- The invocation of a command with what has been given for the flags that every command
has. -/
def invocation (given : Given) (command : Command) : Invocation :=
  ⟨given.text? "config", given.text? "hosts-file", command⟩

/-- The invocation with flags of the command above it, unless it has them itself. -/
def Invocation.withOuter (outer : Given) (invocation : Invocation) : Invocation :=
  { invocation with
    configPath := invocation.configPath <|> outer.text? "config"
    hostsFile := invocation.hostsFile <|> outer.text? "hosts-file" }

/-- The invocation that the words of a command with no command below it make up. -/
def parseLeaf (flags : List Flag) (operands : List Operand)
    (build : Given → Except UsageError Command) (words : List Text) :
    Except UsageError Invocation := do
  let level : Level := { flags := flags ++ commonFlags, operands }
  let (progress, _) ← takeWords level words .start
  let progress ← progress.settle
  let command ← build progress.given
  .ok (invocation progress.given command)

/-- The invocation that the words of a command make up that has others below it. What is wrong
further down is found first. -/
def parseGroup (flags : List Flag) (names : List Text) (showHelp : List Text → UsageError)
    (parseBelow : Text → List Text → Except UsageError Invocation) (words : List Text) :
    Except UsageError Invocation := do
  let level : Level := { flags := flags ++ commonFlags, subcommands := names ++ [helpName] }
  let (progress, descent) ← takeWords level words .start
  match descent with
  | some (name, rest) =>
    if name = helpName then .error (showHelp rest)
    else do
      let below ← parseBelow name rest
      let progress ← progress.settle
      .ok (below.withOuter progress.given)
  | none => do
    let progress ← progress.settle
    .error (if progress.given = [] then .nothingGiven else .missingSubcommand)

/-! ## Commands on the hosts file -/

/-- The operand of an address. -/
def ipOperand : Operand := { name := "ip" }

/-- The operand of a host name. -/
def hostnameOperand : Operand := { name := "hostname" }

/-- The name of the style of a table when none is given. -/
def defaultStyle : Text := "ascii"

/-- A command on the hosts file that takes an address. -/
def parseWithIp (make : Text → HostsCommand) : List Text → Except UsageError Invocation :=
  parseLeaf [] [ipOperand] fun given => do .ok (.hosts (make (← given.require "ip")))

/-- A command on the hosts file that takes an address and a host name. -/
def parseWithEntry (make : Text → Text → HostsCommand) :
    List Text → Except UsageError Invocation :=
  parseLeaf [] [ipOperand, hostnameOperand] fun given => do
    .ok (.hosts (make (← given.require "ip") (← given.require "hostname")))

/-- The commands on the hosts file. -/
def hostsCommands : List (Text × (List Text → Except UsageError Invocation)) :=
  [("exists", parseWithIp .exists), ("get", parseWithIp .get), ("add", parseWithEntry .add),
   ("remove", parseWithIp .remove), ("set", parseWithEntry .set),
   ("list", parseLeaf [{ name := "style", effect := .once .text }] [] fun given =>
      .ok (.hosts (.list ((given.text? "style").getD defaultStyle))))]

/-- The names of the commands on the hosts file. -/
def hostsNames : List Text := hostsCommands.map Prod.fst

/-- The answer to a request for help on a command below the one for the hosts file. -/
def showHostsHelp : List Text → UsageError
  | [] => .help
  | [name] => if name.isOneOf (helpName :: hostsNames) then .help else .invalidSubcommand
  | _ => .invalidSubcommand

/-- The invocation of the command of that name in a list. -/
def parseFrom (commands : List (Text × (List Text → Except UsageError Invocation)))
    (name : Text) (words : List Text) : Except UsageError Invocation :=
  match commands.lookup name with
  | some parse => parse words
  | none => .error .invalidSubcommand

/-- A command on the hosts file. -/
def parseHosts : List Text → Except UsageError Invocation :=
  parseGroup [] hostsNames showHostsHelp (parseFrom hostsCommands)

/-! ## Codecs -/

/-- The names of the text codecs. -/
def textCodecs : List (Text × TextCodec) := [("base64", .base64), ("b64hex", .base64Hex)]

/-- The names of the compression codecs. -/
def compressionCodecs : List (Text × CompressionCodec) := [("lz4", .lz4), ("zlib", .zlib)]

/-- The flag for a codec out of a list. -/
def codecFlag {α : Type} (codecs : List (Text × α)) : Flag :=
  { name := "codec", effect := .once (.choice (codecs.map Prod.fst)) }

/-- The codec out of a list that has been given, if there is one. -/
def codec? {α : Type} (codecs : List (Text × α)) (given : Given) : Option α := do
  codecs.lookup (← given.text? "codec")

/-- The input of a text codec: a text or a file, and not both. -/
def textInput (given : Given) : Except UsageError TextInput :=
  match given.text? "text", given.text? "file" with
  | some _, some _ => .error .argumentConflict
  | some text, none => .ok (.inline text)
  | none, some path => .ok (.file path)
  | none, none => .error .missingRequiredArgument

/-- A command that reads text or a file. -/
def parseText (make : TextCodec → TextInput → Command) :
    List Text → Except UsageError Invocation :=
  parseLeaf
    [codecFlag textCodecs, { name := "file", letter := some 'f', effect := .once .path }]
    [{ name := "text" }]
    fun given => do .ok (make ((codec? textCodecs given).getD .base64) (← textInput given))

/-- A command that reads one file and writes another one. -/
def parseFiles (make : CompressionCodec → Text → Text → Command) :
    List Text → Except UsageError Invocation :=
  parseLeaf
    [codecFlag compressionCodecs,
     { name := "input", letter := some 'i', effect := .once .path },
     { name := "output", letter := some 'o', effect := .once .path }]
    []
    fun given => do
      let codec := (codec? compressionCodecs given).getD .zlib
      .ok (make codec (← given.require "input") (← given.require "output"))

/-- The command that normalises a document. -/
def parseYaml : List Text → Except UsageError Invocation :=
  parseLeaf [] [{ name := "file", kind := .path }]
    fun given => do .ok (.yaml (← given.require "file"))

/-- The radix of a number when none is given. -/
def defaultFromRadix : Nat := 10

/-- The radix to write a number in when none is given. -/
def defaultToRadix : Nat := 16

/-- The command that writes a number in another radix. -/
def parseInt : List Text → Except UsageError Invocation :=
  let radix : Effect := .once (.number (Word.largest 32) true)
  parseLeaf [{ name := "from", effect := radix }, { name := "to", effect := radix }]
    [{ name := "value", takesHyphens := true }]
    fun given => do
      .ok (.int (← given.require "value") ((given.number? "from").getD defaultFromRadix)
        ((given.number? "to").getD defaultToRadix))

/-- The command that draws a table. -/
def parseTable : List Text → Except UsageError Invocation :=
  parseLeaf
    [{ name := "title", letter := some 't', effect := .once .text },
     { name := "style", letter := some 's', effect := .once .text },
     { name := "row", letter := some 'r', effect := .repeated .text }]
    []
    fun given =>
      let rows := given.texts "row"
      if rows = [] then .error .missingRequiredArgument
      else .ok (.table (given.text? "title") ((given.text? "style").getD defaultStyle) rows)

/-! ## Remote commands -/

/-- The flags of a remote command. -/
def remoteFlags : List Flag :=
  let seconds : Effect := .once (.number (Word.largest 64) false)
  [{ name := "host", letter := some 'H', effect := .once .text },
   { name := "user", letter := some 'u', effect := .once .text },
   { name := "port", letter := some 'p', effect := .once (.number (Word.largest 16) true) },
   { name := "key", letter := some 'k', effect := .once .text },
   { name := "passphrase", effect := .once .text },
   { name := "password", effect := .once .text },
   { name := "connect-timeout", effect := seconds },
   { name := "timeout", effect := seconds },
   { name := "warn", effect := .switch },
   { name := "hide", effect := .switch },
   { name := "env", letter := some 'e', effect := .repeated .assignment }]

/-- The remote command that has been given. -/
def remoteCommand (environment : Environment) (given : Given) : Except UsageError Command := do
  let password := given.text? "password" <|> environment.value? passwordVariable
  let keyFile := given.text? "key"
  if keyFile.isSome && password.isSome then .error .argumentConflict
  else do
    let host ← given.require "host"
    let words := given.texts "command"
    if words = [] then .error .missingRequiredArgument
    else
      .ok (.exec {
        host
        user := given.text? "user"
        port := given.number? "port"
        keyFile
        passphrase := given.text? "passphrase" <|> environment.value? passphraseVariable
        password
        connectTimeout := given.number? "connect-timeout"
        timeout := given.number? "timeout"
        warn := given.has "warn"
        hide := given.has "hide"
        environment := given.assignments "env"
        words })

/-- The command that runs a remote one. -/
def parseExec (environment : Environment) : List Text → Except UsageError Invocation :=
  parseLeaf remoteFlags [{ name := "command", takesHyphens := true, takesRest := true }]
    (remoteCommand environment)

/-! ## All commands -/

/-- All commands. -/
def commands (environment : Environment) :
    List (Text × (List Text → Except UsageError Invocation)) :=
  [("hosts", parseHosts), ("encode", parseText .encode), ("decode", parseText .decode),
   ("compress", parseFiles .compress), ("decompress", parseFiles .decompress),
   ("yaml", parseYaml), ("int", parseInt), ("table", parseTable), ("exec", parseExec environment)]

/-- The names of all commands. -/
def commandNames (environment : Environment) : List Text := (commands environment).map Prod.fst

/-- The answer to a request for help on a command. -/
def showHelp (environment : Environment) : List Text → UsageError
  | [] => .help
  | [name] =>
    if name.isOneOf (helpName :: commandNames environment) then .help else .invalidSubcommand
  | name :: rest => if name = "hosts".toList then showHostsHelp rest else .invalidSubcommand

/-- The invocation that the words of a command line make up, without the name of the
program. -/
def parse (environment : Environment) : List Text → Except UsageError Invocation :=
  parseGroup [versionFlag] (commandNames environment) (showHelp environment)
    (parseFrom (commands environment))

end HostKit.CommandLine
