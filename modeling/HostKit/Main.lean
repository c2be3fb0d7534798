import HostKit.CommandLine.Grammar
import HostKit.CommandLine.Run
import HostKit.Text.Affix

/-!
# The program

The files that a command may touch are read first, the command runs on a machine that holds
them, and the files that it has changed are written back. The log goes to the error output.
There is no transport for sessions here, so a remote command ends as if the network were down and
no name were known.
-/

namespace HostKit.Main

open CommandLine

/-- The text of a file, none if it cannot be read. -/
def readTextFile (path : String) : IO Text := do
  try return Utf8.decodeLossy (← IO.FS.readBinFile path).toList catch _ => return []

/-- What the system says of the process under a heading: the first word after it. -/
def statusOf (heading : Text) : IO Text := do
  let lines := Text.splitOn '\n' (← readTextFile "/proc/self/status")
  let words := lines.filterMap (Text.dropPrefix? (heading ++ [':', '\t']))
  return (words.headD []).takeWhile (· ≠ '\t')

/-- The home directory in the line of a user in the user database, if the line is of that user. -/
def homeIn? (user line : Text) : Option Text :=
  match Text.splitOn ':' line with
  | [_, _, id, _, _, home, _] => if id = user then some home else none
  | _ => none

/-- The environment variables of the process, and the home directory of its user. -/
def readEnvironment : IO Environment := do
  let entries := Text.splitOn '\x00' (← readTextFile "/proc/self/environ")
  let user ← statusOf "Uid"
  let users := Text.splitOn '\n' (← readTextFile "/etc/passwd")
  return { assignments := entries.filterMap (Text.splitFirst? '=')
           userHome := users.findSome? (homeIn? user) }

/-- The error of a host name that stands for no address. -/
def unknownHost : IoError :=
  ⟨.uncategorized, "failed to lookup address information: Name or service not known"⟩

/-- The working directory of the process and the permission bits that its files do not get. -/
def readSetting : IO Setting := do
  let digits ← statusOf "Umask"
  return { workingDirectory := PathText.names (← IO.currentDir).toString.toList
           umask := digits.foldl (fun n c => n * 8 + (c.toNat - '0'.toNat)) 0 }

/-- The place that a path leads to from a directory, links aside. -/
def locationOf (here : Location) (path : Text) : Location :=
  (PathText.names path).foldl
    (fun place name =>
      if name = ".".toList then place
      else if name = "..".toList then place.dropLast
      else place ++ [name])
    (if PathText.isAbsolute path then [] else here)

/-- The name of a place for the operating system. -/
def pathOf (location : Location) : String := String.ofList (Files.absolutePath location)

/-- What is at a place. -/
def readItem? (setting : Setting) (location : Location) : IO (Option Item) := do
  let path := pathOf location
  try
    if ← (← IO.FS.realPath path).isDir then return some (.directory Files.rootMode)
    else return some (.file setting.newFileMode (← IO.FS.readBinFile path).toList)
  catch _ => return none

/-- The files with what is at the places on the way to a location. -/
def fetch (location : Location) (files : Files) : IO Files := do
  let mut files := files
  for length in List.range location.length do
    let place := location.take (length + 1)
    if (files.item? place).isNone then
      match ← readItem? files.setting place with
      | some item => files := files.insert place item
      | none => pure ()
  return files

/-- The paths that a command reads or writes. -/
def pathsOf (command : Command) (config : Config) (environment : Environment) : List Text :=
  match command with
  | .hosts _ =>
    match config.hostsFilePath environment with
    | .ok path => [path, PathText.lockPath path]
    | .error _ => []
  | .encode _ (.file path) | .decode _ (.file path) | .yaml path => [path]
  | .compress _ input output | .decompress _ input output => [input, output]
  | .encode _ (.inline _) | .decode _ (.inline _) | .int _ _ _ | .table _ _ _ | .exec _ => []

/-- Writes the files that a command has changed. -/
def writeBack (before after : Files) : IO Unit := do
  for (location, item) in after.items do
    if before.item? location ≠ some item then
      match item with
      | .file _ content => IO.FS.writeBinFile (pathOf location) ⟨content.toArray⟩
      | _ => pure ()

/-- A line of the log as it is shown. -/
def showRecord (record : LogRecord) : String :=
  let level := match record.level with
    | .info => "INFO"
    | .warn => "WARN"
  "[" ++ level ++ "] " ++ String.ofList record.text

/-- Runs an invocation and says with which status the program ends. -/
def runInvocation (environment : Environment) (invocation : Invocation) : IO UInt32 := do
  let setting ← readSetting
  let here := setting.workingDirectory
  let files ← fetch here ⟨[], setting⟩
  let files ←
    match invocation.configPath with
    | some path => fetch (locationOf here path) files
    | none => pure files
  let machine : Machine :=
    { files, past := [], environment, log := [], printed := [],
      lookup := fun _ => .error unknownHost, network := fun _ => .failsAtOnce (IoError.ofCode 101),
      clock := fun _ => 0, readings := 0, peer := ⟨[], []⟩, calls := [], encoders := .plain }
  let config :=
    match ((Config.loadOrDefault invocation.configPath).runOn machine).1 with
    | .ok config => config
    | .error _ => {}
  let config := { config with hostsFile := invocation.hostsFile.getD config.hostsFile }
  let paths := pathsOf invocation.command config environment
  let files ← paths.foldlM (fun files path => fetch (locationOf here path) files) files
  let (outcome, machine) := invocation.run.runOn { machine with files }
  writeBack files machine.files
  for record in machine.log do IO.eprintln (showRecord record)
  let output ← IO.getStdout
  output.write ⟨machine.printed.toArray⟩
  output.flush
  match outcome with
  | .ok () => return 0
  | .error (.failure failure) =>
    IO.eprintln ("Error: " ++ String.ofList failure.debug)
    return 1
  | .error (.panic message) =>
    IO.eprintln (String.ofList message)
    return 101

end HostKit.Main

/-- Runs the command that the arguments make up. -/
def main (arguments : List String) : IO UInt32 := do
  let environment ← HostKit.Main.readEnvironment
  match HostKit.CommandLine.parse environment (arguments.map String.toList) with
  | .ok invocation => HostKit.Main.runInvocation environment invocation
  | .error reason =>
    IO.eprintln (String.ofList reason.message)
    return if reason = .help ∨ reason = .version then 0 else 2
