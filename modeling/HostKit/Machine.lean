import HostKit.Compression.Basic
import HostKit.Environment
import HostKit.Failure
import HostKit.Files.Basic
import HostKit.Net.Address
import HostKit.Remote.Peer
import HostKit.Text.Utf8

/-!
# The machine that commands run on

What a command reads and changes: the files, the environment, the log, the printed output, the
clock, the network with its names, and the session it has open. How data is compressed also depends
on the machine. Every change of the files is one step, and the states before the steps are kept, so
that what another process may see between two steps can be spoken of. An action ends with a result,
with a failure, or with a panic.
-/

namespace HostKit

/-- How much attention a log record asks for. -/
inductive Level where
  | info | warn
  deriving Repr, DecidableEq

/-- A line of the log. -/
structure LogRecord where
  level : Level
  text : Text
  deriving Repr, DecidableEq

/-- The surroundings of a command. -/
structure Machine where
  /-- The files as they are. -/
  files : Files
  /-- The files as they were before each step, the latest first. -/
  past : List Files
  /-- The environment variables. -/
  environment : Environment
  /-- The log, in order. -/
  log : List LogRecord
  /-- The output printed so far. -/
  printed : Bytes
  /-- The addresses that a host name stands for. -/
  lookup : Text → Except IoError (List IpAddress)
  /-- What becomes of a connection to an address. -/
  network : SocketAddress → Attempt
  /-- The readings of the clock, in nanoseconds. -/
  clock : Nat → Nat
  /-- How many of the readings have been taken. -/
  readings : Nat
  /-- The far end of sessions. -/
  peer : Peer
  /-- The calls made on sessions, in order. -/
  calls : List Call
  /-- How data is compressed. -/
  encoders : Encoders

/-- Why an action ended without a result. -/
inductive Stop where
  | failure (failure : Failure)
  | panic (message : Text)
  deriving Repr, DecidableEq

/-- Something that runs on a machine. -/
abbrev Action (α : Type) := ExceptT Stop (StateM Machine) α

namespace Action

/-- The action run on a machine: how it ends, and the machine after it. -/
def runOn {α : Type} (action : Action α) (machine : Machine) : Except Stop α × Machine :=
  action machine

/-- End with a failure. -/
def fail {α : Type} (failure : Failure) : Action α := throw (.failure failure)

/-- A result that is there already, or the end with a failure. -/
def ofExcept {α : Type} : Except Failure α → Action α
  | .ok a => pure a
  | .error failure => fail failure

/-- The outcome of an action as a value; a panic goes on. -/
def attempt {α : Type} (action : Action α) : Action (Except Failure α) := fun machine =>
  match action machine with
  | (.ok a, machine) => (.ok (.ok a), machine)
  | (.error (.failure failure), machine) => (.ok (.error failure), machine)
  | (.error (.panic message), machine) => (.error (.panic message), machine)

/-- An action and then, however it ends, another one whose own end does not matter. -/
def ensuring {α : Type} (action : Action α) (last : Action Unit) : Action α := fun machine =>
  let (outcome, machine) := action machine
  (outcome, (last machine).2)

/-- Look at the files without changing them. -/
def look {α : Type} (f : Files → Except IoError α) : Action α := do
  match f (← get).files with
  | .ok a => pure a
  | .error e => fail (.io e)

/-- Change the files in one step. -/
def change {α : Type} (f : Files → Except IoError (α × Files)) : Action α := do
  let machine ← get
  match f machine.files with
  | .ok (a, files) => do
    set { machine with files := files, past := machine.files :: machine.past }
    pure a
  | .error e => fail (.io e)

/-- Replace the content of the file at a path, in two steps: the file is emptied, and made if it
is missing, and then written. -/
def writeFile (path : Text) (content : Bytes) : Action Unit := do
  let location ← change fun files => do
    let (location, files) ← files.openOrCreate path
    .ok (location, files.modifyContent location fun _ => [])
  change fun files => .ok ((), files.modifyContent location fun _ => content)

/-- Write a line of the log. -/
def log (level : Level) (text : Text) : Action Unit :=
  modify fun machine => { machine with log := machine.log ++ [⟨level, text⟩] }

/-- Print data. -/
def print (data : Bytes) : Action Unit :=
  modify fun machine => { machine with printed := machine.printed ++ data }

/-- Print a line of text. -/
def printLine (text : Text) : Action Unit := print (Utf8.encode (text ++ ['\n']))

/-- The next reading of the clock. -/
def now : Action Nat := do
  let machine ← get
  set { machine with readings := machine.readings + 1 }
  return machine.clock machine.readings

/-- Make a call on the session, which the far end may refuse. -/
def call (c : Call) : Action Unit := do
  let machine ← get
  set { machine with calls := machine.calls ++ [c] }
  match machine.peer.refusal? c with
  | some message => fail (.ssh message)
  | none => pure ()

end Action
end HostKit
