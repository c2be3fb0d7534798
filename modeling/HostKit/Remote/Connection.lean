import HostKit.Machine
import HostKit.Remote.Collect
import HostKit.Remote.Options
import HostKit.Text.Line

/-!
# Remote runs

A connection is a session that has been opened and authenticated; it is closed on every way
out once it is there. Each command runs on a channel of its own. A run opens a connection,
runs one command, closes the connection, and logs what the command has written.
-/

namespace HostKit

/-- An open, authenticated session with a host. -/
structure Connection where
  host : Text
  deriving Repr, DecidableEq

namespace Connection

/-- The error of a connection attempt that is given no time. -/
def noTime : IoError := ⟨.invalidInput, "cannot set a 0 duration timeout"⟩

/-- The error of a connection attempt that takes too long. -/
def connectTimedOut : IoError := ⟨.timedOut, "connection timed out"⟩

/-- Connect to an address within the time given. -/
def connect (address : SocketAddress) (timeout : Duration) : Action Unit := do
  match (← get).network address with
  | .failsAtOnce error => Action.fail (.io error)
  | .settles delay outcome =>
    if timeout = 0 then Action.fail (.io noTime)
    else if timeout ≤ delay then Action.fail (.io connectTimedOut)
    else
      match outcome with
      | some error => Action.fail (.io error)
      | none => pure ()

/-- The call that authenticates a user. -/
def authCall (user : Text) : Auth → Call
  | .agent => .authAgent user
  | .password password => .authPassword user password
  | .keyFile path passphrase => .authKey user path passphrase

/-- Connect, shake hands and authenticate. -/
def openTo (options : ConnectionOptions) : Action Connection := do
  let address ← Action.ofExcept (options.socketAddress (← get).lookup)
  connect address options.connectTimeout
  Action.call .newSession
  Action.call .setStream
  Action.call (.setTimeout options.connectTimeout.millis32)
  Action.call .handshake
  Action.call (authCall options.user options.auth)
  Action.log .info ("Connected to " ++ options.host ++ " as " ++ options.user)
  return ⟨options.host⟩

/-- Close the session; a refusal does not matter. -/
def close : Action Unit := Action.call (.disconnect "hostbelt done")

/-- Open a channel: the next one that the far end has. -/
def openChannel : Action Channel := do
  Action.call .openChannel
  let machine ← get
  match machine.peer.channels with
  | [] => Action.fail (.ssh "no more channels")
  | channel :: channels => do
    set { machine with peer := { machine.peer with channels := channels } }
    return channel

/-- Ask for a variable; a refusal is logged and no more. -/
def askVariable (channel : Channel) (name value : Text) : Action Unit := do
  let refused :=
    "Remote refused environment variable " ++ name ++ ": "
  match ← Action.attempt (Action.call (.setVariable name value)) with
  | .error (.ssh message) => Action.log .warn (refused ++ message)
  | .error failure => Action.fail failure
  | .ok () =>
    if name.isOneOf channel.refused then Action.log .warn (refused ++ "refused") else pure ()

/-- The seconds that a point in time can hold. -/
def maxSeconds : Nat := Word.largest 63

/-- The point in time that lies a timeout after the present. -/
def deadlineAfter (timeout : Option Duration) : Action (Option Nat) := do
  match timeout with
  | none => return none
  | some timeout =>
    let limit := (← Action.now) + timeout
    if maxSeconds < Duration.seconds limit then
      throw (.panic "overflow when adding duration to instant")
    else return some limit

/-- What a running command writes until it is done. -/
def collectOutput (channel : Channel) (timeout : Option Duration) :
    Action (Except IoError (Bytes × Bytes)) := do
  let deadline ← deadlineAfter timeout
  let machine ← get
  let (outcome, readings) :=
    Collect.collect machine.clock deadline ⟨machine.readings, .ofChannel channel⟩
  set { machine with readings := readings }
  return outcome

/-- Start a command on a channel of its own. From then on reading does not block; all other calls
do. A timeout of zero in the call means none. -/
def start (command : Text) (options : CommandOptions) : Action Channel := do
  Action.call (.setTimeout ((options.timeout.map Duration.millis32).getD 0))
  let channel ← openChannel
  options.environment.forM fun (name, value) => askVariable channel name value
  Action.call (.execute command)
  Action.call (.setBlocking false)
  return channel

/-- Run a command on a channel of its own and collect its output. -/
def execute (command : Text) (options : CommandOptions) : Action CommandOutput := do
  let channel ← start command options
  let collected ← collectOutput channel options.timeout
  Action.call (.setBlocking true)
  let (stdout, stderr) ← Action.ofExcept (collected.mapError Failure.io)
  Action.call .waitClose
  Action.call .exitStatus
  return ⟨Utf8.decodeLossy stdout, Utf8.decodeLossy stderr, channel.status⟩

end Connection

namespace Remote

/-- Log each line with the host in front. -/
def logLines (level : Level) (host text : Text) : Action Unit :=
  (Text.lines text).forM fun line => Action.log level ("[" ++ host ++ "] " ++ line)

/-- Log what a command has written, and fail if its status is not accepted. -/
def judge (command : Text) (options : CommandOptions) (host : Text) (output : CommandOutput) :
    Action CommandOutput := do
  if !options.hide then
    logLines .info host output.stdout
    logLines .warn host output.stderr
  if !output.success && !options.warn then
    Action.fail (.remoteCommand command output.status output.stderr)
  else return output

/-- Run a command on the host that the options describe. -/
def run (command : Text) (options : CommandOptions) (target : ConnectionOptions) :
    Action CommandOutput := do
  let _ ← Connection.openTo target
  Action.ensuring (do
    let output ← Connection.execute command options
    judge command options target.host output) Connection.close

end Remote
end HostKit
