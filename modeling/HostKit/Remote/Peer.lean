import HostKit.IoError
import HostKit.Word

/-!
# The far end of a session

A session is a row of calls, each of which the far end may refuse. A channel runs one
command: its two output streams deliver data, nothing yet, or an error, read by read, and the
far end says so many times that more is to come before it says that all has been sent.
-/

namespace HostKit

/-- A length of time, in nanoseconds. -/
abbrev Duration := Nat

namespace Duration

/-- So many milliseconds. -/
def ofMillis (n : Nat) : Duration := n * 1000000

/-- So many seconds. -/
def ofSeconds (n : Nat) : Duration := n * 1000000000

/-- The whole seconds of a length of time. -/
def seconds (d : Duration) : Nat := d / 1000000000

/-- The whole milliseconds of a length of time, as many as 32 bits can hold. -/
def millis32 (d : Duration) : Nat := min (d / 1000000) (Word.largest 32)

end Duration

/-- A call on a session. -/
inductive Call where
  | newSession
  | setStream
  | setTimeout (millis : Nat)
  | handshake
  | authAgent (user : Text)
  | authPassword (user password : Text)
  | authKey (user key : Text) (passphrase : Option Text)
  | openChannel
  | setVariable (name value : Text)
  | execute (command : Text)
  | setBlocking (blocking : Bool)
  | waitClose
  | exitStatus
  | disconnect (description : Text)
  deriving Repr, DecidableEq

/-- The kinds of calls that the far end can refuse. -/
inductive CallKind where
  | newSession | handshake | authAgent | authPassword | authKey | openChannel | setVariable
  | execute | waitClose | exitStatus | disconnect
  deriving Repr, DecidableEq

/-- The kind of a call, if it can be refused. -/
def Call.kind? : Call → Option CallKind
  | newSession => some .newSession
  | handshake => some .handshake
  | authAgent _ => some .authAgent
  | authPassword _ _ => some .authPassword
  | authKey _ _ _ => some .authKey
  | openChannel => some .openChannel
  | setVariable _ _ => some .setVariable
  | execute _ => some .execute
  | waitClose => some .waitClose
  | exitStatus => some .exitStatus
  | disconnect _ => some .disconnect
  | setStream | setTimeout _ | setBlocking _ => none

/-- What one read of a stream comes to. -/
inductive ReadStep where
  | data (bytes : Bytes)
  | wouldBlock
  | fails (error : IoError)
  deriving Repr, DecidableEq

/-- The data of a read, none if it would block or fails. -/
def ReadStep.bytes : ReadStep → Bytes
  | .data bytes => bytes
  | .wouldBlock | .fails _ => []

/-- A channel: what its streams deliver, how often the far end says that more is to come, the
status the command ends with, and the variables that are refused. -/
structure Channel where
  stdout : List ReadStep
  stderr : List ReadStep
  pendingEof : Nat
  status : Int
  refused : List Text
  deriving Repr

/-- The far end: the calls it refuses and what it says then, and the channels it opens. -/
structure Peer where
  refusals : List (CallKind × Text)
  channels : List Channel
  deriving Repr

/-- What the far end says to a call, if it refuses it. -/
def Peer.refusal? (peer : Peer) (call : Call) : Option Text :=
  call.kind?.bind fun kind => (peer.refusals.find? fun r => r.1 = kind).map Prod.snd

/-- What becomes of a connection attempt: it fails at once, or it is settled after a while. -/
inductive Attempt where
  | failsAtOnce (error : IoError)
  | settles (delay : Duration) (outcome : Option IoError)

end HostKit
