import HostKit.IoError
import HostKit.Text.Blank
import HostKit.Text.Quoted

/-!
# Failures

A failure is what an operation of the library returns instead of a result. Each module has
causes of its own and turns them into a failure; the failure says which part of the library
it comes from and what happened, and callers may ask for the kind of an input or output error
so as to tell a missing file apart.
-/

namespace HostKit

/-- Why an operation did not succeed. -/
inductive Failure where
  /-- Reading or writing failed. -/
  | io (error : IoError)
  /-- An argument was refused. -/
  | invalidArgument (message : Text)
  /-- Data could not be encoded, decoded, parsed or printed by the named codec. -/
  | codec (name message : Text)
  /-- The configuration was refused. -/
  | config (message : Text)
  /-- The transport or authentication of a session failed. -/
  | ssh (message : Text)
  /-- A remote command ended with a status other than zero. -/
  | remoteCommand (command : Text) (status : Int) (stderr : Text)
  /-- A lookup found no entry for the address. -/
  | entryNotFound (ip : Text)
  deriving Repr, DecidableEq

namespace Failure

/-- The kind of the input or output error, if it is one. -/
def ioKind? : Failure → Option IoKind
  | io error => some error.kind
  | _ => none

/-- Whether an argument was refused. -/
def isInvalidArgument : Failure → Bool
  | invalidArgument _ => true
  | _ => false

/-- Whether a lookup found nothing. -/
def isEntryNotFound : Failure → Bool
  | entryNotFound _ => true
  | _ => false

/-- The failure in words, as it is shown to a user. -/
def display : Failure → Text
  | io error => "IO " ++ error.kind.description ++ " Error: " ++ error.message
  | invalidArgument message => "Invalid Argument: " ++ message
  | codec name message => "Codec " ++ name ++ " Error: " ++ message
  | config message => "Config Error: " ++ message
  | ssh message => "SSH Error: " ++ message
  | remoteCommand command status stderr =>
    "Remote command `" ++ command ++ "` exited with status " ++ Text.ofInt status ++ ": "
      ++ Text.trimEnd stderr
  | entryNotFound ip => "No entry for " ++ ip

/-- The fields of a record, by name, in braces. -/
def record (name : Text) (fields : List (Text × Text)) : Text :=
  name ++ " \x7b " ++ Text.join ", " (fields.map fun (field, value) => field ++ ": " ++ value)
    ++ " \x7d"

/-- The failure with all its fields, as it is shown to a developer. -/
def debug : Failure → Text
  | io error =>
    "IoError(" ++ record "IoErrorStruct"
      [("kind", error.kind.name), ("msg", Text.quoted error.message)] ++ ")"
  | invalidArgument message =>
    "InvalidArgument(" ++ record "InvalidArgumentStruct" [("msg", Text.quoted message)] ++ ")"
  | codec name message =>
    "CodecError(" ++ record "CodecErrorStruct"
      [("codec", Text.quoted name), ("msg", Text.quoted message)] ++ ")"
  | config message =>
    "ConfigError(" ++ record "ConfigErrorStruct" [("msg", Text.quoted message)] ++ ")"
  | ssh message => "SshError(" ++ record "SshErrorStruct" [("msg", Text.quoted message)] ++ ")"
  | remoteCommand command status stderr =>
    "RemoteCommandError(" ++ record "RemoteCommandStruct"
      [("command", Text.quoted command), ("exit_status", Text.ofInt status),
       ("stderr", Text.quoted stderr)] ++ ")"
  | entryNotFound ip =>
    "EntryNotFound(" ++ record "EntryNotFoundStruct" [("ip", Text.quoted ip)] ++ ")"

end Failure
end HostKit
