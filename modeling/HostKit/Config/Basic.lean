import HostKit.Config.Expand
import HostKit.Machine
import HostKit.Toml.Document
import HostKit.Word

/-!
# Configuration

The configuration names the hosts file and the defaults for remote runs. It is an optional
TOML document in which every field may be left out. A key that is not a field, and a value of
another type or out of range, is refused; keys are looked at in alphabetical order.
-/

namespace HostKit

/-- The defaults for remote runs. -/
structure SshConfig where
  user : Option Text := none
  port : Option Nat := none
  keyFile : Option Text := none
  connectTimeoutSecs : Option Nat := none
  deriving Repr, DecidableEq

/-- The configuration. -/
structure Config where
  hostsFile : Text := "/etc/hosts"
  ssh : SshConfig := {}
  deriving Repr, DecidableEq

namespace Config

open Toml (Value Entries)

/-- Why a document is no configuration. -/
inductive Refusal where
  /-- The document is not valid. -/
  | syntaxError (error : Toml.Error)
  /-- A key is none of the fields. -/
  | unknownField (key : Text) (fields : List Text)
  /-- A value is not of the type that its field has. -/
  | wrongType (found expected : Text)
  /-- A number is out of the range of its field. -/
  | outOfRange (value : Int) (expected : Text)
  /-- A number is too large for any type. -/
  | overflow
  /-- An array in place of a table has too few items. -/
  | tooShort (length : Nat)
  deriving Repr, DecidableEq

/-- A name between grave accents. -/
def ticked (name : Text) : Text := '\x60' :: name ++ ['\x60']

/-- The fields that are expected, in words. -/
def expectedFields : List Text → Text
  | [a, b] => ticked a ++ " or " ++ ticked b
  | fields => "one of " ++ Text.join ", " (fields.map ticked)

/-- The wording of a refusal. -/
def Refusal.message : Refusal → Text
  | .syntaxError error => error.message
  | .unknownField key fields =>
    "unknown field " ++ ticked key ++ ", expected " ++ expectedFields fields
  | .wrongType found expected => "invalid type: " ++ found ++ ", expected " ++ expected
  | .outOfRange value expected =>
    "invalid value: integer " ++ ticked (Text.ofInt value) ++ ", expected " ++ expected
  | .overflow => "number overflowed"
  | .tooShort length =>
    "invalid length " ++ Text.ofNat length ++ ", expected struct SshConfig with 4 elements"

/-- The failure a refusal is reported as. -/
def Refusal.toFailure (refusal : Refusal) : Failure := .config refusal.message

/-- What a value is called in a refusal; a number may be too large to be called anything. -/
def describe : Value → Except Refusal Text
  | .string text => .ok ("string " ++ Text.quoted text)
  | .integer n =>
    let digits := ticked (Text.ofInt n)
    if Word.holdsSigned 64 n || Word.holds 64 n then .ok ("integer " ++ digits)
    else if Word.holdsSigned 128 n then .ok ("integer " ++ digits ++ " as i128")
    else if Word.holds 128 n then .ok ("integer " ++ digits ++ " as u128")
    else .error .overflow
  | .tooLarge => .error .overflow
  | .float x => .ok ("floating point " ++ ticked (Numeral.plain x))
  | .boolean b => .ok ("boolean " ++ ticked (if b then "true" else "false"))
  | .dateTime _ => .ok "map"
  | .array _ _ => .ok "sequence"
  | .table _ _ => .ok "map"

/-- The refusal of a value that is not of the expected type. -/
def refuse {α : Type} (value : Value) (expected : Text) : Except Refusal α := do
  let found ← describe value
  .error (.wrongType found expected)

/-- The text that a value is. -/
def textOf (value : Value) : Except Refusal Text :=
  match value with
  | .string text => .ok text
  | value => refuse value "a string"

/-- The natural number up to a limit that a value is. -/
def naturalOf (limit : Nat) (name : Text) (value : Value) : Except Refusal Nat :=
  match value with
  | .integer n =>
    if 0 ≤ n ∧ n ≤ limit then .ok n.toNat
    else if Word.holdsSigned 64 n || Word.holds 64 n then .error (.outOfRange n name)
    else refuse value name
  | value => refuse value name

/-- The port that a value is. -/
def portOf : Value → Except Refusal Nat := naturalOf (Word.largest 16) "u16"

/-- The number of seconds that a value is. -/
def secondsOf : Value → Except Refusal Nat := naturalOf (Word.largest 64) "u64"

/-- Entries in the order of their keys. -/
def sortedEntries (entries : Entries) : Entries :=
  entries.mergeSort fun a b => !decide (b.1 < a.1)

/-- The names of the fields for remote runs. -/
def sshFields : List Text := ["user", "port", "key_file", "connect_timeout_secs"]

/-- The names of the fields. -/
def fields : List Text := ["hosts_file", "ssh"]

/-- The defaults for remote runs with one field set. -/
def setSshField (config : SshConfig) (key : Text) (value : Value) : Except Refusal SshConfig :=
  if key = "user".toList then do
    let user ← textOf value
    .ok { config with user := some user }
  else if key = "port".toList then do
    let port ← portOf value
    .ok { config with port := some port }
  else if key = "key_file".toList then do
    let file ← textOf value
    .ok { config with keyFile := some file }
  else if key = "connect_timeout_secs".toList then do
    let seconds ← secondsOf value
    .ok { config with connectTimeoutSecs := some seconds }
  else .error (.unknownField key sshFields)

/-- The key that a date has in place of a table's. -/
def dateKey : Text := "$__toml_private_datetime"

/-- The defaults for remote runs that a value is. An array gives the fields by their places. -/
def sshOf (value : Value) : Except Refusal SshConfig :=
  match value with
  | .table _ entries =>
    (sortedEntries entries).foldlM (fun config entry => setSshField config entry.1 entry.2) {}
  | .dateTime _ => .error (.unknownField dateKey sshFields)
  | .array _ items => do
    let filled ← (sshFields.zip items).foldlM
      (fun config entry => setSshField config entry.1 entry.2) {}
    if items.length < sshFields.length then .error (.tooShort items.length) else .ok filled
  | value => refuse value "struct SshConfig"

/-- The configuration with one field set. -/
def setField (config : Config) (key : Text) (value : Value) : Except Refusal Config :=
  if key = "hosts_file".toList then do
    let file ← textOf value
    .ok { config with hostsFile := file }
  else if key = "ssh".toList then do
    let ssh ← sshOf value
    .ok { config with ssh := ssh }
  else .error (.unknownField key fields)

/-- The configuration of a table. -/
def ofTable (entries : Entries) : Except Refusal Config :=
  (sortedEntries entries).foldlM (fun config entry => setField config entry.1 entry.2) {}

/-- The configuration of a document. -/
def ofToml (document : Text) : Except Failure Config :=
  match Toml.parse document with
  | .error error => .error (Refusal.syntaxError error).toFailure
  | .ok entries => (ofTable entries).mapError Refusal.toFailure

/-- The configuration in the file at a path. -/
def load (path : Text) : Action Config := do
  let content ← Action.look (·.read path)
  match Utf8.decode content with
  | .ok document => Action.ofExcept (ofToml document)
  | .error _ => Action.fail (.io .notText)

/-- The configuration in a file, or the default without one. -/
def loadOrDefault : Option Text → Action Config
  | some path => load path
  | none => pure {}

/-- A path with its variables and its tilde replaced. -/
def expandPath (environment : Environment) (path : Text) : Except Failure Text :=
  (Expand.path environment (Expand.homeOf environment) path).mapError fun unset =>
    .invalidArgument unset.message

/-- The path of the hosts file, expanded. -/
def hostsFilePath (config : Config) (environment : Environment) : Except Failure Text :=
  expandPath environment config.hostsFile

end Config
end HostKit
