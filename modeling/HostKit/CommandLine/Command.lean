import HostKit.Codec.TextCodec
import HostKit.Compression.Basic

/-!
# Commands

What a command line asks for, after its words have been understood. Every field that has a
default is filled in; what may come from the configuration or the environment instead is
optional.
-/

namespace HostKit.CommandLine

/-- What to do with the hosts file. -/
inductive HostsCommand where
  /-- Print the address if there is an entry for it. -/
  | exists (ip : Text)
  /-- Print the host name of the first entry for the address. -/
  | get (ip : Text)
  /-- Append an entry. -/
  | add (ip hostname : Text)
  /-- Remove every entry for the address. -/
  | remove (ip : Text)
  /-- Replace every entry for the address by a single one. -/
  | set (ip hostname : Text)
  /-- Print all entries as a table. -/
  | list (style : Text)
  deriving Repr, DecidableEq

/-- Where the input of a text codec comes from. -/
inductive TextInput where
  | inline (text : Text)
  | file (path : Text)
  deriving Repr, DecidableEq

/-- A command to run on another host. -/
structure RemoteCommand where
  host : Text
  user : Option Text
  port : Option Nat
  keyFile : Option Text
  passphrase : Option Text
  password : Option Text
  /-- How many seconds connecting may take. -/
  connectTimeout : Option Nat
  /-- How many seconds the command may take. -/
  timeout : Option Nat
  warn : Bool
  hide : Bool
  environment : List (Text × Text)
  words : List Text
  deriving Repr, DecidableEq

/-- What to do. -/
inductive Command where
  | hosts (command : HostsCommand)
  | encode (codec : TextCodec) (input : TextInput)
  | decode (codec : TextCodec) (input : TextInput)
  | compress (codec : CompressionCodec) (input output : Text)
  | decompress (codec : CompressionCodec) (input output : Text)
  /-- Load a YAML document and print it in its normal form. -/
  | yaml (file : Text)
  /-- Write an integer in another radix. -/
  | int (value : Text) (fromRadix toRadix : Nat)
  /-- Draw rows, whose cells are separated by commas, as a table. -/
  | table (title : Option Text) (style : Text) (rows : List Text)
  | exec (command : RemoteCommand)
  deriving Repr, DecidableEq

/-- A command with the flags that every command has. -/
structure Invocation where
  configPath : Option Text
  hostsFile : Option Text
  command : Command
  deriving Repr, DecidableEq

end HostKit.CommandLine
