import HostKit.Failure
import HostKit.Net.Address
import HostKit.Remote.Peer

/-!
# Options of a remote run

Where to connect and as whom, how to prove it, and how to run a command there.
-/

namespace HostKit

/-- How a user proves who they are. -/
inductive Auth where
  /-- By the identities of a running agent. -/
  | agent
  /-- By a password. -/
  | password (password : Text)
  /-- By a private key in a file, which a passphrase may protect. -/
  | keyFile (path : Text) (passphrase : Option Text)
  deriving Repr, DecidableEq

/-- Where to connect and as whom. -/
structure ConnectionOptions where
  host : Text
  user : Text
  port : Nat := 22
  auth : Auth := .agent
  connectTimeout : Duration := Duration.ofSeconds 10
  deriving Repr, DecidableEq

/-- The failure of a host whose name stands for no address. -/
def ConnectionOptions.noAddress (options : ConnectionOptions) : Failure :=
  .invalidArgument ("host " ++ options.host ++ " did not resolve to any address")

/-- The address to connect to. A host is given by its address or by a name, which is looked up; of
the addresses found the first one counts. -/
def ConnectionOptions.socketAddress (options : ConnectionOptions)
    (lookup : Text → Except IoError (List IpAddress)) : Except Failure SocketAddress :=
  match IpAddress.parse? options.host with
  | some ip => .ok ⟨ip, options.port⟩
  | none =>
    if '\x00' ∈ options.host then .error (.io .nulInPath)
    else
      match lookup options.host with
      | .error error => .error (.io error)
      | .ok [] => .error options.noAddress
      | .ok (ip :: _) => .ok ⟨ip, options.port⟩

/-- How to run a command. -/
structure CommandOptions where
  /-- A status other than zero is no failure. -/
  warn : Bool := false
  /-- The output is not logged. -/
  hide : Bool := false
  /-- How long each call and the collecting of the output may take. -/
  timeout : Option Duration := none
  /-- The variables asked for, in order. -/
  environment : List (Text × Text) := []
  deriving Repr, DecidableEq

/-- What a command has written, and its status. -/
structure CommandOutput where
  stdout : Text
  stderr : Text
  status : Int
  deriving Repr, DecidableEq

/-- Whether the status is zero. -/
def CommandOutput.success (output : CommandOutput) : Bool := output.status = 0

end HostKit
