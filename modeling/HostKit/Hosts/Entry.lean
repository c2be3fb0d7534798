import HostKit.Failure
import HostKit.Net.Address

/-!
# Entries of a hosts file

An entry is a line with an address, a tab and a host name. Nothing is escaped, so an entry
can only be made from a real address and a name without blanks; a line is read as an entry
whenever something stands before its first tab.
-/

namespace HostKit

/-- An address and the name of the host there. -/
structure HostEntry where
  ip : Text
  hostname : Text
  deriving Repr, DecidableEq

namespace HostEntry

/-- Why an entry was refused. -/
inductive Refusal where
  | badAddress (ip : Text)
  | emptyName
  | blankInName (hostname : Text)
  deriving Repr, DecidableEq

/-- The failure a refusal is reported as. -/
def Refusal.toFailure : Refusal → Failure
  | .badAddress ip => .invalidArgument ("invalid IP address: " ++ ip)
  | .emptyName => .invalidArgument "hostname cannot be empty"
  | .blankInName hostname =>
    .invalidArgument ("hostname cannot contain whitespace: " ++ Text.quoted hostname)

/-- The entry of an address and a name, if both can stand on a line. -/
def make (ip hostname : Text) : Except Refusal HostEntry :=
  if IpAddress.parse? ip = none then .error (.badAddress ip)
  else if hostname = [] then .error .emptyName
  else if hostname.any Text.isBlank then .error (.blankInName hostname)
  else .ok ⟨ip, hostname⟩

/-- The entry on a line, carriage returns at its end aside. -/
def parse? (line : Text) : Option HostEntry :=
  match Text.splitFirst? '\t' (Text.dropEndWhile (· == '\r') line) with
  | none => none
  | some (ip, hostname) => if ip = [] then none else some ⟨ip, hostname⟩

/-- Whether the line is an entry for exactly this address. -/
def matchesIp (line ip : Text) : Bool :=
  match parse? line with
  | some entry => entry.ip = ip
  | none => false

/-- The line of an entry. -/
def line (entry : HostEntry) : Text := entry.ip ++ '\t' :: entry.hostname

end HostEntry
end HostKit
