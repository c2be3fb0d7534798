import HostKit.Hosts.Entry
import HostKit.Hosts.Store

/-!
# The host registry

A registry maps addresses to host names and lives in a text file, which is read anew by every
operation. Lines that are no entries stay as they are when entries are removed or replaced. An
address may have several entries; a lookup finds the first one in the order of the file.
Operations that change the file hold its lock from reading to writing.
-/

namespace HostKit

/-- A registry, which is no more than the path of its file. -/
structure HostRegistry where
  path : Text
  deriving Repr, DecidableEq

namespace HostRegistry

/-- The lines that are not entries for the address. -/
def otherLines (ip : Text) (lines : List Text) : List Text :=
  lines.filter fun line => !HostEntry.matchesIp line ip

/-- The entries among the lines. -/
def entriesOf (lines : List Text) : List HostEntry := lines.filterMap HostEntry.parse?

/-- Whether there is an entry for the address. -/
def contains (registry : HostRegistry) (ip : Text) : Action Bool := do
  let lines ← HostsFile.readLines registry.path
  return lines.any fun line => HostEntry.matchesIp line ip

/-- The name in the first entry for the address. -/
def hostname? (registry : HostRegistry) (ip : Text) : Action (Option Text) := do
  let lines ← HostsFile.readLines registry.path
  return ((entriesOf lines).find? fun entry => entry.ip = ip).map HostEntry.hostname

/-- All entries in the order of the file. -/
def entries (registry : HostRegistry) : Action (List HostEntry) := do
  return entriesOf (← HostsFile.readLines registry.path)

/-- A new entry, or the failure that it was refused with. -/
def makeEntry (ip hostname : Text) : Action HostEntry :=
  Action.ofExcept ((HostEntry.make ip hostname).mapError HostEntry.Refusal.toFailure)

/-- Append an entry; the file is made if it is missing. -/
def add (registry : HostRegistry) (ip hostname : Text) : Action Unit := do
  let entry ← makeEntry ip hostname
  HostsFile.lock registry.path
  HostsFile.appendLine registry.path entry.line
  Action.log .info ("Added " ++ ip ++ " -> " ++ hostname ++ " to " ++ registry.path)

/-- Remove every entry for the address. A missing file is a failure, found out before the
lock file would be made next to it. -/
def remove (registry : HostRegistry) (ip : Text) : Action Unit := do
  let _ ← Action.look (·.find registry.path)
  HostsFile.lock registry.path
  let lines ← HostsFile.readLines registry.path
  let kept := otherLines ip lines
  let removed := lines.length - kept.length
  if 0 < removed then HostsFile.writeLines registry.path kept
  Action.log .info ("Removed " ++ Text.ofNat removed ++ " entries for " ++ ip ++ " from "
    ++ registry.path)

/-- Replace every entry for the address by a single one, in one step; the file is made if it is
missing. -/
def set (registry : HostRegistry) (ip hostname : Text) : Action Unit := do
  let entry ← makeEntry ip hostname
  HostsFile.lock registry.path
  let lines ← HostsFile.readLinesOrEmpty registry.path
  HostsFile.writeLines registry.path (otherLines ip lines ++ [entry.line])
  Action.log .info ("Set " ++ ip ++ " -> " ++ hostname ++ " in " ++ registry.path)

end HostRegistry
end HostKit
