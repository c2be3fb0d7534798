import HostKit.Files.PathText
import HostKit.IoError

/-!
# Files, directories and links

The file system maps places to items. A place is the row of names from the root; what is at a
place is a file with its permission bits and content, a directory, or a symbolic link. A path
is walked name by name: links on the way are followed, a link at the end only where the call
asks for it, and no more than forty of them.
-/

namespace HostKit

/-- A place in the file system, by the names from the root. -/
abbrev Location := List Text

/-- What can be at a place. -/
inductive Item where
  | file (mode : Nat) (content : Bytes)
  | directory (mode : Nat)
  | link (target : Text)
  deriving Repr, DecidableEq

/-- What surrounds the items and stays as it is: the working directory, the permission bits that new
files do not get, and the refusals of moves onto files, as onto one where something is mounted. -/
structure Setting where
  workingDirectory : Location
  umask : Nat := 0o022
  moveRefusal? : Location → Option IoError := fun _ => none

namespace Setting

/-- The permission bits that are left of those that a program asks for. -/
def allowed (setting : Setting) (mode : Nat) : Nat := mode ^^^ (mode &&& setting.umask)

/-- The permission bits of a file that a program creates. -/
def newFileMode (setting : Setting) : Nat := setting.allowed 0o666

/-- The permission bits of a temporary file. -/
def temporaryMode (setting : Setting) : Nat := setting.allowed 0o600

end Setting

/-- The items of a file system and what surrounds them. -/
structure Files where
  items : List (Location × Item)
  setting : Setting

/-- What a path leads to. -/
inductive Found where
  /-- An item that is there. -/
  | present (location : Location) (item : Item)
  /-- A name that is not there, in a directory that is; a slash after it asks for a
  directory. -/
  | missing (location : Location) (slash : Bool)

/-- The place that a path leads to. -/
def Found.location : Found → Location
  | .present location _ | .missing location _ => location

namespace Files

/-- The permission bits of the root. -/
def rootMode : Nat := 0o755

/-- The item at a place. -/
def item? (files : Files) (location : Location) : Option Item :=
  if location = [] then some (.directory rootMode)
  else (files.items.find? fun entry => entry.1 = location).map Prod.snd

/-- The files without the item at a place. -/
def erase (files : Files) (location : Location) : Files :=
  { files with items := files.items.filter fun entry => entry.1 ≠ location }

/-- The files with an item put at a place. -/
def insert (files : Files) (location : Location) (item : Item) : Files :=
  { files with items := (location, item) :: (files.erase location).items }

/-- The longest name, in bytes. -/
def maxName : Nat := 255

/-- The longest path, in bytes. -/
def maxPath : Nat := 4095

/-- How many links a path may lead through. -/
def maxLinks : Nat := 40

/-- Follow names from a directory. `links` says how many links may still be followed, `follow`
whether a link at the end is followed too, and `slash` whether the end must be a directory. -/
def walk (files : Files) (follow : Bool) (links : Nat) (here : Location) (names : List Text)
    (slash : Bool) : Except IoError Found :=
  match names with
  | [] =>
    match files.item? here with
    | some item => .ok (.present here item)
    | none => .error .noEntry
  | name :: rest =>
    if maxName < Text.utf8Length name then .error .nameTooLong
    else if name = ".".toList then walk files follow links here rest slash
    else if name = "..".toList then walk files follow links here.dropLast rest slash
    else
      let there := here ++ [name]
      match files.item? there with
      | none => if rest = [] then .ok (.missing there slash) else .error .noEntry
      | some (.directory _) => walk files follow links there rest slash
      | some (.file mode content) =>
        if rest ≠ [] ∨ slash then .error .notDirectory
        else .ok (.present there (.file mode content))
      | some (.link target) =>
        if rest = [] ∧ ¬follow ∧ ¬slash then .ok (.present there (.link target))
        else
          match links with
          | 0 => .error .linkLoop
          | links + 1 =>
            if target = [] then .error .noEntry
            else
              let start := if PathText.isAbsolute target then [] else here
              let slash := slash || (rest = [] && PathText.endsWithSlash target)
              walk files follow links start (PathText.names target ++ rest) slash
  termination_by (links, names.length)

/-- What is wrong with a path before any name of it is looked up. -/
def pathError? (path : Text) : Option IoError :=
  if '\x00' ∈ path then some .nulInPath
  else if path = [] then some .noEntry
  else if maxPath < Text.utf8Length path then some .nameTooLong
  else none

/-- The directory that a path starts from. -/
def startOf (files : Files) (path : Text) : Location :=
  if PathText.isAbsolute path then [] else files.setting.workingDirectory

/-- What a path leads to. -/
def resolve (files : Files) (follow : Bool) (path : Text) : Except IoError Found :=
  match pathError? path with
  | some error => .error error
  | none =>
    walk files follow maxLinks (files.startOf path) (PathText.names path)
      (PathText.endsWithSlash path)

/-- The item that a path leads to, links followed, and its place. -/
def find (files : Files) (path : Text) : Except IoError (Location × Item) := do
  match ← files.resolve true path with
  | .present location item => .ok (location, item)
  | .missing _ _ => .error .noEntry

/-- The content of the file that a path leads to. -/
def read (files : Files) (path : Text) : Except IoError Bytes := do
  match ← files.find path with
  | (_, .file _ content) => .ok content
  | _ => .error .isDirectory

/-- The place of the file that a path leads to, and the files with an empty one there if there
was none. -/
def openOrCreate (files : Files) (path : Text) : Except IoError (Location × Files) := do
  match ← files.resolve true path with
  | .present location (.file _ _) => .ok (location, files)
  | .present _ _ => .error .isDirectory
  | .missing location slash =>
    if slash then .error .isDirectory
    else .ok (location, files.insert location (.file files.setting.newFileMode []))

/-- The files with the content of the file at a place changed. -/
def modifyContent (files : Files) (location : Location) (change : Bytes → Bytes) : Files :=
  match files.item? location with
  | some (.file mode content) => files.insert location (.file mode (change content))
  | _ => files

/-- The files with the permission bits at a place changed. -/
def setMode (files : Files) (location : Location) (mode : Nat) : Files :=
  match files.item? location with
  | some (.file _ content) => files.insert location (.file mode content)
  | some (.directory _) => files.insert location (.directory mode)
  | _ => files

/-- The permission bits of an item; a link has all of them. -/
def modeOf : Item → Nat
  | .file mode _ => mode
  | .directory mode => mode
  | .link _ => 0o777

/-- The path from the root of a place. -/
def absolutePath (location : Location) : Text := '/' :: Text.join ['/'] location

/-- The path from the root, without links, of what a path leads to. It has to be short enough for
a path itself, also where nothing is there. -/
def canonicalPath (files : Files) (path : Text) : Except IoError Text := do
  let found ← files.resolve true path
  if maxPath < Text.utf8Length (absolutePath found.location) then .error .nameTooLong
  else
    match found with
    | .present location _ => .ok (absolutePath location)
    | .missing _ _ => .error .noEntry

/-- The name of the `n`-th temporary file. -/
def temporaryName (n : Nat) : Text :=
  ".tmp" ++ List.replicate (6 - (Text.ofNat n).length) '0' ++ Text.ofNat n

/-- A place in a directory where nothing is, among the temporary names from `n` on. -/
def freeLocation (files : Files) (directory : Location) (n : Nat) : (tries : Nat) → Location
  | 0 => directory ++ [temporaryName n]
  | tries + 1 =>
    let location := directory ++ [temporaryName n]
    if files.item? location = none then location else freeLocation files directory (n + 1) tries

/-- The path that a temporary file in a directory is opened by, which starts at the root. One
temporary name stands for all, since they are of the same length. -/
def temporaryPath (files : Files) (directory : Text) : Text :=
  let start :=
    if PathText.isAbsolute directory then directory
    else PathText.push (absolutePath files.setting.workingDirectory) directory
  PathText.push start (temporaryName 0)

/-- The place of a new empty file in the directory that a path leads to, and the files with
it. The file is opened by a path from the root, which has to be short enough. -/
def createTemporary (files : Files) (directory : Text) : Except IoError (Location × Files) :=
  match pathError? (files.temporaryPath directory) with
  | some error => .error error
  | none => do
    match ← files.find directory with
    | (location, .directory _) =>
      let place := freeLocation files location 0 files.items.length
      .ok (place, files.insert place (.file files.setting.temporaryMode []))
    | _ => .error .notDirectory

/-- The refusal of a move from one place onto another: a directory refuses every move, and a file
may refuse all but the one onto itself. -/
def refusal? (files : Files) (source target : Location) : Option IoError :=
  match files.item? target with
  | some (.directory _) => some .isDirectory
  | some (.file _ _) => if source = target then none else files.setting.moveRefusal? target
  | _ => none

/-- The files with the item at a place moved to a path. A link at the path is replaced, not
followed. -/
def rename (files : Files) (source : Location) (path : Text) : Except IoError Files :=
  match pathError? path with
  | some error => .error error
  | none =>
    match (PathText.names path).getLast? with
    | none => .error .busy
    | some name => do
      let found ← walk files true maxLinks (files.startOf path) (PathText.names path).dropLast true
      match found with
      | .missing _ _ => .error .noEntry
      | .present directory _ =>
        if name = ".".toList ∨ name = "..".toList then .error .busy
        else if maxName < Text.utf8Length name then .error .nameTooLong
        else if PathText.endsWithSlash path then .error .notDirectory
        else
          let target := directory ++ [name]
          match files.refusal? source target, files.item? source with
          | some error, _ => .error error
          | none, some item => .ok ((files.erase source).insert target item)
          | none, none => .error .noEntry

end Files
end HostKit
