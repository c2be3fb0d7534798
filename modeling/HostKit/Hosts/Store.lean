import HostKit.Machine
import HostKit.Text.Line

/-!
# The file of a registry

Lines are read, appended and replaced as a whole. A replacement puts the new content into a
temporary file next to the real one and moves it over it, so that a reader sees the old content
or the new; where the move is refused the content is written in place. Writers take turns by a
lock file of their own, which stays there for good.
-/

namespace HostKit.HostsFile

/-- Make sure that the lock file is there, and take the lock. -/
def lock (path : Text) : Action Unit :=
  Action.change fun files => do
    let (_, files) ← files.openOrCreate (PathText.lockPath path)
    .ok ((), files)

/-- The content of the file as text. -/
def readText (path : Text) : Action Text := do
  let content ← Action.look (·.read path)
  match Utf8.decode content with
  | .ok text => pure text
  | .error _ => Action.fail (.io .notText)

/-- The lines of the file. -/
def readLines (path : Text) : Action (List Text) := do return Text.lines (← readText path)

/-- The value of an action, or a default where the file is missing. -/
def orIfMissing {α : Type} (default : α) (action : Action α) : Action α := do
  match ← Action.attempt action with
  | .ok a => pure a
  | .error failure =>
    if failure.ioKind? = some .notFound then pure default else Action.fail failure

/-- The lines of the file, none if it is missing. -/
def readLinesOrEmpty (path : Text) : Action (List Text) := orIfMissing [] (readLines path)

/-- Whether the content ends in the middle of a line. -/
def lacksNewline (content : Bytes) : Bool :=
  match content.getLast? with
  | some b => b ≠ 10
  | none => false

/-- Append a line, on a line of its own, and make the file if it is missing. -/
def appendLine (path line : Text) : Action Unit := do
  let content ← orIfMissing [] (Action.look (·.read path))
  let separator : Bytes := if lacksNewline content then [10] else []
  let location ← Action.change (·.openOrCreate path)
  Action.change fun files =>
    .ok ((), files.modifyContent location (· ++ (separator ++ Utf8.encode (line ++ ['\n']))))

/-- The path that new content lands on: where the links lead, or the path itself if there is
nothing yet. -/
def targetOf (path : Text) : Action Text := orIfMissing path (Action.look (·.canonicalPath path))

/-- Replace the content of the file without replacing the file. -/
def writeInPlace (path content : Text) : Action Unit :=
  Action.writeFile path (Utf8.encode content)

/-- Take away a temporary file, if it is still there. -/
def discard (location : Location) : Action Unit :=
  Action.change fun files => .ok ((), files.erase location)

/-- Write the content of a path into a temporary file in the same directory. -/
def writeTemporary (target content : Text) : Action Location := do
  let temporary ← Action.change (·.createTemporary (PathText.directoryOf target))
  Action.change fun files =>
    .ok ((), files.modifyContent temporary fun _ => Utf8.encode content)
  return temporary

/-- Give a temporary file the permission bits of the file that it is going to replace, if there
is one. -/
def copyMode (temporary : Location) (target : Text) : Action Unit := do
  match ← Action.attempt (Action.look (·.find target)) with
  | .ok (_, item) =>
    Action.change fun files => .ok ((), files.setMode temporary (Files.modeOf item))
  | .error _ => pure ()

/-- Move a temporary file over a path, or write its content in place where that is refused. -/
def moveOver (temporary : Location) (target content : Text) : Action Unit := do
  match ← Action.attempt
      (Action.change fun files => (files.rename temporary target).map ((), ·)) with
  | .ok () => pure ()
  | .error (.io e) => do
    Action.log .warn
      ("Cannot rename over " ++ target ++ " (" ++ e.message ++ "), rewriting in place")
    Action.ensuring (writeInPlace target content) (discard temporary)
  | .error failure => Action.ensuring (Action.fail failure) (discard temporary)

/-- Replace the lines of the file in one step. -/
def writeLines (path : Text) (lines : List Text) : Action Unit := do
  let target ← targetOf path
  let content := Text.unlines lines
  let temporary ← writeTemporary target content
  copyMode temporary target
  moveOver temporary target content

end HostKit.HostsFile
