import HostKit.Text.Basic

/-!
# Paths as text

A path is a row of names with slashes between them, after an optional slash for the root.
Doubled slashes, a slash at the end and single dots in later places carry no name. The
functions here look at the text only and never at the files.
-/

namespace HostKit.PathText

/-- Whether the path starts at the root. -/
def isAbsolute (path : Text) : Bool := path.head? = some '/'

/-- Whether the path ends with a slash, and so can only mean a directory. -/
def endsWithSlash (path : Text) : Bool := path.getLast? = some '/'

/-- The names of the path, single and double dots included. -/
def names (path : Text) : List Text := (Text.splitOn '/' path).filter (· ≠ [])

/-- The slash of the root or the dot that the path starts with, and the text after it. -/
def splitStart (path : Text) : Text × Text :=
  match path with
  | '/' :: body => (['/'], body)
  | ['.'] => (['.'], [])
  | '.' :: '/' :: body => (['.'], '/' :: body)
  | body => ([], body)

/-- The pieces between slashes without those at the end that carry no name. -/
def dropNameless (pieces : List Text) : List Text :=
  (pieces.reverse.dropWhile fun piece => piece = [] ∨ piece = ['.']).reverse

/-- What the path starts with, and its pieces up to the last name. -/
def decompose (path : Text) : Text × List Text :=
  let (start, body) := splitStart path
  (start, dropNameless (Text.splitOn '/' body))

/-- The last name of the path, if it ends with one that is not a double dot. -/
def fileName? (path : Text) : Option Text :=
  match (decompose path).2.getLast? with
  | some name => if name = "..".toList then none else some name
  | none => none

/-- The path without its last name, if it has one. -/
def parent? (path : Text) : Option Text :=
  let (start, pieces) := decompose path
  if pieces = [] then if start = ['.'] then some [] else none
  else some (start ++ Text.join ['/'] (dropNameless pieces.dropLast))

/-- The path with one more name. -/
def push (path name : Text) : Text :=
  if path = [] ∨ endsWithSlash path then path ++ name else path ++ '/' :: name

/-- The path with its last name replaced, or the name added if it ends with none. -/
def withFileName (path name : Text) : Text :=
  match fileName? path, parent? path with
  | some _, some parent => push parent name
  | _, _ => push path name

/-- The path of the lock file that belongs to a file: the same name, with an ending. -/
def lockPath (path : Text) : Text := withFileName path ((fileName? path).getD [] ++ ".lock")

/-- The path of the directory that a file is in. -/
def directoryOf (path : Text) : Text :=
  match parent? path with
  | some parent => if parent = [] then ['.'] else parent
  | none => ['.']

end HostKit.PathText
