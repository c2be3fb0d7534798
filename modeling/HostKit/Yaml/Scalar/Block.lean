import HostKit.Yaml.Error
import HostKit.Yaml.Source

/-!
# Block scalars

A block scalar starts with a mark and goes on over the lines that are indented deeply enough.
A literal scalar keeps its line ends; in a folded one a line end between two lines of text
becomes a space. Signs after the mark say what happens to the line ends at its end, and a
digit how deep the indentation is; without one the first line with text on it decides.
-/

namespace HostKit.Yaml.Block

/-- What happens to the line ends at the end of a scalar. -/
inductive Chomping where
  /-- All are dropped. -/
  | strip
  /-- One is kept. -/
  | clip
  /-- All are kept. -/
  | keep
  deriving Repr, DecidableEq

/-- The marks on the first line of a scalar. -/
structure Header where
  chomping : Chomping
  /-- How many columns deeper than its parent the scalar is, if that is given. -/
  increment : Option Nat

/-- The chomping that a sign asks for. -/
def chomping? (c : Char) : Option Chomping :=
  if c = '-' then some .strip else if c = '+' then some .keep else none

/-- The indentation that a digit gives. -/
def increment? (c : Char) : Option Nat := if c.isDigit then some (c.toNat - '0'.toNat) else none

/-- The marks at the front in either order, and the source after them. -/
def splitHeader (source : Source) : Header × Source :=
  match source with
  | [] => (⟨.clip, none⟩, [])
  | p :: rest =>
    match chomping? p.char, increment? p.char with
    | some chomping, _ =>
      match rest with
      | q :: more =>
        match increment? q.char with
        | some n => (⟨chomping, some n⟩, more)
        | none => (⟨chomping, none⟩, rest)
      | [] => (⟨chomping, none⟩, [])
    | none, some n =>
      match rest with
      | q :: more =>
        match chomping? q.char with
        | some chomping => (⟨chomping, some n⟩, more)
        | none => (⟨.clip, some n⟩, rest)
      | [] => (⟨.clip, some n⟩, [])
    | none, none => (⟨.clip, none⟩, source)

/-- The largest column that the indentation reaches up to the first line with text on it. -/
def deepest (column : Nat) : Source → Except Error Nat
  | [] => .ok column
  | p :: rest =>
    if p.char = '\t' then .error .tabInIndentation
    else if p.char = ' ' then deepest (max column (p.column + 1)) rest
    else if isBreak p.char then deepest column rest
    else .ok column

/-- A scalar of which a part has been read. -/
structure Progress where
  /-- The text in reverse. -/
  done : Text
  /-- The end of the last line of text. -/
  lineEnd : Option Char
  /-- The ends of the empty lines after it. -/
  emptyLines : Text
  /-- Whether the last line of text starts with a blank. -/
  startsBlank : Bool
  /-- Whether the next character belongs to a line of text. -/
  inLine : Bool

/-- The text that stands between two lines of text. -/
def between (literal : Bool) (progress : Progress) (nextBlank : Bool) : Text :=
  if !literal && progress.lineEnd = some '\n' && !progress.startsBlank && !nextBlank then
    if progress.emptyLines = [] then [' '] else progress.emptyLines
  else progress.lineEnd.toList ++ progress.emptyLines

/-- What there is of a scalar at the indentation, and the source after it. -/
def readFrom (literal : Bool) (indent : Nat) :
    Progress → Source → Except Error (Progress × Source)
  | progress, [] => .ok (progress, [])
  | progress, p :: rest =>
    if progress.inLine then
      if isBreak p.char then
        readFrom literal indent { progress with lineEnd := some p.char, inLine := false } rest
      else readFrom literal indent { progress with done := p.char :: progress.done } rest
    else if p.char = ' ' && p.column < indent then readFrom literal indent progress rest
    else if p.char = '\t' && p.column < indent then .error .tabInIndentation
    else if isBreak p.char then
      readFrom literal indent
        { progress with emptyLines := progress.emptyLines ++ [p.char] } rest
    else if p.column = indent then
      let blank := isSpace p.char
      let done := p.char :: ((between literal progress blank).reverse ++ progress.done)
      readFrom literal indent ⟨done, none, [], blank, true⟩ rest
    else .ok (progress, p :: rest)

/-- The text of a scalar that has been read. -/
def Progress.text (chomping : Chomping) (progress : Progress) : Text :=
  progress.done.reverse ++
    match chomping with
    | .strip => []
    | .clip => progress.lineEnd.toList
    | .keep => progress.lineEnd.toList ++ progress.emptyLines

/-- The scalar after its mark, inside a collection whose lines start before the column
`inner`. -/
def read (literal : Bool) (inner : Nat) (source : Source) : Except Error (Text × Source) := do
  let (header, rest) := splitHeader source
  let some rest := Source.afterLine? rest | .error .badBlockHeader
  let indent ←
    match header.increment with
    | some 0 => .error .badBlockHeader
    | some n => .ok (inner - 1 + n)
    | none => (deepest 0 rest).map fun column => max column (max inner 1)
  let (progress, rest) ← readFrom literal indent ⟨[], none, [], false, false⟩ rest
  .ok (progress.text header.chomping, rest)

end HostKit.Yaml.Block
