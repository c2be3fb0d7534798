import HostKit.Yaml.Character

/-!
# Placed characters

The meaning of a character depends on its column, and whether a key may end at a colon
depends on how far the key reaches. A source is the text of a document with the place of each
character. Every way to end a line becomes a line feed, except that the two separators of
Unicode stay themselves; a carriage return before a line feed is part of the same line end.
-/

namespace HostKit.Yaml

/-- A character with its place: the characters and the lines before it, and the characters
before it on its line. -/
structure Placed where
  char : Char
  index : Nat
  line : Nat
  column : Nat
  deriving Repr, DecidableEq

/-- The rest of a document. -/
abbrev Source := List Placed

namespace Source

/-- The character that a line end of one character becomes. -/
def lineEnd (c : Char) : Char := if c = '\u2028' ∨ c = '\u2029' then c else '\n'

/-- The text from a place on. -/
def place (index line column : Nat) : Text → Source
  | [] => []
  | '\r' :: '\n' :: rest => ⟨'\n', index, line, column⟩ :: place (index + 2) (line + 1) 0 rest
  | c :: rest =>
    if isBreak c then ⟨lineEnd c, index, line, column⟩ :: place (index + 1) (line + 1) 0 rest
    else ⟨c, index, line, column⟩ :: place (index + 1) line (column + 1) rest

/-- The whole text, without a byte order mark at its start. -/
def ofText : Text → Source
  | '\ufeff' :: rest => place 0 0 0 rest
  | text => place 0 0 0 text

/-- Whether the source starts with the character. -/
def startsWith (c : Char) : Source → Bool
  | [] => false
  | p :: _ => p.char = c

/-- Whether no word goes on here. -/
def atGap : Source → Bool
  | [] => true
  | p :: _ => isGap p.char

/-- Whether the characters at the front satisfy the test. -/
def headSatisfies (test : Char → Bool) : Source → Bool
  | [] => false
  | p :: _ => test p.char

/-- Whether a document starts or ends here: three hyphens or three points stand at the start
of a line and no word goes on after them. -/
def atMark : Source → Bool
  | p :: q :: r :: rest =>
    p.column = 0 && (p.char = '-' || p.char = '.') && q.char = p.char && r.char = p.char
      && atGap rest
  | _ => false

/-- The source without the spaces and tabs at its front. -/
def dropSpaces (source : Source) : Source := source.dropWhile fun p => isSpace p.char

/-- The source after the line, of which nothing but blanks and a comment may be left. -/
def afterLine? (source : Source) : Option Source :=
  let source := dropSpaces source
  let source :=
    if startsWith '#' source then source.dropWhile fun p => !isBreak p.char else source
  match source with
  | [] => some []
  | p :: rest => if isBreak p.char then some rest else none

/-- The name at the front, and the source after it. -/
def splitName (source : Source) : Text × Source :=
  ((source.takeWhile fun p => isNameCharacter p.char).map (·.char),
    source.dropWhile fun p => isNameCharacter p.char)

end Source
end HostKit.Yaml
