import HostKit.Text.Basic

/-!
# The characters of a YAML document

A document holds no control characters but tabs and line breaks. Lines end at a line feed, a
carriage return, a next-line character or one of the two separators of Unicode; words end at a
space, a tab or the end of a line. Names of anchors and of tag handles consist of ASCII
letters, digits, hyphens and underscores.
-/

namespace HostKit.Yaml

/-- Whether the character ends a line. -/
def isBreak (c : Char) : Bool :=
  c = '\n' || c = '\r' || c = '\u0085' || c = '\u2028' || c = '\u2029'

/-- Whether the character is a space or a tab. -/
def isSpace (c : Char) : Bool := c = ' ' || c = '\t'

/-- Whether the character stands between words. -/
def isGap (c : Char) : Bool := isSpace c || isBreak c

/-- Whether the character may stand in a name. -/
def isNameCharacter (c : Char) : Bool := c.isAlphanum || c = '-' || c = '_'

/-- The characters that a document may hold, as ascending ranges of code points. -/
def documentRanges : List (Nat × Nat) :=
  [(0x9, 0xa), (0xd, 0xd), (0x20, 0x7e), (0x85, 0x85), (0xa0, 0xd7ff), (0xe000, 0xfffd),
   (0x10000, 0x10ffff)]

/-- Whether a document may hold the character. -/
def isDocumentCharacter (c : Char) : Bool := Text.inRanges documentRanges c

/-- The characters that are written as they are, as ascending ranges of code points. -/
def plainRanges : List (Nat × Nat) :=
  [(0xa, 0xa), (0x20, 0x7e), (0xa0, 0xd7ff), (0xe000, 0xfefe), (0xff00, 0xfffd),
   (0x10000, 0x10ffff)]

/-- Whether the character is written as it is and not as an escape. -/
def isWrittenPlainly (c : Char) : Bool := Text.inRanges plainRanges c

/-- Whether the character opens, closes or separates the parts of a collection in brackets. -/
def isFlowIndicator (c : Char) : Bool :=
  c = ',' || c = '[' || c = ']' || c = '\x7b' || c = '\x7d'

/-- Whether the character at the start of a word means something else than a word. -/
def isIndicator (c : Char) : Bool :=
  isFlowIndicator c || c ∈ "#&*!|>'\"%@\x60".toList

end HostKit.Yaml
