import HostKit.Decimal.Numeral
import HostKit.Text.Utf8
import HostKit.Yaml.Resolve
import HostKit.Yaml.Scalar.Escape
import HostKit.Yaml.Tag
import HostKit.Yaml.Token

/-!
# The written form of values

Collections are written by indentation, an empty one as a pair of brackets. A collection that
is an item of a sequence starts on the line of its hyphen; the value of a key starts on the
next line, indented by two columns if it is a mapping and not at all if it is a sequence. A key
that is short and fits on one line stands before a colon, and any other one after a question
mark.

A string is written plainly if it is read back as itself, in single quotes if it has no
characters that need an escape, and otherwise in double quotes; a string with line feeds is
written as a literal scalar if it can be.
-/

namespace HostKit.Yaml

/-! ## Scalars -/

/-- Whether two neighbouring characters satisfy the tests. -/
def hasPair (first second : Char → Bool) : Text → Bool
  | c :: d :: rest => (first c && second d) || hasPair first second (d :: rest)
  | _ => false

/-- Whether the text ends with a character that satisfies the test. -/
def endsWith (test : Char → Bool) (text : Text) : Bool := text.getLast?.any test

/-- Whether the character is the space. -/
def isBlankSpace (c : Char) : Bool := c = ' '

/-- Whether the text has a part that only an escape can stand for: a character that is not
written as it is, or a space before the end of a line. -/
def needsEscape (text : Text) : Bool :=
  !text.all isWrittenPlainly || hasPair isBlankSpace isBreak text

/-- Whether the start of the text means something else than a plain scalar. -/
def startsLikeIndicator : Text → Bool
  | [] => false
  | c :: rest => isIndicator c || (c ∈ "?:-".toList && (rest.head?.all isGap))

/-- Whether the text starts like the mark of a document. -/
def startsLikeMark (text : Text) : Bool :=
  "---".toList.isPrefixOf text || "...".toList.isPrefixOf text

/-- Whether a plain scalar would end inside the text or at its end. -/
def endsInside (text : Text) : Bool :=
  endsWith (· = ':') text || hasPair (· = ':') isGap text || hasPair isGap (· = '#') text

/-- Whether the text can be written as a plain scalar. -/
def isPlainable (text : Text) : Bool :=
  !(needsEscape text || text.any isBreak || text.head?.any isBlankSpace
    || endsWith isBlankSpace text || startsLikeIndicator text || startsLikeMark text
    || endsInside text)

/-- Whether the text can be written in single quotes. -/
def isSingleQuotable (text : Text) : Bool :=
  !(needsEscape text || hasPair isBreak isBlankSpace text)

/-- Whether the text can be written as a literal scalar. -/
def isLiteralable (text : Text) : Bool := !(needsEscape text || endsWith isBlankSpace text)

/-- How a string is written. -/
def Style.ofString (text : Text) : Style :=
  if '\n' ∈ text then if isLiteralable text then .literal else .doubleQuoted
  else if isPlainString text && isPlainable text then .plain
  else if isSingleQuotable text then .singleQuoted
  else .doubleQuoted

/-- So many spaces. -/
def spaces (count : Nat) : Text := List.replicate count ' '

/-- The text with spaces at the start of each line that has text on it. -/
def indentLines (indent : Nat) : (atStart : Bool) → Text → Text
  | _, [] => []
  | atStart, c :: rest =>
    if isBreak c then c :: indentLines indent true rest
    else (if atStart then spaces indent else []) ++ c :: indentLines indent false rest

/-- The text in single quotes, with spaces at the start of each line but the first. -/
def singleQuoted (indent : Nat) (text : Text) : Text :=
  let doubled := text.flatMap fun c => if c = '\'' then ['\'', '\''] else [c]
  "'" ++ indentLines indent false doubled
    ++ (if endsWith isBreak text then spaces indent else []) ++ "'"

/-- Whether the character stands in double quotes as it is. -/
def standsInQuotes (c : Char) : Bool :=
  isWrittenPlainly c && !isBreak c && c ≠ '"' && c ≠ '\\'

/-- The text in double quotes. -/
def doubleQuoted (text : Text) : Text :=
  "\"" ++ text.flatMap (fun c => if standsInQuotes c then [c] else Escape.write c) ++ "\""

/-- How many columns a collection or a scalar is indented inside another one. -/
def indentStep : Nat := 2

/-- The sign after the mark of a literal scalar that keeps the line ends at its end. -/
def chompingSign (text : Text) : Text :=
  match text.reverse with
  | [] => "-"
  | last :: before =>
    if !isBreak last then "-" else if before.head?.all isBreak then "+" else []

/-- The text as a literal scalar. -/
def literal (indent : Nat) (text : Text) : Text :=
  let depth := if text.head?.any fun c => c = ' ' || isBreak c then Text.ofNat indentStep else []
  "|" ++ depth ++ chompingSign text ++ "\n" ++ indentLines indent true text

/-- A string as a scalar whose further lines are indented so deeply. -/
def printString (indent : Nat) (text : Text) : Text :=
  match Style.ofString text with
  | .literal => literal indent text
  | .singleQuoted => singleQuoted indent text
  | .doubleQuoted => doubleQuoted text
  | _ => text

/-- A float as it is written. -/
def printFloat : Binary64 → Text
  | .nan => ".nan"
  | .infinite negative => Numeral.sign negative ++ ".inf"
  | .finite negative significand exponent => Numeral.compact negative significand exponent

/-- A value without parts as it is written; the brackets of a collection without any. -/
def printLeaf (indent : Nat) : Value → Text
  | .null => "null"
  | .bool b => if b then "true" else "false"
  | .int n => Text.ofInt n
  | .float x => printFloat x
  | .string text => printString indent text
  | .sequence _ => "[]"
  | .mapping _ => "\x7b\x7d"
  | .tagged _ _ => []

/-! ## Keys -/

/-- How many bytes a key before a colon may have. -/
def maxSimpleKey : Nat := 128

/-- How many bytes a value counts as a key without a tag, if it has no parts and does not span
lines. Brackets count nothing. -/
def leafKeySize? : Value → Option Nat
  | .string text => if text.any isBreak then none else some (Text.utf8Length text)
  | .sequence [] | .mapping [] => some 0
  | .sequence (_ :: _) | .mapping (_ :: _) | .tagged _ _ => none
  | value => some (Text.utf8Length (printLeaf 0 value))

/-- How many bytes a value counts as a key, if it has no parts and does not span lines. -/
def keySize? : Value → Option Nat
  | .tagged tag value => (leafKeySize? value).map (Tag.size tag + ·)
  | value => leafKeySize? value

/-- Whether a key stands before a colon and not after a question mark. -/
def isSimpleKey (key : Value) : Bool := (keySize? key).any (· ≤ maxSimpleKey)

/-- A key that stands before a colon. -/
def printSimpleKey : Value → Text
  | .tagged tag key => Tag.write tag ++ " " ++ printLeaf 0 key
  | key => printLeaf 0 key

/-- Whether a value can be the only key of a mapping without a tag. -/
def isOnlyKey : Value → Bool
  | .tagged _ _ | .mapping [_] => false
  | _ => true

/-- Whether the keys of a mapping can be written. -/
def hasWritableKeys (isTagged : Bool) : List (Value × Value) → Bool
  | [(key, _)] => isTagged || isOnlyKey key
  | _ => true

/-! ## Collections -/

/-- The columns at which the parts of a value start. -/
structure Slot where
  /-- The column of a collection on the line of an indicator, and of a mapping on a line of its
  own. -/
  collection : Nat
  /-- The column of a sequence on a line of its own. -/
  sequence : Nat
  /-- The column of the further lines of a scalar. -/
  text : Nat

/-- The slot of a whole document. -/
def Slot.document : Slot := ⟨0, 0, indentStep⟩

/-- The slot of an item of a sequence at a column. -/
def Slot.item (column : Nat) : Slot :=
  ⟨column + indentStep, column + indentStep, column + indentStep⟩

/-- The slot of a key or value of a mapping at a column. -/
def Slot.part (column : Nat) : Slot := ⟨column + indentStep, column, column + indentStep⟩

/-- The text with a line feed at its end, unless its last line has ended. -/
def endLine (text : Text) : Text := if endsWith isBreak text then text else text ++ ['\n']

/-- The items or entries of a collection at a column, on whose line the first one starts. -/
def lines (column : Nat) (parts : List Text) : Text := Text.join (spaces column) parts

mutual

/-- A value on the line of an indicator or at the start of a document. -/
def printInline (slot : Slot) : Value → Except Error Text
  | .tagged tag value => do .ok (Tag.write tag ++ (← printAfter slot true value))
  | .sequence items =>
    if items.isEmpty then .ok (endLine "[]")
    else (printItems slot.collection items).map (lines slot.collection)
  | .mapping entries =>
    if entries.isEmpty then .ok (endLine "\x7b\x7d")
    else if hasWritableKeys false entries then
      (printEntries slot.collection entries).map (lines slot.collection)
    else .error .nestedKey
  | value => .ok (endLine (printLeaf slot.text value))

/-- A value after a key or a tag. -/
def printAfter (slot : Slot) (isTagged : Bool) : Value → Except Error Text
  | .tagged tag value =>
    if isTagged then .error .nestedTag
    else do .ok (" " ++ Tag.write tag ++ (← printAfter slot true value))
  | .sequence items =>
    if items.isEmpty then .ok (" " ++ endLine "[]")
    else do
      let parts ← printItems slot.sequence items
      .ok ("\n" ++ spaces slot.sequence ++ lines slot.sequence parts)
  | .mapping entries =>
    if entries.isEmpty then .ok (" " ++ endLine "\x7b\x7d")
    else if hasWritableKeys isTagged entries then do
      let parts ← printEntries slot.collection entries
      .ok ("\n" ++ spaces slot.collection ++ lines slot.collection parts)
    else .error .nestedKey
  | value => .ok (" " ++ endLine (printLeaf slot.text value))

/-- The items of a sequence at a column. -/
def printItems (column : Nat) : List Value → Except Error (List Text)
  | [] => .ok []
  | item :: rest => do
    let text ← printInline (.item column) item
    .ok (("- " ++ text) :: (← printItems column rest))

/-- The entries of a mapping at a column. -/
def printEntries (column : Nat) : List (Value × Value) → Except Error (List Text)
  | [] => .ok []
  | (key, value) :: rest => do
    let text ←
      if isSimpleKey key then do
        .ok (printSimpleKey key ++ ":" ++ (← printAfter (.part column) false value))
      else do
        let keyText ← printInline (.part column) key
        let valueText ← printInline (.part column) value
        .ok ("? " ++ keyText ++ spaces column ++ ": " ++ valueText)
    .ok (text :: (← printEntries column rest))

end

/-- The document that stands for a value. -/
def dump (value : Value) : Except Error Text := printInline .document value

end HostKit.Yaml
