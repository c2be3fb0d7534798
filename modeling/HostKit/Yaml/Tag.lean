import HostKit.Text.Utf8
import HostKit.Yaml.Error
import HostKit.Yaml.Source

/-!
# Tags

A tag is written as a handle and the text after it, or whole in angle brackets. Handles stand
for the start of a tag; a document may define its own, and two are defined from the outset.
Characters that a tag may not hold as they are stand in it as their bytes, each after a
percent sign, and a zero byte ends the tag. Only tags that start with a mark are the
document's own, and their names are the text after it.
-/

namespace HostKit.Yaml.Tag

/-- A tag as it is written. -/
structure Written where
  /-- The handle, or nothing for a tag that is written whole. -/
  handle : Text
  suffix : Bytes
  deriving Repr, DecidableEq

/-- The starts of tags that handles stand for. -/
abbrev Handles := List (Text × Bytes)

/-- The start of the tags of the language itself. -/
def coreStart : Bytes := Utf8.encode "tag:yaml.org,2002:"

/-- The handles that need no definition. -/
def defaultHandles : Handles := [("!", Utf8.encode "!"), ("!!", coreStart)]

/-- The tag of the language itself with the name. -/
def core (name : Text) : Bytes := coreStart ++ Utf8.encode name

/-- The whole tag, if its handle is defined. -/
def resolve (handles : Handles) (tag : Written) : Except Error Bytes :=
  if tag.handle = [] then .ok tag.suffix
  else
    match handles.lookup tag.handle with
    | some start => .ok (start ++ tag.suffix)
    | none => .error .badTagHandle

/-- Whether a tag may hold the character as it is. Commas and square brackets may stand only
where nothing else can be meant. -/
def isTagCharacter (whole : Bool) (c : Char) : Bool :=
  isNameCharacter c || c ∈ ";/?:@&=+$.!~*'()".toList || (whole && c ∈ ",[]".toList)

/-- How many bytes follow the first byte of a character. -/
def followers? (byte : UInt8) : Option Nat :=
  if byte < 0x80 then some 0
  else if 0xc0 ≤ byte && byte < 0xe0 then some 1
  else if 0xe0 ≤ byte && byte < 0xf0 then some 2
  else if 0xf0 ≤ byte && byte < 0xf8 then some 3
  else none

/-- The byte that two hexadecimal digits stand for. -/
def escapedByte? (high low : Char) : Option UInt8 := do
  let high ← Text.digitValue? high
  let low ← Text.digitValue? low
  if high < 16 ∧ low < 16 then some (high * 16 + low).toUInt8 else none

/-- The bytes of the part of a tag at the front, in reverse before `done`, and the source after
it. So many bytes of an escaped character are still missing. -/
def bytesFrom (whole : Bool) :
    (missing : Nat) → (done : Bytes) → Source → Except Error (Bytes × Source)
  | missing, done, [] => if missing = 0 then .ok (done.reverse, []) else .error .badTag
  | missing, done, p :: rest =>
    if p.char = '%' then
      match rest with
      | q :: r :: rest =>
        match escapedByte? q.char r.char with
        | none => .error .badTag
        | some byte =>
          match missing with
          | 0 =>
            match followers? byte with
            | none => .error .badTag
            | some count => bytesFrom whole count (byte :: done) rest
          | missing + 1 =>
            if 0x80 ≤ byte && byte < 0xc0 then bytesFrom whole missing (byte :: done) rest
            else .error .badTag
      | _ => .error .badTag
    else if missing ≠ 0 then .error .badTag
    else if isTagCharacter whole p.char then
      bytesFrom whole 0 (p.char.toNat.toUInt8 :: done) rest
    else .ok (done.reverse, p :: rest)

/-- The bytes before the first zero. -/
def untilZero (bytes : Bytes) : Bytes := bytes.takeWhile (· ≠ 0)

/-- A part of a tag that may not be empty, and the source after it. -/
def readPart (whole : Bool) (source : Source) : Except Error (Bytes × Source) := do
  let (bytes, rest) ← bytesFrom whole 0 [] source
  if bytes = [] then .error .badTag else .ok (untilZero bytes, rest)

/-- A mark, the name after it and the mark at its end, if there is one, and the source after
them. -/
def splitHandle (source : Source) : Text × Source :=
  let (name, rest) := Source.splitName source
  match rest with
  | p :: more => if p.char = '!' then ('!' :: name ++ ['!'], more) else ('!' :: name, rest)
  | [] => ('!' :: name, [])

/-- Whether a tag may end here. -/
def mayEnd (inFlow : Bool) (source : Source) : Bool :=
  Source.atGap source || (inFlow && Source.startsWith ',' source)

/-- The tag after its first mark, and the source after it. -/
def readUnended (source : Source) : Except Error (Written × Source) := do
  match source with
  | p :: rest =>
    if p.char = '<' then
      let (suffix, rest) ← readPart true rest
      match rest with
      | q :: rest => if q.char = '>' then .ok (⟨[], suffix⟩, rest) else .error .badTag
      | [] => .error .badTag
    else
      let (handle, rest) := splitHandle source
      if 1 < handle.length ∧ handle.getLast? = some '!' then
        let (suffix, rest) ← readPart false rest
        .ok (⟨handle, suffix⟩, rest)
      else
        let (bytes, rest) ← bytesFrom false 0 [] rest
        let suffix := untilZero (Utf8.encode (handle.drop 1) ++ bytes)
        if suffix = [] then .ok (⟨[], Utf8.encode "!"⟩, rest) else .ok (⟨"!", suffix⟩, rest)
  | [] => .ok (⟨[], Utf8.encode "!"⟩, [])

/-- The tag after its first mark, and the source after it. -/
def read (inFlow : Bool) (source : Source) : Except Error (Written × Source) := do
  let (tag, rest) ← readUnended source
  if mayEnd inFlow rest then .ok (tag, rest) else .error .badTag

/-- The name of a tag of the document's own: the text after the mark at its start, and after
another one if there is more. -/
def name? (tag : Bytes) : Option Text :=
  let mark : UInt8 := 0x21
  let body? :=
    match tag with
    | [] => none
    | b :: rest => if b = mark then some (if rest = [] then tag else rest) else none
  match body? with
  | none => none
  | some body =>
    match Utf8.decode body with
    | .error _ => none
    | .ok ('!' :: c :: rest) => some (c :: rest)
    | .ok name => some name

/-- Whether the tag starts with a mark. -/
def isOwn (tag : Bytes) : Bool := tag.head? = some 0x21

/-- The tag with the name, as it is shown. -/
def display (name : Text) : Text := '!' :: name

/-- The name with the mark that makes it a tag, unless it has one. -/
def marked (name : Text) : Text :=
  match name with
  | '!' :: _ => name
  | name => '!' :: name

/-- The form in which the byte of a tag is written. -/
def writeByte (byte : UInt8) : Text :=
  ['%', (Text.hexDigit (byte.toNat / 16)).toUpper, (Text.hexDigit byte.toNat).toUpper]

/-- Whether the character of a tag is written as it is. -/
def isWrittenPlainly (c : Char) : Bool :=
  isNameCharacter c || c ∈ ";/?:@&=+$,.~*'()[]".toList

/-- The form in which a part of a tag is written. -/
def writePart (text : Text) : Text :=
  text.flatMap fun c =>
    if isWrittenPlainly c then [c] else (Utf8.encode [c]).flatMap writeByte

/-- The form in which a tag with the name is written. -/
def write (name : Text) : Text :=
  match (marked name).drop 1 with
  | [] => "!<" ++ writePart "!" ++ ">"
  | rest => '!' :: writePart rest

/-- How many bytes the tag with the name has. -/
def size (name : Text) : Nat := Text.utf8Length (marked name)

end HostKit.Yaml.Tag
