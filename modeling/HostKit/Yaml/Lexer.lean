import HostKit.Yaml.Scalar.Block
import HostKit.Yaml.Scalar.Plain
import HostKit.Yaml.Scalar.Quoted
import HostKit.Yaml.Token

/-!
# From characters to tokens

Outside brackets the indentation opens and closes collections: one is open for each column at
which entries may go on, and a token to the left of that column closes it. A key is
recognised only when the colon after it is found, so every place where a key may start is
kept in mind, and the token that says so is put in there afterwards. Such a key may not go on
over a line end nor over more than a thousand and twenty-four characters.
-/

namespace HostKit.Yaml

/-- A place where a key may have started. -/
structure PossibleKey where
  /-- How many tokens are before it. -/
  position : Nat
  place : Placed
  /-- Whether nothing but a key may start there. -/
  required : Bool

/-- A document of which a part has been cut into tokens. -/
structure Lexer where
  source : Source
  tokens : Array Token
  /-- The first column inside the innermost collection that indentation has opened. -/
  inner : Nat
  /-- The same for the collections around it. -/
  outer : List Nat
  /-- Where a key may have started inside the innermost brackets. -/
  key : Option PossibleKey
  /-- The same for each pair of brackets around them, and for what is outside all brackets. -/
  outerKeys : List (Option PossibleKey)
  /-- Whether a key may start here. -/
  keyAllowed : Bool

namespace Lexer

/-- The text of a document before anything is read. -/
def ofSource (source : Source) : Lexer := ⟨source, #[], 0, [], none, [], true⟩

/-- Whether brackets are open. -/
def inFlow (lexer : Lexer) : Bool := !lexer.outerKeys.isEmpty

/-- One more token. -/
def emit (token : Token) (lexer : Lexer) : Lexer :=
  { lexer with tokens := lexer.tokens.push token }

/-- One more token, with the source after it and whether a key may follow. -/
def take (token : Token) (rest : Source) (keyAllowed : Bool) (lexer : Lexer) : Lexer :=
  { lexer with tokens := lexer.tokens.push token, source := rest, keyAllowed }

/-- The collections that are left when all of those further in than a limit are closed. -/
def closeFrom (limit : Nat) : Array Token → Nat → List Nat → Array Token × Nat × List Nat
  | tokens, inner, [] => (tokens, inner, [])
  | tokens, inner, next :: outer =>
    if limit < inner then closeFrom limit (tokens.push .blockEnd) next outer
    else (tokens, inner, next :: outer)

/-- Closes the collections that indentation has opened and that a line with the first column
`limit` inside it does not belong to. Inside brackets indentation means nothing. -/
def close (limit : Nat) (lexer : Lexer) : Lexer :=
  if lexer.inFlow then lexer
  else
    let (tokens, inner, outer) := closeFrom limit lexer.tokens lexer.inner lexer.outer
    { lexer with tokens, inner, outer }

/-- Opens a collection at a column, with its token before that of the position, unless one is
open there or brackets are open. -/
def openAt (column position : Nat) (token : Token) (lexer : Lexer) : Lexer :=
  if lexer.inFlow || column < lexer.inner then lexer
  else
    { lexer with
      tokens := lexer.tokens.insertIdxIfInBounds position token
      inner := column + 1
      outer := lexer.inner :: lexer.outer }

/-- Forgets the place where a key may have started. -/
def forgetKey (lexer : Lexer) : Except Error Lexer :=
  match lexer.key with
  | none => .ok lexer
  | some key => if key.required then .error .missingColon else .ok { lexer with key := none }

/-- Keeps in mind that a key may start here, if it may. -/
def noteKey (place : Placed) (lexer : Lexer) : Except Error Lexer :=
  if lexer.keyAllowed then do
    let lexer ← lexer.forgetKey
    let required := !lexer.inFlow && lexer.inner = place.column + 1
    .ok { lexer with key := some ⟨lexer.tokens.size, place, required⟩ }
  else .ok lexer

/-- How many characters a key may have at most. -/
def maxKeyLength : Nat := 1024

/-- The place where the key before a colon started, unless that is too far away. -/
def liveKey (colon : Placed) (lexer : Lexer) : Except Error (Option PossibleKey) :=
  match lexer.key with
  | none => .ok none
  | some key =>
    if key.place.line < colon.line || key.place.index + maxKeyLength < colon.index then
      if key.required then .error .missingColon else .ok none
    else .ok (some key)

/-- The source at the next token, and whether a key may start there. -/
def skipFrom (inFlow : Bool) : (inComment keyAllowed : Bool) → Source → Source × Bool
  | _, keyAllowed, [] => ([], keyAllowed)
  | inComment, keyAllowed, p :: rest =>
    if isBreak p.char then skipFrom inFlow false (keyAllowed || !inFlow) rest
    else if inComment || p.char = '#' then skipFrom inFlow true keyAllowed rest
    else if p.char = ' ' || (p.char = '\t' && (inFlow || !keyAllowed))
        || (p.char = '\ufeff' && p.column = 0) then
      skipFrom inFlow false keyAllowed rest
    else (p :: rest, keyAllowed)

/-- A number of a version. -/
def readNumber? (source : Source) : Option (Nat × Source) :=
  let digits := (source.takeWhile (·.char.isDigit)).map (·.char)
  if digits = [] ∨ 9 < digits.length then none
  else
    some (digits.foldl (fun n c => n * 10 + (c.toNat - '0'.toNat)) 0,
      source.dropWhile (·.char.isDigit))

/-- The version after the name of its directive, and the source after it. -/
def readVersion (source : Source) : Except Error (Token × Source) :=
  match readNumber? (Source.dropSpaces source) with
  | some (major, p :: rest) =>
    if p.char = '.' then
      match readNumber? rest with
      | some (minor, rest) => .ok (.version major minor, rest)
      | none => .error .badDirective
    else .error .badDirective
  | _ => .error .badDirective

/-- The definition of a handle after the name of its directive, and the source after it. -/
def readHandle (source : Source) : Except Error (Token × Source) := do
  match Source.dropSpaces source with
  | p :: rest =>
    let (handle, rest) := Tag.splitHandle rest
    let wellFormed := p.char = '!' && (handle.getLast? = some '!')
    if wellFormed && Source.headSatisfies isSpace rest then
      let (start, rest) ← Tag.readPart true (Source.dropSpaces rest)
      if Source.atGap rest then .ok (.handle handle start, rest) else .error .badDirective
    else .error .badDirective
  | [] => .error .badDirective

/-- The directive after its percent sign, and the source after its line. -/
def readDirective (source : Source) : Except Error (Token × Source) := do
  let (name, rest) := Source.splitName source
  let (token, rest) ←
    if name = "YAML".toList ∧ Source.atGap rest then readVersion rest
    else if name = "TAG".toList ∧ Source.atGap rest then readHandle rest
    else .error .badDirective
  match Source.afterLine? rest with
  | some rest => .ok (token, rest)
  | none => .error .badDirective

/-- Whether the name of an anchor or alias may end here. -/
def mayEndName (source : Source) : Bool :=
  Source.atGap source || Source.headSatisfies (· ∈ "?:,]\x7d%@\x60".toList) source

/-- The name of an anchor or alias, and the source after it. -/
def readName (source : Source) : Except Error (Text × Source) :=
  let (name, rest) := Source.splitName source
  if name ≠ [] ∧ mayEndName rest then .ok (name, rest) else .error .badAnchor

/-- Takes a token before which no collection stays open. -/
def takeMark (token : Token) (rest : Source) (lexer : Lexer) : Except Error Lexer := do
  let lexer ← (lexer.close 0).forgetKey
  .ok (lexer.take token rest false)

/-- Takes an opening bracket, which a key may start with. -/
def takeOpening (token : Token) (p : Placed) (rest : Source) (lexer : Lexer) :
    Except Error Lexer := do
  let lexer ← lexer.noteKey p
  .ok { lexer.take token rest true with key := none, outerKeys := lexer.key :: lexer.outerKeys }

/-- Takes a closing bracket. -/
def takeClosing (token : Token) (rest : Source) (lexer : Lexer) : Except Error Lexer := do
  let lexer := (← lexer.forgetKey).take token rest false
  match lexer.outerKeys with
  | [] => .ok lexer
  | key :: outerKeys => .ok { lexer with key, outerKeys }

/-- Takes the indicator of an entry or key, which opens a collection if none is open at its
column. -/
def takeIndicator (collection token : Token) (keyAllowed : Bool) (p : Placed) (rest : Source)
    (lexer : Lexer) : Except Error Lexer :=
  if !lexer.inFlow && !lexer.keyAllowed then .error .misplaced
  else do
    let lexer ← (lexer.openAt p.column lexer.tokens.size collection).forgetKey
    .ok (lexer.take token rest keyAllowed)

/-- Takes a colon, which makes what started at the place kept in mind a key. -/
def takeColon (p : Placed) (rest : Source) (lexer : Lexer) : Except Error Lexer := do
  match ← lexer.liveKey p with
  | some key =>
    let lexer :=
      { lexer with tokens := lexer.tokens.insertIdxIfInBounds key.position .key, key := none }
    .ok ((lexer.openAt key.place.column key.position .blockMapping).take .value rest false)
  | none =>
    let lexer := { lexer with key := none }
    if lexer.inFlow then .ok (lexer.take .value rest false)
    else if lexer.keyAllowed then
      .ok ((lexer.openAt p.column lexer.tokens.size .blockMapping).take .value rest true)
    else .error .misplaced

/-- Takes a part of a node that a key may start with. -/
def takePart (p : Placed) (lexer : Lexer) (read : Except Error (Token × Source)) :
    Except Error Lexer := do
  let lexer ← lexer.noteKey p
  let (token, rest) ← read
  .ok (lexer.take token rest false)

/-- Takes a block scalar, after which a new line starts. -/
def takeBlock (style : Style) (rest : Source) (lexer : Lexer) : Except Error Lexer := do
  let lexer ← lexer.forgetKey
  let (text, rest) ← Block.read (style = .literal) lexer.inner rest
  .ok (lexer.take (.scalar style text) rest true)

/-- Takes a plain scalar, after which a key may start if a line end follows it. -/
def takePlain (p : Placed) (rest : Source) (lexer : Lexer) : Except Error Lexer := do
  let lexer ← lexer.noteKey p
  let result ← Plain.read lexer.inFlow lexer.inner (p :: rest)
  .ok (lexer.take (.scalar .plain result.text) result.rest result.endsLine)

/-- Whether a plain scalar may start with the character. -/
def startsPlain (inFlow : Bool) (c : Char) (rest : Source) : Bool :=
  if c = '-' then !Source.headSatisfies isSpace rest
  else if c = '?' || c = ':' then !inFlow && !Source.atGap rest
  else !isGap c && !isIndicator c

/-- Takes the token that starts with the next character. -/
def takeToken (p : Placed) (rest : Source) (lexer : Lexer) : Except Error Lexer :=
  let lexer := lexer.close (p.column + 1)
  let inFlow := lexer.inFlow
  let isAlone := inFlow || Source.atGap rest
  if p.column = 0 && p.char = '%' then do
    let (token, rest) ← readDirective rest
    lexer.takeMark token rest
  else if Source.atMark (p :: rest) then
    lexer.takeMark (if p.char = '-' then .documentStart else .documentEnd) (rest.drop 2)
  else if p.char = '[' then lexer.takeOpening .openBracket p rest
  else if p.char = '\x7b' then lexer.takeOpening .openBrace p rest
  else if p.char = ']' then lexer.takeClosing .closeBracket rest
  else if p.char = '\x7d' then lexer.takeClosing .closeBrace rest
  else if p.char = ',' then do .ok ((← lexer.forgetKey).take .comma rest true)
  else if p.char = '-' && Source.atGap rest then
    lexer.takeIndicator .blockSequence .hyphen true p rest
  else if p.char = '?' && isAlone then
    lexer.takeIndicator .blockMapping .key (!inFlow) p rest
  else if p.char = ':' && isAlone then lexer.takeColon p rest
  else if p.char = '*' then
    lexer.takePart p ((readName rest).map fun (name, rest) => (.alias name, rest))
  else if p.char = '&' then
    lexer.takePart p ((readName rest).map fun (name, rest) => (.anchor name, rest))
  else if p.char = '!' then
    lexer.takePart p ((Tag.read inFlow rest).map fun (tag, rest) => (.tag tag, rest))
  else if p.char = '|' && !inFlow then lexer.takeBlock .literal rest
  else if p.char = '>' && !inFlow then lexer.takeBlock .folded rest
  else if p.char = '\'' then
    lexer.takePart p
      ((Quoted.readSingle rest).map fun (text, rest) => (.scalar .singleQuoted text, rest))
  else if p.char = '"' then
    lexer.takePart p
      ((Quoted.readDouble rest).map fun (text, rest) => (.scalar .doubleQuoted text, rest))
  else if startsPlain inFlow p.char rest then lexer.takePlain p rest
  else .error .badStart

/-- The document from its next token on. -/
def skip (lexer : Lexer) : Lexer :=
  let (source, keyAllowed) := skipFrom lexer.inFlow false lexer.keyAllowed lexer.source
  { lexer with source, keyAllowed }

/-- All tokens, if there are fewer than the bound. -/
def run : (bound : Nat) → Lexer → Except Error (Array Token)
  | 0, _ => .error .badStart
  | bound + 1, lexer =>
    let lexer := lexer.skip
    match lexer.source with
    | [] => do .ok (← (lexer.close 0).forgetKey).tokens
    | p :: rest => do run bound (← lexer.takeToken p rest)

end Lexer

/-- The tokens of a document. -/
def tokens (document : Text) : Except Error (List Token) :=
  if document.all isDocumentCharacter then
    (Lexer.run (document.length + 1) (.ofSource (.ofText document))).map Array.toList
  else .error .controlCharacter

end HostKit.Yaml
