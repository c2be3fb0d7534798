import HostKit.Toml.Scalar

/-!
# TOML documents

A document is a row of statements: a key with its value, or a header that names the table for
the keys after it. Reading the statements is a matter of the text alone; putting them together
decides whether a key or a table is defined twice.

Reading is bounded by the length of the text: every step deeper and every step further takes
a character, so a bound of one more than the length is never reached.
-/

namespace HostKit.Toml

/-- A statement of a document. -/
inductive Statement where
  | entry (path : List Text) (key : Text) (value : Value)
  | table (path : List Text) (key : Text)
  | arrayTable (path : List Text) (key : Text)
  deriving Repr

/-! ## Putting statements together -/

/-- Change the table that a path leads to. Tables on the way that are not there are made;
`dotted` says whether the path is a dotted key. -/
def descend (dotted : Bool) (change : Origin → Entries → Except Error (Origin × Entries)) :
    List Text → Origin → Entries → Except Error (Origin × Entries)
  | [], origin, entries => change origin entries
  | key :: rest, origin, entries => do
    match Entries.get? entries key with
    | none =>
      let (o, e) ← descend dotted change rest (if dotted then .dotted else .onTheWay) []
      .ok (origin, Entries.put entries key (.table o e))
    | some (.table .braces _) => .error .duplicate
    | some (.table o e) =>
      if dotted ∧ o = .header then .error .duplicate
      else
        let (o, e) ← descend dotted change rest o e
        .ok (origin, Entries.put entries key (.table o e))
    | some (.array true items) =>
      match items.getLast? with
      | some (.table o e) =>
        let (o, e) ← descend dotted change rest o e
        .ok (origin, Entries.put entries key (.array true (items.dropLast ++ [.table o e])))
      | _ => .error .duplicate
    | some _ => .error .duplicate

/-- Add a key to the table that a dotted key leads to from here. Such a table must have been
made by dotted keys. -/
def defineEntry (path : List Text) (key : Text) (value : Value) :
    Origin → Entries → Except Error (Origin × Entries) :=
  descend true (fun origin entries =>
    if path ≠ [] ∧ origin ≠ .dotted then .error .duplicate
    else if (Entries.get? entries key).isSome then .error .duplicate
    else .ok (origin, entries ++ [(key, value)])) path

/-- Name a table by a header. -/
def defineTable (path : List Text) (key : Text) :
    Origin → Entries → Except Error (Origin × Entries) :=
  descend false (fun origin entries =>
    match Entries.get? entries key with
    | none => .ok (origin, entries ++ [(key, .table .header [])])
    | some (.table .onTheWay e) => .ok (origin, Entries.put entries key (.table .header e))
    | some _ => .error .duplicate) path

/-- Add a table to an array by a header in double brackets. -/
def defineArrayTable (path : List Text) (key : Text) :
    Origin → Entries → Except Error (Origin × Entries) :=
  descend false (fun origin entries =>
    match Entries.get? entries key with
    | none => .ok (origin, entries ++ [(key, .array true [.table .header []])])
    | some (.array true items) =>
      .ok (origin, Entries.put entries key (.array true (items ++ [.table .header []])))
    | some _ => .error .duplicate) path

/-- The document after one more statement; `current` is the path of the last header. -/
def addStatement (current : List Text) (entries : Entries) :
    Statement → Except Error (List Text × Entries)
  | .entry path key value => do
    let (_, entries) ← descend false (defineEntry path key value) current .header entries
    .ok (current, entries)
  | .table path key => do
    let (_, entries) ← defineTable path key .header entries
    .ok (path ++ [key], entries)
  | .arrayTable path key => do
    let (_, entries) ← defineArrayTable path key .header entries
    .ok (path ++ [key], entries)

/-- The table that the statements make. -/
def assemble (current : List Text) (entries : Entries) : List Statement → Except Error Entries
  | [] => .ok entries
  | statement :: rest => do
    let (current, entries) ← addStatement current entries statement
    assemble current entries rest

/-! ## Reading statements -/

/-- Blanks and tabs dropped from the front. -/
def dropSpace (text : Text) : Text := text.dropWhile isSpace

/-- What follows a comment, whose mark is gone. -/
def afterComment : Text → Except Error Text
  | [] => .ok []
  | '\n' :: rest => .ok ('\n' :: rest)
  | '\r' :: '\n' :: rest => .ok ('\n' :: rest)
  | c :: rest => if isPlain c then afterComment rest else .error .malformed

/-- What follows blanks, line ends and comments, in so many steps at most. -/
def skipTrivia : (steps : Nat) → Text → Except Error Text
  | 0, text => .ok text
  | steps + 1, text =>
    match text with
    | '#' :: rest => do skipTrivia steps (← afterComment rest)
    | '\r' :: '\n' :: rest => skipTrivia steps rest
    | c :: rest => if isSpace c ∨ c = '\n' then skipTrivia steps rest else .ok text
    | [] => .ok []

/-- What follows blanks, line ends and comments. -/
def dropTrivia (text : Text) : Except Error Text := skipTrivia (text.length + 1) text

/-- What follows the end of a line, which may have blanks and a comment before it. -/
def endLine (text : Text) : Except Error Text := do
  let text ←
    match dropSpace text with
    | '#' :: rest => afterComment rest
    | rest => .ok rest
  match text with
  | [] => .ok []
  | '\n' :: rest => .ok rest
  | '\r' :: '\n' :: rest => .ok rest
  | _ => .error .malformed

/-- One name of a key. -/
def readName (text : Text) : Except Error (Text × Text) :=
  match text with
  | '"' :: rest => basicString rest
  | '\'' :: rest => literalString rest
  | text =>
    let name := text.takeWhile isKeyCharacter
    if name = [] then .error .malformed else .ok (name, text.drop name.length)

/-- A key of names with dots between them, of so many names at most. -/
def readPath : (names : Nat) → Text → Except Error (List Text × Text)
  | 0, _ => .error .malformed
  | names + 1, text => do
    let (name, rest) ← readName (dropSpace text)
    match dropSpace rest with
    | '.' :: rest => do
      let (path, rest) ← readPath names rest
      .ok (name :: path, rest)
    | rest => .ok ([name], rest)

/-- A key, as the names before its last one and that one. -/
def readKey (text : Text) : Except Error (List Text × Text × Text) := do
  let (path, rest) ← readPath (text.length + 1) text
  match path.getLast? with
  | some key => .ok (path.dropLast, key, rest)
  | none => .error .malformed

/-- Whether a word ends before the character. -/
def endsWord (c : Char) : Bool :=
  isSpace c || c = '\n' || c = '\r' || c = ',' || c = ']' || c = '\x7d' || c = '#'

/-- A scalar without quotes. A date may be parted from its time by a blank. -/
def readWord (text : Text) : Except Error (Value × Text) :=
  let word := text.takeWhile fun c => !endsWord c
  let rest := text.drop word.length
  let (word, rest) :=
    match afterDate? word, rest with
    | some [], ' ' :: d :: later =>
      if d.isDigit then
        let time := (d :: later).takeWhile fun c => !endsWord c
        (word ++ ' ' :: time, (d :: later).drop time.length)
      else (word, rest)
    | _, _ => (word, rest)
  match scalar? word with
  | some value => .ok (value, rest)
  | none => .error .malformed

/-- How deeply brackets and braces may be nested. -/
def maxDepth : Nat := 79

mutual

/-- A value; `room` is how many brackets may still be opened. -/
def readValue (room : Nat) : (bound : Nat) → Text → Except Error (Value × Text)
  | 0, _ => .error .malformed
  | bound + 1, text =>
    match text with
    | '[' :: rest =>
      match room with
      | 0 => .error .tooDeep
      | room + 1 => readItems room bound [] rest
    | '\x7b' :: rest =>
      match room with
      | 0 => .error .tooDeep
      | room + 1 => readEntries room bound [] rest
    | '"' :: _ | '\'' :: _ => (readString text).map fun (t, rest) => (.string t, rest)
    | text => readWord text

/-- The items of an array after those read so far. -/
def readItems (room : Nat) : (bound : Nat) → List Value → Text → Except Error (Value × Text)
  | 0, _, _ => .error .malformed
  | bound + 1, items, text => do
    match ← dropTrivia text with
    | ']' :: rest => .ok (.array false items, rest)
    | text =>
      let (item, rest) ← readValue room bound text
      match ← dropTrivia rest with
      | ',' :: rest => readItems room bound (items ++ [item]) rest
      | ']' :: rest => .ok (.array false (items ++ [item]), rest)
      | _ => .error .malformed

/-- The entries of a table in braces after those read so far. -/
def readEntries (room : Nat) : (bound : Nat) → Entries → Text → Except Error (Value × Text)
  | 0, _, _ => .error .malformed
  | bound + 1, entries, text => do
    match ← dropTrivia text with
    | '\x7d' :: rest => .ok (.table .braces entries, rest)
    | text =>
      let (path, key, rest) ← readKey text
      match rest with
      | '=' :: rest => do
        let (value, rest) ← readValue room bound (dropSpace rest)
        let (_, entries) ← defineEntry path key value .braces entries
        match ← dropTrivia rest with
        | ',' :: rest => readEntries room bound entries rest
        | '\x7d' :: rest => .ok (.table .braces entries, rest)
        | _ => .error .malformed
      | _ => .error .malformed

end

/-- The statement at the front, and the text after its line. -/
def readStatement (text : Text) : Except Error (Statement × Text) := do
  match text with
  | '[' :: '[' :: rest =>
    let (path, key, rest) ← readKey rest
    match rest with
    | ']' :: ']' :: rest => .ok (.arrayTable path key, ← endLine rest)
    | _ => .error .malformed
  | '[' :: rest =>
    let (path, key, rest) ← readKey rest
    match rest with
    | ']' :: rest => .ok (.table path key, ← endLine rest)
    | _ => .error .malformed
  | text =>
    let (path, key, rest) ← readKey text
    match rest with
    | '=' :: rest =>
      let (value, rest) ← readValue maxDepth (rest.length + 1) (dropSpace rest)
      .ok (.entry path key value, ← endLine rest)
    | _ => .error .malformed

/-- The statements of a text, so many at most. -/
def readStatements : (bound : Nat) → Text → Except Error (List Statement)
  | 0, _ => .error .malformed
  | bound + 1, text => do
    match ← dropTrivia text with
    | [] => .ok []
    | text =>
      let (statement, rest) ← readStatement text
      let others ← readStatements bound rest
      .ok (statement :: others)

/-- The text without a byte order mark at its start. -/
def dropMark : Text → Text
  | '\ufeff' :: rest => rest
  | text => text

/-- The table that a document is. -/
def parse (document : Text) : Except Error Entries := do
  let statements ← readStatements (document.length + 1) (dropMark document)
  assemble [] [] statements

end HostKit.Toml
