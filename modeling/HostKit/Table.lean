import HostKit.Failure

/-!
# Tables

Rows of cells are drawn in a frame. The first row is the header and is parted from the others
by a rule. Every column is as wide as its widest cell, and a short row is filled up with
empty cells. A title is written into the top rule right after its left corner, but only when
it fits above the first column, so that corners and junctions stay intact.
-/

namespace HostKit.Table

/-- The ways a frame is drawn. -/
inductive Style where
  | ascii | single | double
  deriving Repr, DecidableEq

/-- The left end, the junctions and the right end of a rule. -/
structure Ends where
  left : Char
  junction : Char
  right : Char

/-- The characters of a frame. -/
structure Border where
  horizontal : Char
  vertical : Char
  top : Ends
  middle : Ends
  bottom : Ends

/-- The frame of a style. -/
def Style.border : Style → Border
  | .ascii => ⟨'-', '|', ⟨'+', '+', '+'⟩, ⟨'+', '+', '+'⟩, ⟨'+', '+', '+'⟩⟩
  | .single => ⟨'─', '│', ⟨'┌', '┬', '┐'⟩, ⟨'├', '┼', '┤'⟩, ⟨'└', '┴', '┘'⟩⟩
  | .double => ⟨'═', '║', ⟨'╔', '╦', '╗'⟩, ⟨'╠', '╬', '╣'⟩, ⟨'╚', '╩', '╝'⟩⟩

/-- The style of that name, in capitals or not. -/
def Style.ofName? (name : Text) : Option Style :=
  let plain := Text.toLower name
  if plain = "ascii" then some .ascii
  else if plain = "single" then some .single
  else if plain = "double" then some .double
  else none

/-- The style of that name, or a failure that lists the names there are. -/
def Style.ofName (name : Text) : Except Failure Style :=
  match Style.ofName? name with
  | some style => .ok style
  | none => .error (.invalidArgument
      ("unknown table style " ++ Text.quoted name ++ ", expected one of: ascii, single, double"))

/-- How many columns the rows need. -/
def columnCount (rows : List (List Text)) : Nat := rows.foldr (fun row n => max row.length n) 0

/-- The length of the longest cell in a column. -/
def columnWidth (rows : List (List Text)) (column : Nat) : Nat :=
  rows.foldr (fun row n => max (row.getD column []).length n) 0

/-- The length of the longest cell of each column. -/
def columnWidths (rows : List (List Text)) : List Nat :=
  (List.range (columnCount rows)).map (columnWidth rows)

/-- A horizontal rule over columns of the given widths. -/
def rule (horizontal : Char) (ends : Ends) (widths : List Nat) : Text :=
  ends.left ::
    Text.join [ends.junction] (widths.map fun width => List.replicate (width + 2) horizontal)
    ++ [ends.right]

/-- A cell with a blank on either side, filled up to the width of its column. -/
def cell (content : Text) (width : Nat) : Text :=
  ' ' :: content ++ List.replicate (width - content.length) ' ' ++ [' ']

/-- One cell for each width, empty ones where the row is too short. -/
def cells : (widths : List Nat) → (row : List Text) → List Text
  | [], _ => []
  | width :: widths, [] => cell [] width :: cells widths []
  | width :: widths, content :: row => cell content width :: cells widths row

/-- A row between vertical bars. -/
def rowLine (vertical : Char) (widths : List Nat) (row : List Text) : Text :=
  vertical :: Text.join [vertical] (cells widths row) ++ [vertical]

/-- The top rule with the title written over it, after the corner, if it fits into the first
segment of the rule. -/
def embedTitle (title topRule : Text) (firstSegment : Nat) : Text :=
  if firstSegment < title.length then topRule
  else topRule.take 1 ++ title ++ topRule.drop (1 + title.length)

/-- The length of the top rule between the left corner and the first junction. -/
def firstSegment (widths : List Nat) : Nat :=
  match widths with
  | [] => 0
  | width :: _ => width + 2

/-- The rows between the rules; the header rule comes after the first row if there are more. -/
def body (border : Border) (widths : List Nat) : List (List Text) → List Text
  | [] => []
  | [header] => [rowLine border.vertical widths header]
  | header :: rows =>
    rowLine border.vertical widths header :: rule border.horizontal border.middle widths ::
      rows.map (rowLine border.vertical widths)

/-- The lines of the drawn table. -/
def blocks (title : Option Text) (rows : List (List Text)) (style : Style) : List Text :=
  let border := style.border
  let widths := columnWidths rows
  let topRule := rule border.horizontal border.top widths
  let topRule :=
    match title with
    | none => topRule
    | some title => embedTitle title topRule (firstSegment widths)
  topRule :: body border widths rows ++ [rule border.horizontal border.bottom widths]

/-- The drawn table, without a line feed at its end. -/
def render (title : Option Text) (rows : List (List Text)) (style : Style) : Text :=
  Text.join ['\n'] (blocks title rows style)

end HostKit.Table
