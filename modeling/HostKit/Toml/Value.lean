import HostKit.Decimal.Binary64

/-!
# TOML values

A document is a table. While a document is read, a table also remembers how it came about,
since that decides what may still be added to it: a table that a header named is finished by
the next header with its name, one that only stands on the way to another may still get a
header of its own, and one made by dotted keys may only be extended by dotted keys.
-/

namespace HostKit.Toml

/-- How a table came about. -/
inductive Origin where
  /-- Named by a header, or the document itself. -/
  | header
  /-- On the way to a table that a header names. -/
  | onTheWay
  /-- On the way of a dotted key. -/
  | dotted
  /-- Written between braces. -/
  | braces
  deriving Repr, DecidableEq

/-- A value. An array is open if headers in double brackets made it. -/
inductive Value where
  | string (text : Text)
  | integer (value : Int)
  | float (value : Binary64)
  /-- A floating point number too large to be finite. -/
  | tooLarge
  | boolean (value : Bool)
  | dateTime (text : Text)
  | array (isOpen : Bool) (items : List Value)
  | table (origin : Origin) (entries : List (Text × Value))
  deriving Repr

/-- The entries of a table, in the order they were written. -/
abbrev Entries := List (Text × Value)

namespace Entries

/-- The value of a key. -/
def get? (entries : Entries) (key : Text) : Option Value :=
  (entries.find? fun entry => entry.1 = key).map Prod.snd

/-- The entries with the value of a key replaced, or added at the end. -/
def put (entries : Entries) (key : Text) (value : Value) : Entries :=
  if entries.any fun entry => entry.1 = key then
    entries.map fun entry => if entry.1 = key then (key, value) else entry
  else entries ++ [(key, value)]

end Entries
end HostKit.Toml
