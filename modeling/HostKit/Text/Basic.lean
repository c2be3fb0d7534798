/-!
# Text and bytes

Text is a list of characters and data a list of bytes, so that every function on them is a
recursion that a proof can follow. A string literal stands for its characters wherever text
is expected.
-/

namespace HostKit

/-- A piece of text, as its characters. -/
abbrev Text := List Char

/-- A piece of binary data, as its bytes. -/
abbrev Bytes := List UInt8

instance : Coe String Text := ⟨String.toList⟩

namespace Text

/-- Whether the code point lies in one of the ranges, both ends of a range included. -/
def inRanges (ranges : List (Nat × Nat)) (c : Char) : Bool :=
  ranges.any fun range => range.1 ≤ c.toNat && c.toNat ≤ range.2

/-- Whether the text is one of the texts in a list. -/
def isOneOf (t : Text) (texts : List Text) : Bool := texts.any fun other => t = other

/-- The pieces one after the other, with the separator between neighbours. -/
def join (separator : Text) : List Text → Text
  | [] => []
  | [piece] => piece
  | piece :: rest => piece ++ separator ++ join separator rest

/-- The pieces between the occurrences of a character, one more than there are occurrences. -/
def splitOn (separator : Char) : Text → List Text
  | [] => [[]]
  | c :: rest =>
    if c = separator then [] :: splitOn separator rest
    else
      match splitOn separator rest with
      | [] => [[c]]
      | piece :: pieces => (c :: piece) :: pieces

/-- The text before and after the first occurrence of a character, if there is one. -/
def splitFirst? (separator : Char) : Text → Option (Text × Text)
  | [] => none
  | c :: rest =>
    if c = separator then some ([], rest)
    else (splitFirst? separator rest).map fun (before, after) => (c :: before, after)

/-- The decimal text of a natural number. -/
def ofNat (n : Nat) : Text := Nat.toDigits 10 n

/-- The decimal text of an integer, with a minus sign if it is negative. -/
def ofInt (n : Int) : Text := if n < 0 then '-' :: ofNat n.natAbs else ofNat n.natAbs

/-- The text with its ASCII capitals made small. -/
def toLower (t : Text) : Text := t.map Char.toLower

/-- How many bytes the text takes in UTF-8. -/
def utf8Length (t : Text) : Nat := t.foldr (fun c size => c.utf8Size + size) 0

/-- A nibble as a small hexadecimal digit. -/
def hexDigit (n : Nat) : Char := Nat.digitChar (n % 16)

/-- The value of a digit in radices up to thirty-six, letters of either case included. -/
def digitValue? (c : Char) : Option Nat :=
  if '0' ≤ c ∧ c ≤ '9' then some (c.toNat - '0'.toNat)
  else if 'a' ≤ c ∧ c ≤ 'z' then some (c.toNat - 'a'.toNat + 10)
  else if 'A' ≤ c ∧ c ≤ 'Z' then some (c.toNat - 'A'.toNat + 10)
  else none

end Text
end HostKit
