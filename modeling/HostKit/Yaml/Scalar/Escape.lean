import HostKit.Yaml.Source

/-!
# Escapes in double quotes

A backslash stands before a letter that names a character, or before a letter that says how
many hexadecimal digits of a code point follow. Every character that is written with a name
is read back from it; a few more characters may be escaped that need not be.
-/

namespace HostKit.Yaml.Escape

/-- The characters that are written with a name, after their names. -/
def named : List (Char × Char) :=
  [('0', '\x00'), ('a', '\x07'), ('b', '\x08'), ('t', '\t'), ('n', '\n'), ('v', '\x0b'),
   ('f', '\x0c'), ('r', '\r'), ('e', '\x1b'), ('"', '"'), ('\\', '\\'), ('N', '\u0085'),
   ('_', '\u00a0'), ('L', '\u2028'), ('P', '\u2029')]

/-- The names that are read but not written. -/
def readOnly : List (Char × Char) := [('\t', '\t'), (' ', ' '), ('/', '/')]

/-- How many digits follow the letter. -/
def digitCount : Char → Nat
  | 'x' => 2
  | 'u' => 4
  | 'U' => 8
  | _ => 0

/-- The number that hexadecimal digits stand for. -/
def number? (digits : Text) : Option Nat :=
  digits.foldlM (fun n c =>
    match Text.digitValue? c with
    | some value => if value < 16 then some (n * 16 + value) else none
    | none => none) 0

/-- The character that a letter and the digits after it stand for, and how many digits there
are. -/
def read? (letter : Char) (rest : Source) : Option (Char × Nat) :=
  match (named ++ readOnly).lookup letter with
  | some c => some (c, 0)
  | none =>
    let count := digitCount letter
    let digits := (rest.take count).map (·.char)
    if count = 0 ∨ digits.length < count then none
    else
      match number? digits with
      | some n => if n.isValidChar then some (Char.ofNat n, count) else none
      | none => none

/-- A number in so many capital hexadecimal digits. -/
def digits : (count : Nat) → Nat → Text
  | 0, _ => []
  | count + 1, n => digits count (n / 16) ++ [(Text.hexDigit n).toUpper]

/-- The escape of a character. -/
def write (c : Char) : Text :=
  match named.find? fun entry => entry.2 = c with
  | some (letter, _) => ['\\', letter]
  | none =>
    if c.toNat ≤ 0xff then '\\' :: 'x' :: digits 2 c.toNat
    else if c.toNat ≤ 0xffff then '\\' :: 'u' :: digits 4 c.toNat
    else '\\' :: 'U' :: digits 8 c.toNat

end HostKit.Yaml.Escape
