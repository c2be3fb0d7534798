import HostKit.Text.Printable
import HostKit.Text.Extending

/-!
# Quoted text

A text in double quotes, as messages show it: quotes, backslashes and the usual control
characters are written with a backslash, and every character that is not printable, or that
would attach itself to its neighbour, by its code point in hexadecimal.
-/

namespace HostKit.Text

/-- The small hexadecimal digits of a number, without leading zeros. -/
def hexadecimal (n : Nat) : Text := Nat.toDigits 16 n

/-- A character inside quotes of the given kind. -/
def escapeFor (quote : Char) (c : Char) : Text :=
  if c = '\x00' then "\\0"
  else if c = '\t' then "\\t"
  else if c = '\r' then "\\r"
  else if c = '\n' then "\\n"
  else if c = '\\' then "\\\\"
  else if c = quote then ['\\', quote]
  else if isExtending c || !isPrintable c then "\\u\x7b" ++ hexadecimal c.toNat ++ "\x7d"
  else [c]

/-- The text in double quotes. -/
def quoted (t : Text) : Text := '"' :: t.flatMap (escapeFor '"') ++ ['"']

/-- A character in single quotes. -/
def quotedChar (c : Char) : Text := '\'' :: escapeFor '\'' c ++ ['\'']

end HostKit.Text
