import HostKit.Failure
import HostKit.Word

/-!
# Integers in other radices

A 64-bit integer is written with digits `0`–`9` and `a`–`z` in a radix from two to thirty-six,
a minus sign in front if it is negative. Reading takes digits of either case, any number of
leading zeros and either sign, and ignores blanks around the number.
-/

namespace HostKit.Radix

/-- Why a number could not be written or read. -/
inductive Error where
  | badRadix (radix : Nat)
  | empty
  | invalidDigit
  | tooLarge
  | tooSmall
  deriving Repr, DecidableEq

/-- The failure an error is reported as. -/
def Error.toFailure : Error → Failure
  | .badRadix radix =>
    .invalidArgument ("radix must be between 2 and 36, got " ++ Text.ofNat radix)
  | .empty => .codec "int" "cannot parse integer from empty string"
  | .invalidDigit => .codec "int" "invalid digit found in string"
  | .tooLarge => .codec "int" "number too large to fit in target type"
  | .tooSmall => .codec "int" "number too small to fit in target type"

/-- The digit of a value below thirty-six. -/
def digitChar (value : Nat) : Char :=
  if value < 10 then Char.ofNat ('0'.toNat + value) else Char.ofNat ('a'.toNat + (value - 10))

/-- The digits of a positive number, least significant first; none for zero. -/
def digitsOf (radix : Nat) (n : Nat) : Text :=
  if h : 2 ≤ radix ∧ 0 < n then
    have : n / radix < n := Nat.div_lt_self h.2 h.1
    digitChar (n % radix) :: digitsOf radix (n / radix)
  else []

/-- The text of a natural number. -/
def renderNat (radix n : Nat) : Text := if n = 0 then ['0'] else (digitsOf radix n).reverse

/-- Whether digits go up to this radix. -/
def isRadix (radix : Nat) : Bool := 2 ≤ radix && radix ≤ 36

/-- The text of an integer in the radix. -/
def render (value : Int) (radix : Nat) : Except Error Text :=
  if isRadix radix then
    .ok (if value < 0 then '-' :: renderNat radix value.natAbs else renderNat radix value.natAbs)
  else .error (.badRadix radix)

/-- The magnitude that the digits add to `read`, as long as it does not exceed the limit. -/
def magnitude (radix limit : Nat) (overflow : Error) (read : Nat) : Text → Except Error Nat
  | [] => .ok read
  | c :: rest =>
    match Text.digitValue? c with
    | none => .error .invalidDigit
    | some digit =>
      if radix ≤ digit then .error .invalidDigit
      else if limit < read * radix + digit then .error overflow
      else magnitude radix limit overflow (read * radix + digit) rest

/-- The integer that a text without blanks around it stands for. -/
def parseSigned (radix : Nat) : Text → Except Error Int
  | [] => .error .empty
  | ['-'] => .error .invalidDigit
  | ['+'] => .error .invalidDigit
  | '-' :: digits => (magnitude radix (Word.size 63) .tooSmall 0 digits).map fun n => -(n : Int)
  | '+' :: digits => (magnitude radix (Word.largest 63) .tooLarge 0 digits).map fun n => (n : Int)
  | digits => (magnitude radix (Word.largest 63) .tooLarge 0 digits).map fun n => (n : Int)

/-- The integer that the text stands for in the radix, blanks around it ignored. -/
def parse (text : Text) (radix : Nat) : Except Error Int :=
  if isRadix radix then parseSigned radix (Text.trim text) else .error (.badRadix radix)

end HostKit.Radix
