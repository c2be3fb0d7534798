import HostKit.Decimal.Shortest

/-!
# Floating point numbers as text

A numeral is a row of digits with at most one point in it, at least one digit in all, and a
power of ten after it. Numbers are written with the fewest digits that read back, either all
of them around the point or, far from one, with a power of ten.
-/

namespace HostKit.Numeral

/-- The digits at the front and the text after them. -/
def takeDigits (text : Text) : Text × Text :=
  (text.takeWhile Char.isDigit, text.dropWhile Char.isDigit)

/-- The number that decimal digits stand for. -/
def valueOf (digits : Text) : Nat := digits.foldl (fun n c => n * 10 + (c.toNat - '0'.toNat)) 0

/-- The power of ten after the digits: nothing, or a letter, a sign and digits. -/
def readPower? : Text → Option Int
  | [] => some 0
  | c :: rest =>
    if c = 'e' ∨ c = 'E' then
      let (negative, digits) :=
        match rest with
        | '-' :: digits => (true, digits)
        | '+' :: digits => (false, digits)
        | digits => (false, digits)
      if digits ≠ [] ∧ digits.all Char.isDigit then
        some (if negative then -(valueOf digits : Int) else valueOf digits)
      else none
    else none

/-- The number that a numeral without a sign stands for. -/
def readUnsigned? (negative : Bool) (text : Text) : Option Binary64 :=
  let (whole, rest) := takeDigits text
  let (fraction, rest) :=
    match rest with
    | '.' :: rest => takeDigits rest
    | rest => ([], rest)
  if whole = [] ∧ fraction = [] then none
  else
    (readPower? rest).map fun power =>
      Binary64.ofDecimal negative (valueOf (whole ++ fraction)) (power - fraction.length)

/-- The number that a numeral with an optional sign stands for. -/
def read? : Text → Option Binary64
  | '-' :: text => readUnsigned? true text
  | '+' :: text => readUnsigned? false text
  | text => readUnsigned? false text

/-- The digits around a point that stands after so many of them, a zero where there are none
before it. -/
def positional (digits : Text) (point : Int) : Text :=
  if point ≤ 0 then "0." ++ List.replicate (-point).toNat '0' ++ digits
  else if digits.length ≤ point.toNat then
    digits ++ List.replicate (point.toNat - digits.length) '0' ++ ".0"
  else digits.take point.toNat ++ ['.'] ++ digits.drop point.toNat

/-- The digits with a point after the first one, if there are more, and a power of ten. -/
def scientific (digits : Text) (point : Int) : Text :=
  let mantissa :=
    match digits with
    | first :: second :: rest => first :: '.' :: second :: rest
    | digits => digits
  mantissa ++ "e" ++ Text.ofInt (point - 1)

/-- The sign of a number. -/
def sign (negative : Bool) : Text := if negative then ['-'] else []

/-- A finite number by its digits and the place of its point, as the layout writes them. -/
def layOut (layout : Text → Int → Text) (negative : Bool) (significand : Nat) (exponent : Int) :
    Text :=
  if significand = 0 then sign negative ++ "0.0"
  else
    let (digits, power) := Shortest.decimal significand exponent
    let digits := Nat.toDigits 10 digits
    sign negative ++ layout digits (power + digits.length)

/-- All digits around the point, however many zeros that takes. -/
def plain : Binary64 → Text
  | .nan => "NaN"
  | .infinite negative => sign negative ++ "inf"
  | .finite negative significand exponent => layOut positional negative significand exponent

/-- The digits around the point from 0.00001 up to sixteen places before it, else with a power
of ten. -/
def compactLayout (digits : Text) (point : Int) : Text :=
  if -5 < point ∧ point ≤ 16 then positional digits point else scientific digits point

/-- A finite number in the compact layout. -/
def compact (negative : Bool) (significand : Nat) (exponent : Int) : Text :=
  layOut compactLayout negative significand exponent

end HostKit.Numeral
