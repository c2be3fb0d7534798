import HostKit.Decimal.Numeral
import HostKit.Yaml.Error
import HostKit.Word
import HostKit.Yaml.Value

/-!
# The meaning of plain scalars

A plain scalar is null, a truth value, an integer, a float or else a string. Integers may be
written in the radices two, eight, ten and sixteen and must fit 64 bits, with a sign or
without; decimal digits with a zero in front are no number. A text that is written plainly must
therefore not have one of these other meanings.
-/

namespace HostKit.Yaml

/-- Whether the text is a word for nothing. -/
def isNull (text : Text) : Bool :=
  text.isOneOf ["null", "Null", "NULL", "~"]

/-- The truth value that the text is a word for. -/
def bool? (text : Text) : Option Bool :=
  if text.isOneOf ["true", "True", "TRUE"] then some true
  else if text.isOneOf ["false", "False", "FALSE"] then some false
  else none

/-- The text without a sign at its start. -/
def dropSign : Text → Text
  | '+' :: rest | '-' :: rest => rest
  | rest => rest

/-- Whether the text consists of decimal digits, more than one, with a zero in front. -/
def isZeroPadded (text : Text) : Bool :=
  match dropSign text with
  | '0' :: c :: rest => (c :: rest).all Char.isDigit
  | _ => false

/-- The number that digits of the radix stand for. -/
def numberIn? (radix : Nat) (digits : Text) : Option Nat :=
  if digits = [] then none
  else
    digits.foldlM (fun n c =>
      match Text.digitValue? c with
      | some value => if value < radix then some (n * radix + value) else none
      | none => none) 0

/-- The number that digits after the mark of a radix stand for. -/
def markedNumber? : Text → Option Nat
  | '0' :: 'x' :: digits => numberIn? 16 digits
  | '0' :: 'o' :: digits => numberIn? 8 digits
  | '0' :: 'b' :: digits => numberIn? 2 digits
  | _ => none

/-- The number that digits stand for, unless they are padded with a zero. -/
def unsigned? (text : Text) : Option Nat :=
  match markedNumber? text with
  | some n => some n
  | none => if isZeroPadded text then none else numberIn? 10 text

/-- The integer that a text stands for, however large. -/
def integer? : Text → Option Int
  | '-' :: rest => (unsigned? rest).map fun n => -(n : Int)
  | '+' :: rest => (unsigned? rest).map fun n => (n : Int)
  | rest => (unsigned? rest).map fun n => (n : Int)

/-- What an integer is to a reader of integers of so many bits at most, with a sign or
without. -/
inductive Magnitude where
  /-- It fits 64 bits. -/
  | fits
  /-- It fits 128 bits only. -/
  | tooLarge
  /-- It fits no integer at all. -/
  | notInteger
  deriving Repr, DecidableEq

/-- How large an integer is. -/
def Magnitude.of (n : Int) : Magnitude :=
  if Word.holdsSigned 64 n || Word.holds 64 n then .fits
  else if Word.holdsSigned 128 n || Word.holds 128 n then .tooLarge
  else .notInteger

/-- The finite number that a numeral stands for. -/
def finite? (text : Text) : Option Binary64 :=
  match Numeral.read? text with
  | some x => if x.isFinite then some x else none
  | none => none

/-- The float that a text stands for. -/
def float? (text : Text) : Option Binary64 :=
  let infinities : List Text := [".inf", ".Inf", ".INF"]
  if text.isOneOf [".nan", ".NaN", ".NAN"] then some .nan
  else
    match text with
    | '+' :: '+' :: _ | '+' :: '-' :: _ => none
    | '+' :: rest => if Text.isOneOf rest infinities then some (.infinite false) else finite? rest
    | '-' :: rest => if Text.isOneOf rest infinities then some (.infinite true) else finite? text
    | _ => if text.isOneOf infinities then some (.infinite false) else finite? text

/-- The integer that a text stands for as a value, if it is one. -/
def integerValue? (text : Text) : Option (Except Error Value) :=
  match integer? text with
  | none => none
  | some n =>
    match Magnitude.of n with
    | .fits => some (.ok (.int n))
    | .tooLarge => some (.error .tooLarge)
    | .notInteger => none

/-- The meaning of a plain scalar. -/
def resolve (text : Text) : Except Error Value :=
  if text = [] ∨ isNull text then .ok .null
  else
    match bool? text with
    | some b => .ok (.bool b)
    | none =>
      match integerValue? text with
      | some result => result
      | none =>
        if isZeroPadded text then .ok (.string text)
        else
          match float? text with
          | some x => .ok (.float x)
          | none => .ok (.string text)

/-- Whether a text that is written plainly is read as itself. -/
def isPlainString (text : Text) : Bool :=
  !isZeroPadded text &&
    match resolve text with
    | .ok (.string _) => true
    | _ => false

end HostKit.Yaml
