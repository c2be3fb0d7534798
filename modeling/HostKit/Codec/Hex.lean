import HostKit.Failure

/-!
# Hexadecimal

Every byte is written as two small hexadecimal digits; reading takes digits of either case.
-/

namespace HostKit.Hex

/-- Why a text could not be read. -/
inductive Error where
  | oddLength
  | invalidDigit (byte : UInt8) (position : Nat)
  deriving Repr, DecidableEq

/-- The wording of an error. -/
def Error.message : Error → Text
  | .oddLength => "Odd number of digits"
  | .invalidDigit byte position =>
    "Invalid character " ++ Text.quotedChar (Char.ofNat byte.toNat) ++ " at position "
      ++ Text.ofNat position

/-- A digit below sixteen, as a byte. -/
def digit (value : Nat) : UInt8 := if value < 10 then (value + 48).toUInt8 else (value + 87).toUInt8

/-- The value of a digit. -/
def value? (byte : UInt8) : Option Nat :=
  let n := byte.toNat
  if 48 ≤ n ∧ n ≤ 57 then some (n - 48)
  else if 97 ≤ n ∧ n ≤ 102 then some (n - 87)
  else if 65 ≤ n ∧ n ≤ 70 then some (n - 55)
  else none

/-- The digits of the data. -/
def encode (data : Bytes) : Bytes :=
  data.flatMap fun b => [digit (b.toNat / 16), digit (b.toNat % 16)]

/-- The value of the digit at a position. -/
def valueAt (position : Nat) (byte : UInt8) : Except Error Nat :=
  match value? byte with
  | some value => .ok value
  | none => .error (.invalidDigit byte position)

/-- The data that pairs of digits stand for, the first of them at the position given. -/
def decodePairs (position : Nat) : Bytes → Except Error Bytes
  | high :: low :: rest => do
    let h ← valueAt position high
    let l ← valueAt (position + 1) low
    let later ← decodePairs (position + 2) rest
    .ok ((h * 16 + l).toUInt8 :: later)
  | _ => .ok []

/-- The data that the digits stand for. -/
def decode (digits : Bytes) : Except Error Bytes :=
  if digits.length % 2 = 1 then .error .oddLength else decodePairs 0 digits

end HostKit.Hex
