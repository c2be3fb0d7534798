import HostKit.Text.Basic
import HostKit.Word

/-!
# Binary floating point numbers of 64 bits

A finite number is an integer of at most 53 bits times a power of two; the power is at least
2 ^ -1074, and above that the integer uses all 53 bits. A ratio is rounded to the nearest such
number, a tie to the one with the even integer, and what is too large becomes infinite. All
arithmetic is on natural numbers and exact.
-/

namespace HostKit

/-- A floating point number. -/
inductive Binary64 where
  | nan
  | infinite (negative : Bool)
  | finite (negative : Bool) (significand : Nat) (exponent : Int)
  deriving Repr, DecidableEq

namespace Binary64

/-- The smallest exponent of two. -/
def minExponent : Int := -1074

/-- The largest exponent of two. -/
def maxExponent : Int := 971

/-- The least integer that uses all 53 bits. -/
def minNormal : Nat := Word.size 52

/-- Zero, with a sign. -/
def zero (negative : Bool) : Binary64 := finite negative 0 minExponent

/-- The quotient rounded to the nearest integer, a tie to the even one. -/
def roundDiv (num den : Nat) : Nat :=
  let q := num / den
  let r := num % den
  if 2 * r < den then q else if den < 2 * r then q + 1 else q + q % 2

/-- A power as a fraction: the exponent's positive part above, its negative part below. -/
def powerOver (base : Nat) (exponent : Int) : Nat × Nat :=
  (base.pow exponent.toNat, base.pow (-exponent).toNat)

/-- The ratio divided by a power of two and rounded. -/
def significandAt (num den : Nat) (exponent : Int) : Nat :=
  let (above, below) := powerOver 2 exponent
  roundDiv (num * below) (den * above)

/-- The exponent at which a positive ratio has an integer of 53 bits, from the sizes of its
parts. -/
def scaleOf (num den : Nat) : Int :=
  let guess : Int := (num.log2 : Int) - (den.log2 : Int) - 53
  let (above, below) := powerOver 2 guess
  if den * above * Word.size 53 ≤ num * below then guess + 1 else guess

/-- The number with a sign, an integer and an exponent, unless it is too large. -/
def bounded (negative : Bool) (significand : Nat) (exponent : Int) : Binary64 :=
  if maxExponent < exponent then infinite negative else finite negative significand exponent

/-- The number with a sign, a rounded integer and an exponent. Rounding may have made the integer
one bit longer. -/
def carried (negative : Bool) (significand : Nat) (exponent : Int) : Binary64 :=
  if significand = Word.size 53 then bounded negative minNormal (exponent + 1)
  else bounded negative significand exponent

/-- The number nearest to a ratio. -/
def ofRatio (negative : Bool) (num den : Nat) : Binary64 :=
  if num = 0 then zero negative
  else
    let exponent := max (scaleOf num den) minExponent
    carried negative (significandAt num den exponent) exponent

/-- The number nearest to an integer times a power of ten. Powers so far out that the result
cannot depend on them are cut short. -/
def ofDecimal (negative : Bool) (digits : Nat) (exponent : Int) : Binary64 :=
  if digits = 0 then zero negative
  else
    let size : Int := (Nat.toDigits 10 digits).length
    if 310 < size + exponent then infinite negative
    else if size + exponent < -330 then zero negative
    else
      let (above, below) := powerOver 10 exponent
      ofRatio negative (digits * above) below

/-- The number nearest to an integer. -/
def ofNat (n : Nat) : Binary64 := ofRatio false n 1

/-- Whether the number is finite. -/
def isFinite : Binary64 → Bool
  | finite _ _ _ => true
  | _ => false

/-- Equality of values: a number that is none differs from itself, the two zeros are equal. -/
def equal : Binary64 → Binary64 → Bool
  | nan, _ | _, nan => false
  | finite n m e, finite n' m' e' => (m = 0 && m' = 0) || (n = n' && m = m' && e = e')
  | infinite n, infinite n' => n = n'
  | _, _ => false

end Binary64
end HostKit
