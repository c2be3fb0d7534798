import HostKit.Decimal.Binary64

/-!
# Shortest decimal digits

The numbers that round to a given floating point number form an interval, whose ends belong
to it if the integer part of the number is even. Among the decimals in it those with the
fewest digits are wanted, and of these the nearest one, a tie going to the even digit.
Grids of one digit, two digits and so on are tried in turn: if any point of a grid lies in
the interval, one of the two neighbours of the number on that grid does.
-/

namespace HostKit.Shortest

/-- A positive number as a fraction. -/
structure Ratio where
  num : Nat
  den : Nat

/-- Whether the first fraction is smaller. -/
def Ratio.lt (a b : Ratio) : Bool := a.num * b.den < b.num * a.den

/-- An integer times a power of two. -/
def Ratio.ofBinary (significand : Nat) (exponent : Int) : Ratio :=
  let (above, below) := Binary64.powerOver 2 exponent
  ⟨significand * above, below⟩

/-- An integer times a power of ten. -/
def Ratio.ofDecimal (digits : Nat) (exponent : Int) : Ratio :=
  let (above, below) := Binary64.powerOver 10 exponent
  ⟨digits * above, below⟩

/-- The decimals that round to a number. -/
structure Interval where
  low : Ratio
  high : Ratio
  closed : Bool

/-- The interval of an integer times a power of two. -/
def Interval.of (significand : Nat) (exponent : Int) : Interval :=
  let low :=
    if significand = Binary64.minNormal ∧ Binary64.minExponent < exponent then
      Ratio.ofBinary (4 * significand - 1) (exponent - 2)
    else Ratio.ofBinary (2 * significand - 1) (exponent - 1)
  ⟨low, Ratio.ofBinary (2 * significand + 1) (exponent - 1), significand % 2 = 0⟩

/-- Whether the fraction lies in the interval. -/
def Interval.contains (interval : Interval) (x : Ratio) : Bool :=
  if interval.closed then !x.lt interval.low && !interval.high.lt x
  else interval.low.lt x && x.lt interval.high

/-- The power of ten below the number: its decimal point stands after so many digits. -/
def pointPosition (x : Ratio) : Int :=
  let estimate : Int := ((Nat.toDigits 10 x.num).length : Int) - (Nat.toDigits 10 x.den).length
  if x.lt (Ratio.ofDecimal 1 estimate) then estimate else estimate + 1

/-- The nearest point on the grid of a power of ten, if it or its neighbour on the other side
of the number lies in the interval. -/
def onGrid? (interval : Interval) (x : Ratio) (exponent : Int) : Option Nat :=
  let (above, below) := Binary64.powerOver 10 exponent
  let num := x.num * below
  let den := x.den * above
  let floor := num / den
  let nearest := Binary64.roundDiv num den
  let other := if nearest = floor then floor + 1 else floor
  if interval.contains (Ratio.ofDecimal nearest exponent) then some nearest
  else if interval.contains (Ratio.ofDecimal other exponent) then some other
  else none

/-- The first grid with a point in the interval, of so many grids at most, each finer than the
one before. -/
def search (interval : Interval) (x : Ratio) (exponent : Int) : (grids : Nat) → Nat × Int
  | 0 => (0, exponent)
  | grids + 1 =>
    match onGrid? interval x exponent with
    | some digits => (digits, exponent)
    | none => search interval x (exponent - 1) grids

/-- An integer without the zeros at its end, and the power of ten that makes up for them. -/
def dropZeros (digits : Nat) (exponent : Int) : Nat × Int :=
  if h : 0 < digits ∧ digits % 10 = 0 then
    have : digits / 10 < digits := by omega
    dropZeros (digits / 10) (exponent + 1)
  else (digits, exponent)

/-- The fewest digits that read back as the positive number, and their power of ten. -/
def decimal (significand : Nat) (exponent : Int) : Nat × Int :=
  let x := Ratio.ofBinary significand exponent
  let (digits, power) :=
    search (.of significand exponent) x (pointPosition x - 1) 18
  dropZeros digits power

end HostKit.Shortest
