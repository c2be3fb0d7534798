/-!
# Words of a number of bits

A word without a sign holds the natural numbers below a power of two. A word with a sign holds
the integers from minus half that power up to half of it, the upper end left out.
-/

namespace HostKit.Word

/-- How many values a word of so many bits has. -/
def size (bits : Nat) : Nat := Nat.pow 2 bits

/-- The largest number in a word without a sign. -/
def largest (bits : Nat) : Nat := size bits - 1

/-- Whether a word without a sign holds the integer. -/
def holds (bits : Nat) (n : Int) : Bool := decide (0 ≤ n) && decide (n < size bits)

/-- Whether a word with a sign holds the integer. -/
def holdsSigned (bits : Nat) (n : Int) : Bool :=
  decide (-(size (bits - 1) : Int) ≤ n) && decide (n < size (bits - 1))

end HostKit.Word
