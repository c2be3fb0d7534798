import HostKit.Text.Basic

/-!
# The Adler-32 checksum

Two sums modulo the largest prime below 65536: that of the bytes, starting from one, and that
of the first sum after each byte. The checksum is written with the most significant byte
first.
-/

namespace HostKit.Adler32

/-- The modulus of the two sums. -/
def modulus : Nat := 65521

/-- The two sums after one more byte. -/
def step (sums : Nat × Nat) (byte : UInt8) : Nat × Nat :=
  let a := (sums.1 + byte.toNat) % modulus
  (a, (sums.2 + a) % modulus)

/-- The checksum of the data. -/
def checksum (data : Bytes) : Nat :=
  let sums := data.foldl step (1, 0)
  sums.2 * 65536 + sums.1

/-- The four bytes of a checksum. -/
def bytes (sum : Nat) : Bytes :=
  [(sum / 16777216).toUInt8, (sum / 65536).toUInt8, (sum / 256).toUInt8, sum.toUInt8]

end HostKit.Adler32
