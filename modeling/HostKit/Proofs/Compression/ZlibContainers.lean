import HostKit.Compression.Basic
import HostKit.Proofs.Compression.DeflateBlocks

/-!
# The header and the checksum of a zlib container

Every level of effort gives a header that is accepted. Both sums of the checksum stay below the
modulus, so it fits into the four bytes that it is written in, with the most significant one first.
-/

namespace HostKit

namespace Adler32

/-- Both sums stay below the modulus. -/
theorem foldl_step_lt (data : Bytes) {sums : Nat × Nat}
    (h : sums.1 < modulus ∧ sums.2 < modulus) :
    (data.foldl step sums).1 < modulus ∧ (data.foldl step sums).2 < modulus := by
  induction data generalizing sums with
  | nil => exact h
  | cons byte data ih =>
    apply ih
    constructor
    · exact Nat.mod_lt _ (by decide)
    · exact Nat.mod_lt _ (by decide)

/-- A checksum fits into four bytes. -/
theorem checksum_lt (data : Bytes) : checksum data < 2 ^ 32 := by
  have hstart : ((1, 0) : Nat × Nat).1 < modulus ∧ ((1, 0) : Nat × Nat).2 < modulus := by decide
  obtain ⟨hfirst, hsecond⟩ := foldl_step_lt data hstart
  rw [checksum]
  rw [modulus] at hfirst hsecond
  omega

/-- The number of four bytes, the most significant first. -/
def bigEndian (a b c d : UInt8) : Nat :=
  a.toNat * 16777216 + b.toNat * 65536 + c.toNat * 256 + d.toNat

/-- The four bytes of a number below `2 ^ 32` are its value. -/
theorem bigEndian_bytes {n : Nat} (h : n < 2 ^ 32) :
    bigEndian (n / 16777216).toUInt8 (n / 65536).toUInt8 (n / 256).toUInt8 n.toUInt8 = n := by
  have hbyte (m : Nat) : m.toUInt8.toNat = m % 256 := UInt8.toNat_ofNat'
  rw [bigEndian, hbyte, hbyte, hbyte, hbyte]
  omega

end Adler32

namespace Zlib

/-- The header is accepted whatever the effort spent. -/
theorem isHeader_effort (level : Nat) : isHeader method (effort level) = true := by
  rw [effort]
  split
  · decide
  · split
    · decide
    · split <;> decide

/-- A byte is read from its bits. -/
theorem readByte_ofBytes (b : UInt8) (after : Bytes) :
    readByte (Bits.ofBytes (b :: after)) = .ok (b, Bits.ofBytes after) := by
  rw [readByte, Bits.ofBytes_cons, Deflate.readNat_ofNat b.toNat_lt, Success.bind_ok]
  dsimp only
  rw [Nat.toUInt8_eq, UInt8.ofNat_toNat]

end Zlib
end HostKit
