import HostKit.Text.Basic

/-!
# Bits

A bit stream takes the bits of each byte from the least significant one on. Numbers in it
start with their least significant bit.
-/

namespace HostKit

/-- A sequence of bits. -/
abbrev Bits := List Bool

namespace Bits

/-- So many bits of a number, the least significant first. -/
def ofNat : (width : Nat) → (n : Nat) → Bits
  | 0, _ => []
  | width + 1, n => (n % 2 == 1) :: ofNat width (n / 2)

/-- The number whose bits these are, the least significant first. -/
def toNat : Bits → Nat
  | [] => 0
  | b :: bits => b.toNat + 2 * toNat bits

/-- The bits of the data. -/
def ofBytes (data : Bytes) : Bits := data.flatMap fun b => ofNat 8 b.toNat

/-- The data whose bits these are; a last byte is filled up with zeros. -/
def toBytes : Bits → Bytes
  | [] => []
  | b :: bits => (toNat ((b :: bits).take 8)).toUInt8 :: toBytes (bits.drop 7)
  termination_by bits => bits.length
  decreasing_by simp only [List.length_drop, List.length_cons]; omega

/-- A number of so many bits from the front, and the bits after it, if there are as many. -/
def takeNat? : (width : Nat) → Bits → Option (Nat × Bits)
  | 0, bits => some (0, bits)
  | _ + 1, [] => none
  | width + 1, b :: bits =>
    (takeNat? width bits).map fun (n, rest) => (b.toNat + 2 * n, rest)

/-- The bits from the next full byte on. -/
def align (bits : Bits) : Bits := bits.drop (bits.length % 8)

/-- A number taken from the front leaves as many bits fewer. -/
theorem length_of_takeNat? {width : Nat} {bits : Bits} {n : Nat} {rest : Bits}
    (h : takeNat? width bits = some (n, rest)) : bits.length = rest.length + width := by
  induction width generalizing bits n rest with
  | zero => simp [takeNat?] at h; simp [h]
  | succ width ih =>
    cases bits with
    | nil => simp [takeNat?] at h
    | cons b bits =>
      simp only [takeNat?, Option.map_eq_some_iff, Prod.mk.injEq] at h
      obtain ⟨⟨m, r⟩, hr, -, rfl⟩ := h
      have := ih hr
      simp only [List.length_cons]; omega

end Bits
end HostKit
