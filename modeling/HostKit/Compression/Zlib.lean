import HostKit.Compression.Adler32
import HostKit.Compression.DeflateEncoder
import HostKit.Compression.Inflate
import HostKit.Failure

/-!
# The zlib container

Deflated data stands between a header of two bytes and the Adler-32 checksum of the data. The
header names the method and the size of the window and says how much effort was spent; as a
number, the most significant byte first, it is divisible by 31. What follows the checksum is
not looked at.
-/

namespace HostKit.Zlib

open Deflate (Error)

/-- The first byte of the header: deflate with a window of 32 768 bytes. -/
def method : UInt8 := 0x78

/-- The second byte of the header, by the effort spent. -/
def effort (level : Nat) : UInt8 :=
  if level ≤ 1 then 0x01 else if level ≤ 5 then 0x5e else if level = 6 then 0x9c else 0xda

/-- The levels of effort go up to this one. -/
def maxLevel : Nat := 9

/-- The effort spent when nothing else is asked for. -/
def defaultLevel : Nat := 6

/-- The data in its container. -/
def encode (level : Nat) (data : Bytes) : Bytes :=
  method :: effort level :: (Deflate.encode level data ++ Adler32.bytes (Adler32.checksum data))

/-- Whether the two bytes are a header: divisible by 31, without a preset dictionary, deflate
with a window of at most 32 768 bytes. -/
def isHeader (first second : UInt8) : Bool :=
  (first.toNat * 256 + second.toNat) % 31 = 0 && second.toNat / 32 % 2 = 0
    && first.toNat % 16 = 8 && first.toNat / 16 ≤ 7

/-- A byte from the front of the bits. -/
def readByte (bits : Bits) : Except Error (UInt8 × Bits) := do
  let (n, rest) ← Deflate.readNat 8 bits
  .ok (n.toUInt8, rest)

/-- The checksum at the end of the container, from the next full byte on. -/
def readChecksum (bits : Bits) : Except Error Bytes := do
  let (a, bits) ← readByte bits.align
  let (b, bits) ← readByte bits
  let (c, bits) ← readByte bits
  let (d, _) ← readByte bits
  .ok [a, b, c, d]

/-- The data in a container. -/
def decode : Bytes → Except Error Bytes
  | first :: second :: stream =>
    if isHeader first second then do
      let (out, rest) ← Deflate.readBlocks #[] (Bits.ofBytes stream)
      let data := out.toList
      let sum ← readChecksum rest
      if sum = Adler32.bytes (Adler32.checksum data) then .ok data else .error .corrupt
    else .error .corrupt
  | _ => .error .incomplete

end HostKit.Zlib
