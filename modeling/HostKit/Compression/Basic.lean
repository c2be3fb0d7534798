import HostKit.Compression.Lz4
import HostKit.Compression.Zlib

/-!
# Compression

Two compression codecs: LZ4 blocks with the size of the data in front, and zlib containers
with a level of effort. A format leaves open which of many encodings is chosen, so the encoders are
a parameter; the plain ones are of this library. Decompressing what any encoder of the format made
gives the data back.
-/

namespace HostKit

/-- The compression codecs. -/
inductive CompressionCodec where
  | lz4 | zlib
  deriving Repr, DecidableEq

/-- How data is encoded: as an LZ4 block, and as a zlib container by the level of effort. -/
structure Encoders where
  lz4 : Bytes → Bytes
  zlib : Nat → Bytes → Bytes

/-- The encoders of this library. -/
def Encoders.plain : Encoders := ⟨Lz4.encode, Zlib.encode⟩

namespace Compression

/-- The data compressed as an LZ4 block, with its size in front. -/
def compressLz4 (encoders : Encoders) (data : Bytes) : Bytes :=
  Lz4.sizeBytes data.length ++ encoders.lz4 data

/-- The data of an LZ4 block. -/
def decompressLz4 (packed : Bytes) : Except Failure Bytes :=
  (Lz4.decode packed).mapError fun error => .codec "lz4" error.message

/-- The data in a zlib container, compressed with the effort of a level up to nine. -/
def compressZlib (encoders : Encoders) (data : Bytes) (level : Nat) : Except Failure Bytes :=
  if Zlib.maxLevel < level then
    .error (.invalidArgument ("zlib level must be between 0 and 9, got " ++ Text.ofNat level))
  else .ok (encoders.zlib level data)

/-- The data of a zlib container. -/
def decompressZlib (packed : Bytes) : Except Failure Bytes :=
  (Zlib.decode packed).mapError fun error => .codec "zlib" error.message

end Compression

namespace CompressionCodec

/-- The data in compressed form. -/
def compress (codec : CompressionCodec) (encoders : Encoders) (data : Bytes) :
    Except Failure Bytes :=
  match codec with
  | lz4 => .ok (Compression.compressLz4 encoders data)
  | zlib => Compression.compressZlib encoders data Zlib.defaultLevel

/-- The data that compressed data stands for. -/
def decompress (codec : CompressionCodec) (packed : Bytes) : Except Failure Bytes :=
  match codec with
  | lz4 => Compression.decompressLz4 packed
  | zlib => Compression.decompressZlib packed

end CompressionCodec
end HostKit
