import HostKit.Proofs.Compression.Lz4Sizes
import HostKit.Proofs.Compression.ZlibStreams

/-!
# Compressed data is decompressed again

Which blocks, codes and copies describe the data is left to the encoder; the round trips hold for
every encoder that keeps to the format. All that is asked of it is a block, or a container, of the
data. The reader takes all of these, whichever of them is chosen, so it finds the data again.
-/

namespace HostKit

namespace Lz4

/-- The encoder writes a block of the data, where the size of the data fits into the four bytes in
front. -/
def IsEncoder (encode : Bytes → Bytes) : Prop :=
  ∀ data : Bytes, data.length < 2 ^ 32 → ∃ block : Block, encode data = block.bytes ∧
    InReach #[] block.sequences ∧ block.data = data

/-- Data is encoded by a block of it. -/
theorem isEncoder_encode : IsEncoder encode := by
  intro data _
  obtain ⟨block, hreach, hbytes, hproduce, -⟩ :=
    decodeBlock_eq_ok_iff.mp (decodeBlock_encode data)
  exact ⟨block, hbytes.symm, hreach, by rw [Block.data, hproduce]⟩

end Lz4

namespace Zlib

/-- A zlib stream of the data: two header bytes whose number is divisible by 31 and the first of
which names the method, deflated data, and the Adler-32 checksum of the data with its most
significant byte first. -/
def IsStream (packed data : Bytes) : Prop :=
  ∃ first second stream a b c d,
    packed = first :: second :: (stream ++ [a, b, c, d]) ∧
    31 ∣ first.toNat * 256 + second.toNat ∧ first.toNat % 16 = 8 ∧
    Deflate.IsStream stream data ∧ Adler32.bigEndian a b c d = Adler32.checksum data

/-- The stream of a container is read as the data of the items, up to its last byte. -/
theorem SpellsContainer.isStream {items : List Lz77.Item} {container : Bytes}
    (h : SpellsContainer items container) : IsStream container (Lz77.expand #[] items).toList := by
  obtain @⟨first, second, a, b, c, d, stream, hdivides, -, hmethod, -, hspells, hchecksum⟩ := h
  obtain ⟨filling, hfilling, hread⟩ := hspells.exists_readBlocks
  have hstream : Deflate.IsStream stream (Lz77.expand #[] items).toList := by
    refine ⟨filling, hfilling, ?_⟩
    simpa [Bits.ofBytes] using hread #[] []
  exact ⟨first, second, stream, a, b, c, d, rfl, hdivides, hmethod, hstream, hchecksum⟩

end Zlib

namespace Compression

variable {encoders : Encoders}

/-! ## LZ4 -/

/-- A block of the data behind its size is decompressed to the data. -/
theorem decompressLz4_of_block {data : Bytes} {block : Lz4.Block}
    (hreach : Lz4.InReach #[] block.sequences) (hdata : block.data = data)
    (h : data.length < 2 ^ 32) :
    decompressLz4 (Lz4.sizeBytes data.length ++ block.bytes) = .ok data := by
  have hsize : data.length = block.size := by rw [← hdata, block.length_data]
  refine decompressLz4_eq_ok_iff.mpr ⟨_, _, _, _, block, rfl, hreach, hdata, hsize, ?_⟩
  rw [Lz4.littleEndian_sizeBytes h]
  exact Nat.le_of_eq hsize.symm

/-- An encoder of the format compresses data below `2 ^ 32` bytes to its size, as four bytes with
the least significant first, and a block of the data; decompressing gives the data back. So does
every other block of the data behind the size. -/
theorem lz4_roundTrip (hencoder : Lz4.IsEncoder encoders.lz4) (data : Bytes)
    (h : data.length < 2 ^ 32) :
    (∃ a b c d, ∃ block : Lz4.Block, compressLz4 encoders data = a :: b :: c :: d :: block.bytes ∧
      Lz4.littleEndian a b c d = data.length ∧ Lz4.InReach #[] block.sequences ∧
      block.data = data) ∧
    decompressLz4 (compressLz4 encoders data) = .ok data ∧
    (CompressionCodec.lz4.compress encoders data >>= CompressionCodec.lz4.decompress) = .ok data ∧
    ∀ block : Lz4.Block, Lz4.InReach #[] block.sequences → block.data = data →
      decompressLz4 (Lz4.sizeBytes data.length ++ block.bytes) = .ok data := by
  obtain ⟨block, hencode, hreach, hdata⟩ := hencoder data h
  have hcompress : compressLz4 encoders data = Lz4.sizeBytes data.length ++ block.bytes := by
    rw [compressLz4, hencode]
  have hdecompress : decompressLz4 (compressLz4 encoders data) = .ok data := by
    rw [hcompress]
    exact decompressLz4_of_block hreach hdata h
  exact ⟨⟨_, _, _, _, block, hcompress, Lz4.littleEndian_sizeBytes h, hreach, hdata⟩, hdecompress,
    hdecompress, fun _ hreach hdata => decompressLz4_of_block hreach hdata h⟩

/-- A single byte is compressed to its size, a token and the byte. -/
theorem lz4_roundTrip_byte :
    compressLz4 .plain [97] = [1, 0, 0, 0, 16, 97] ∧
      decompressLz4 [1, 0, 0, 0, 16, 97] = .ok [97] := by
  have hcompress : compressLz4 .plain [97] = [1, 0, 0, 0, 16, 97] := by
    decide +kernel
  have hencoder : Lz4.IsEncoder Encoders.plain.lz4 := Lz4.isEncoder_encode
  obtain ⟨-, hdecompress, -⟩ := lz4_roundTrip hencoder [97] (by decide)
  rw [hcompress] at hdecompress
  exact ⟨hcompress, hdecompress⟩

/-! ## Zlib -/

/-- A container of the data is decompressed to the data. -/
theorem decompressZlib_of_container {items : List Lz77.Item} {container data : Bytes}
    (h : Zlib.SpellsContainer items container) (hdata : (Lz77.expand #[] items).toList = data) :
    Zlib.IsStream container data ∧ decompressZlib container = .ok data := by
  subst hdata
  exact ⟨h.isStream, decompressZlib_eq_ok_iff.mpr ⟨items, container, [], by simp, h, rfl⟩⟩

/-- At every level up to nine, an encoder of the format compresses data to a zlib stream of it, and
decompressing the stream gives the data back; so does the codec, which leaves the level to the
default. Every other container of the data is such a stream, too, and gives the data back. -/
theorem zlib_roundTrip (hencoder : Zlib.IsEncoder encoders.zlib) (data : Bytes) {level : Nat}
    (hlevel : level ≤ 9) :
    (∃ packed, compressZlib encoders data level = .ok packed ∧ Zlib.IsStream packed data ∧
      decompressZlib packed = .ok data) ∧
    (∃ packed, CompressionCodec.zlib.compress encoders data = .ok packed ∧
      Zlib.IsStream packed data ∧ CompressionCodec.zlib.decompress packed = .ok data) ∧
    ∀ items container, Zlib.SpellsContainer items container →
      (Lz77.expand #[] items).toList = data →
      Zlib.IsStream container data ∧ decompressZlib container = .ok data := by
  have hpacked (level : Nat) (hlevel : level ≤ 9) : ∃ packed,
      compressZlib encoders data level = .ok packed ∧ Zlib.IsStream packed data ∧
        decompressZlib packed = .ok data := by
    obtain ⟨items, hcontainer, hdata⟩ := hencoder level hlevel data
    exact ⟨_, if_neg (Nat.not_lt_of_le hlevel), decompressZlib_of_container hcontainer hdata⟩
  exact ⟨hpacked level hlevel, hpacked Zlib.defaultLevel (by decide),
    fun _ _ => decompressZlib_of_container⟩

/-- A single byte is stored in a container, and found in it again. -/
theorem zlib_roundTrip_byte :
    compressZlib .plain [97] 0 = .ok [120, 1, 1, 1, 0, 254, 255, 97, 0, 98, 0, 98] ∧
      decompressZlib [120, 1, 1, 1, 0, 254, 255, 97, 0, 98, 0, 98] = .ok [97] := by
  have hencoder : Zlib.IsEncoder Encoders.plain.zlib := Zlib.isEncoder_encode
  obtain ⟨⟨packed, hcompress, -, hdecompress⟩, -⟩ :=
    zlib_roundTrip hencoder [97] (Nat.zero_le 9)
  obtain rfl := Except.ok.inj (compressZlib_byte.symm.trans hcompress)
  exact ⟨hcompress, hdecompress⟩

end Compression
end HostKit
