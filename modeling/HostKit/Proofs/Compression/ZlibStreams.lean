import HostKit.Proofs.Compression.DeflateStreams
import HostKit.Proofs.Compression.ZlibContainers

/-!
# What is taken for a zlib container

Data is decompressed exactly if it starts with a complete container: a header, deflated data up to
the end of its last block, and the checksum of what the items in it add up to. Since the deflated
data tells where it ends, no container is a part in front of another one. So one that is cut off
anywhere is reported as an error of the codec, even where only bytes of the checksum are missing.

The standard (RFC 1951) wants every copy to stay within the data. The reader does not check it; a
copy from before the data takes zero bytes, and the checksum decides.
-/

namespace HostKit

namespace Adler32

/-- Four bytes are those of their number. -/
theorem bytes_bigEndian (a b c d : UInt8) : bytes (bigEndian a b c d) = [a, b, c, d] := by
  have ha := a.toNat_lt
  have hb := b.toNat_lt
  have hc := c.toNat_lt
  have hd := d.toNat_lt
  have hbyte {n : Nat} (byte : UInt8) (h : n % 256 = byte.toNat) : n.toUInt8 = byte := by
    apply UInt8.toNat_inj.mp
    rw [Nat.toUInt8_eq, UInt8.toNat_ofNat', ← h]
  rw [bytes, bigEndian, hbyte a (by omega), hbyte b (by omega), hbyte c (by omega),
    hbyte d (by omega)]

end Adler32

namespace Zlib

/-! ## Containers -/

/-- The bytes of a container of the data that the items add up to: two bytes of header that name the
method and a window, without a preset dictionary, a stream, and the checksum of the data. -/
inductive SpellsContainer : List Lz77.Item → Bytes → Prop where
  | mk {items : List Lz77.Item} {first second a b c d : UInt8} {stream : Bytes}
      (divides : 31 ∣ first.toNat * 256 + second.toNat) (noDictionary : second.toNat / 32 % 2 = 0)
      (method : first.toNat % 16 = 8) (window : first.toNat / 16 ≤ 7)
      (spells : Deflate.SpellsStream items stream)
      (checksum : Adler32.bigEndian a b c d =
        Adler32.checksum (Lz77.expand #[] items).toList) :
      SpellsContainer items (first :: second :: (stream ++ [a, b, c, d]))

/-- A header is accepted exactly if it is one of the format. -/
theorem isHeader_iff {first second : UInt8} :
    isHeader first second = true ↔ 31 ∣ first.toNat * 256 + second.toNat ∧
      second.toNat / 32 % 2 = 0 ∧ first.toNat % 16 = 8 ∧ first.toNat / 16 ≤ 7 := by
  rw [isHeader]
  simp only [Bool.and_eq_true, decide_eq_true_eq, Nat.dvd_iff_mod_eq_zero, and_assoc]

/-- A byte is read exactly if there is one. -/
theorem readByte_eq_ok_iff {data : Bytes} {b : UInt8} {rest : Bits} :
    readByte (Bits.ofBytes data) = .ok (b, rest) ↔
      ∃ later, data = b :: later ∧ rest = Bits.ofBytes later := by
  cases data with
  | nil => exact ⟨fun h => (by cases h), fun ⟨_, h, _⟩ => (by cases h)⟩
  | cons first later =>
    rw [readByte_ofBytes]
    constructor
    · intro h
      obtain ⟨rfl, rfl⟩ := Prod.mk.inj (Except.ok.inj h)
      exact ⟨later, rfl, rfl⟩
    · rintro ⟨_, h, rfl⟩
      cases h
      rfl

/-- The checksum is read exactly from the next four bytes. -/
theorem readChecksum_eq_ok_iff {filling : Bits} (hfilling : filling.length < 8)
    {after sum : Bytes} :
    readChecksum (filling ++ Bits.ofBytes after) = .ok sum ↔
      ∃ a b c d rest, after = a :: b :: c :: d :: rest ∧ sum = [a, b, c, d] := by
  rw [readChecksum, Bits.align_append_ofBytes hfilling]
  constructor
  · intro h
    obtain ⟨⟨a, afterA⟩, ha, h⟩ := Success.of_bind h
    obtain ⟨⟨b, afterB⟩, hb, h⟩ := Success.of_bind h
    obtain ⟨⟨c, afterC⟩, hc, h⟩ := Success.of_bind h
    obtain ⟨⟨d, afterD⟩, hd, h⟩ := Success.of_bind h
    obtain ⟨_, rfl, rfl⟩ := readByte_eq_ok_iff.mp ha
    obtain ⟨_, rfl, rfl⟩ := readByte_eq_ok_iff.mp hb
    obtain ⟨_, rfl, rfl⟩ := readByte_eq_ok_iff.mp hc
    obtain ⟨rest, rfl, rfl⟩ := readByte_eq_ok_iff.mp hd
    exact ⟨a, b, c, d, rest, rfl, (Except.ok.inj h).symm⟩
  · rintro ⟨a, b, c, d, rest, rfl, rfl⟩
    rw [readByte_ofBytes, Success.bind_ok]
    dsimp only
    rw [readByte_ofBytes, Success.bind_ok]
    dsimp only
    rw [readByte_ofBytes, Success.bind_ok]
    dsimp only
    rw [readByte_ofBytes, Success.bind_ok]

/-- Data is read exactly from a container of it in front of the bytes. -/
theorem decode_eq_ok_iff {packed out : Bytes} :
    decode packed = .ok out ↔ ∃ items container after, packed = container ++ after ∧
      SpellsContainer items container ∧ (Lz77.expand #[] items).toList = out := by
  constructor
  · intro h
    match packed with
    | [] | [_] => cases h
    | first :: second :: data =>
      rw [decode] at h
      split at h
      · next hheader =>
        obtain ⟨hdivides, hdictionary, hmethod, hwindow⟩ := isHeader_iff.mp hheader
        obtain ⟨⟨produced, rest⟩, hblocks, h⟩ := Success.of_bind h
        obtain ⟨sum, hsum, h⟩ := Success.of_bind h
        obtain ⟨items, stream, later, filling, hstream, hfilling, rfl, rfl, rfl⟩ :=
          Deflate.exists_spellsStream_of_readBlocks hblocks
        obtain ⟨a, b, c, d, after, rfl, rfl⟩ := (readChecksum_eq_ok_iff hfilling).mp hsum
        split at h
        · next hchecksum =>
          obtain rfl := Except.ok.inj h
          refine ⟨items, _, after, ?_,
            .mk hdivides hdictionary hmethod hwindow hstream (a := a) (b := b) (c := c) (d := d) ?_,
            rfl⟩
          · simp only [List.cons_append, List.append_assoc, List.nil_append]
          · simp only [Adler32.bytes, List.cons.injEq, and_true] at hchecksum
            obtain ⟨rfl, rfl, rfl, rfl⟩ := hchecksum
            exact Adler32.bigEndian_bytes (Adler32.checksum_lt _)
        · cases h
      · cases h
  · rintro ⟨items, _, after, rfl, @⟨first, second, a, b, c, d, stream, hdivides, hdictionary,
      hmethod, hwindow, hstream, hchecksum⟩, rfl⟩
    have hheader := isHeader_iff.mpr ⟨hdivides, hdictionary, hmethod, hwindow⟩
    obtain ⟨filling, hfilling, hread⟩ := hstream.exists_readBlocks
    have hsum : readChecksum (filling ++ Bits.ofBytes (a :: b :: c :: d :: after)) =
        .ok [a, b, c, d] := (readChecksum_eq_ok_iff hfilling).mpr ⟨a, b, c, d, after, rfl, rfl⟩
    have hbytes := Adler32.bytes_bigEndian a b c d
    rw [hchecksum] at hbytes
    rw [List.cons_append, List.cons_append, decode, if_pos hheader, List.append_assoc, hread,
      Success.bind_ok]
    dsimp only [List.cons_append, List.nil_append]
    rw [hsum, Success.bind_ok, if_pos hbytes.symm]

/-- After the blocks of a container fewer than eight bits are left of their last byte, and then the
checksum and what comes after the container. -/
theorem SpellsContainer.exists_readBlocks {items : List Lz77.Item} {container : Bytes}
    (h : SpellsContainer items container) :
    ∃ first second data left, container = first :: second :: data ∧ left < 8 ∧
      ∀ out more, ∃ rest, rest.length = left + 8 * (4 + more.length) ∧
        Deflate.readBlocks out (Bits.ofBytes (data ++ more)) =
          .ok (Lz77.expand out items, rest) := by
  obtain @⟨first, second, a, b, c, d, stream, -, -, -, -, hstream, -⟩ := h
  obtain ⟨filling, hfilling, hread⟩ := hstream.exists_readBlocks
  refine ⟨first, second, _, filling.length, rfl, hfilling, fun out more =>
    ⟨filling ++ Bits.ofBytes ([a, b, c, d] ++ more), ?_, ?_⟩⟩
  · rw [List.length_append, Bits.length_ofBytes, List.length_append]
    rfl
  · rw [List.append_assoc, hread]

/-- No container is a part in front of another one. -/
theorem SpellsContainer.eq_nil_of_append {items items' : List Lz77.Item} {container more : Bytes}
    (h : SpellsContainer items container) (h' : SpellsContainer items' (container ++ more)) :
    more = [] := by
  obtain ⟨first, second, data, left, rfl, hleft, hread⟩ := h.exists_readBlocks
  obtain ⟨first', second', data', left', hwhole, hleft', hread'⟩ := h'.exists_readBlocks
  simp only [List.cons_append, List.cons.injEq] at hwhole
  obtain ⟨-, -, rfl⟩ := hwhole
  obtain ⟨rest, hlength, hrest⟩ := hread #[] more
  obtain ⟨rest', hlength', hrest'⟩ := hread' #[] []
  -- Both readings are of the same bytes, so they leave the same bits.
  rw [List.append_nil] at hrest'
  obtain ⟨-, rfl⟩ := Prod.mk.inj (Except.ok.inj (hrest.symm.trans hrest'))
  rw [hlength, List.length_nil] at hlength'
  exact List.length_eq_zero_iff.mp (by omega)

/-- At each level of effort the encoder writes a container of the data. -/
def IsEncoder (encode : Nat → Bytes → Bytes) : Prop :=
  ∀ level ≤ maxLevel, ∀ data, ∃ items, SpellsContainer items (encode level data) ∧
    (Lz77.expand #[] items).toList = data

/-- Data is encoded by a container of it. -/
theorem isEncoder_encode : IsEncoder encode := by
  intro level _ data
  obtain ⟨left, hleft, hread⟩ := Deflate.isStream_encode level data
  obtain ⟨items, stream, after, filling, hstream, -, hencode, hrest, hproduced⟩ :=
    Deflate.exists_spellsStream_of_readBlocks hread
  have hafter : after = [] := by
    have hlength := congrArg List.length hrest
    rw [List.length_append, Bits.length_ofBytes] at hlength
    exact List.length_eq_zero_iff.mp (by omega)
  rw [hafter, List.append_nil] at hencode
  obtain ⟨hdivides, hdictionary, hmethod, hwindow⟩ := isHeader_iff.mp (isHeader_effort level)
  have hdata : (Lz77.expand #[] items).toList = data := by rw [← hproduced]
  refine ⟨items, ?_, hdata⟩
  rw [encode, hencode]
  refine .mk hdivides hdictionary hmethod hwindow hstream ?_
  rw [hdata]
  exact Adler32.bigEndian_bytes (Adler32.checksum_lt data)

/-- A container whose only item is a copy from one byte before the data. -/
theorem spellsContainer_before_start :
    SpellsContainer [.copy 1 3] [120, 1, 3, 2, 0, 0, 3, 0, 1] := by
  have hlength : PrefixCode.IsWord Deflate.fixedLengths (Deflate.firstLength + 0)
      [false, false, false, false, false, false, true] :=
    ⟨by decide +kernel, by decide, by decide, by decide +kernel⟩
  have hdistance : PrefixCode.IsWord Deflate.fixedDistanceLengths 0
      [false, false, false, false, false] :=
    ⟨by decide +kernel, by decide, by decide, by decide +kernel⟩
  have hend : PrefixCode.IsWord Deflate.fixedLengths Deflate.endOfBlock
      [false, false, false, false, false, false, false] :=
    ⟨by decide +kernel, by decide, by decide, by decide +kernel⟩
  have hthree : Deflate.PicksValue Deflate.lengthClasses 0 3 [] :=
    .mk (show Deflate.lengthClasses[0]? = some (3, 0) from rfl) (show 0 < 2 ^ 0 from Nat.one_pos)
  have hone : Deflate.PicksValue Deflate.distanceClasses 0 1 [] :=
    .mk (show Deflate.distanceClasses[0]? = some (1, 0) from rfl) (show 0 < 2 ^ 0 from Nat.one_pos)
  have hstream : Deflate.SpellsStream [.copy 1 3] [3, 2, 0] :=
    .mk (.last (.fixed (.cons (.copy hlength hthree hdistance hone) (.done hend))))
      (show [false, false].length < 8 by decide) (by decide)
  have hcontainer : SpellsContainer [.copy 1 3] (120 :: 1 :: ([3, 2, 0] ++ [0, 3, 0, 1])) :=
    .mk (by decide) (by decide) (by decide) (by decide) hstream (by decide)
  exact hcontainer

/-- These bytes do not start with a container whose copies stay within the data. -/
theorem not_spellsContainer_within_start {items : List Lz77.Item} {container after : Bytes}
    (happend : [120, 1, 3, 2, 0, 0, 3, 0, 1] = container ++ after)
    (h : SpellsContainer items container) : ¬Lz77.WithinStart 0 items := by
  intro hwithin
  obtain ⟨first, second, data, left, hcontainer, -, hread⟩ :=
    spellsContainer_before_start.exists_readBlocks
  obtain ⟨first', second', data', left', rfl, -, hread'⟩ := h.exists_readBlocks
  rw [hcontainer] at happend
  simp only [List.cons_append, List.cons.injEq] at happend
  obtain ⟨-, -, hdata⟩ := happend
  -- The items add what the far copy adds, also after a byte that this copy repeats.
  have hexpand (out : Array UInt8) : Lz77.expand out items = Lz77.expand out [.copy 1 3] := by
    obtain ⟨rest, -, hrest⟩ := hread out []
    obtain ⟨rest', -, hrest'⟩ := hread' out after
    rw [List.append_nil, hdata] at hrest
    exact (Prod.mk.inj (Except.ok.inj (hrest'.symm.trans hrest))).1
  have hstart : Lz77.WithinStart (#[] : Array UInt8).size items := hwithin
  have hsame := hstart.expand_append #[7]
  rw [Array.append_empty, hexpand, hexpand] at hsame
  revert hsame
  decide

end Zlib

namespace Compression

/-- Data is decompressed exactly if it starts with a container of what comes out. -/
theorem decompressZlib_eq_ok_iff {packed out : Bytes} :
    decompressZlib packed = .ok out ↔
      ∃ items container after, packed = container ++ after ∧
        Zlib.SpellsContainer items container ∧ (Lz77.expand #[] items).toList = out :=
  Success.mapError_eq_ok_iff.trans Zlib.decode_eq_ok_iff

/-- A copy from before the data is taken for zero bytes, though no container by the standard has
one. -/
theorem decompressZlib_before_start :
    decompressZlib [120, 1, 3, 2, 0, 0, 3, 0, 1] = .ok [0, 0, 0] ∧
      ¬∃ items container after, [120, 1, 3, 2, 0, 0, 3, 0, 1] = container ++ after ∧
        Zlib.SpellsContainer items container ∧ Lz77.WithinStart 0 items ∧
        (Lz77.expand #[] items).toList = [0, 0, 0] := by
  constructor
  · exact decompressZlib_eq_ok_iff.mpr
      ⟨_, _, [], rfl, Zlib.spellsContainer_before_start, by decide⟩
  · rintro ⟨items, container, after, happend, hcontainer, hwithin, -⟩
    exact Zlib.not_spellsContainer_within_start happend hcontainer hwithin

/-- What cannot be decompressed is reported as an error of the codec. -/
theorem error_of_decompressZlib {packed : Bytes} {failure : Failure}
    (h : decompressZlib packed = .error failure) :
    ∃ message, failure = .codec "zlib" message := by
  obtain ⟨error, -, rfl⟩ := Success.of_mapError h
  exact ⟨error.message, rfl⟩

/-- A container that is cut off is not decompressed. -/
theorem decompressZlib_cut {items : List Lz77.Item} {cut more : Bytes}
    (h : Zlib.SpellsContainer items (cut ++ more)) (hmore : more ≠ []) :
    ∃ message, decompressZlib cut = .error (.codec "zlib" message) := by
  cases hread : decompressZlib cut with
  | ok out =>
    obtain ⟨items', container, after, rfl, hfront, -⟩ := decompressZlib_eq_ok_iff.mp hread
    rw [List.append_assoc] at h
    exact absurd (List.append_eq_nil_iff.mp (hfront.eq_nil_of_append h)).2 hmore
  | error failure =>
    obtain ⟨message, rfl⟩ := error_of_decompressZlib hread
    exact ⟨message, rfl⟩

/-- Compressed data is a container. -/
theorem exists_spellsContainer_compressZlib {encoders : Encoders}
    (hencoder : Zlib.IsEncoder encoders.zlib) {data packed : Bytes} {level : Nat}
    (h : compressZlib encoders data level = .ok packed) :
    ∃ items, Zlib.SpellsContainer items packed := by
  rw [compressZlib] at h
  split at h
  · cases h
  · next hlevel =>
    obtain rfl := Except.ok.inj h
    obtain ⟨items, hcontainer, -⟩ := hencoder level (Nat.le_of_not_lt hlevel) data
    exact ⟨items, hcontainer⟩

/-- A single byte is stored in a container of twelve bytes. -/
theorem compressZlib_byte :
    compressZlib .plain [97] 0 = .ok [120, 1, 1, 1, 0, 254, 255, 97, 0, 98, 0, 98] := by
  have hstored : Deflate.storedBlocks [97] = [1, 1, 0, 254, 255, 97] := by
    rw [Deflate.storedBlocks]
    decide
  have hencode : Zlib.encode 0 [97] = [120, 1, 1, 1, 0, 254, 255, 97, 0, 98, 0, 98] := by
    rw [Zlib.encode, Deflate.encode, if_pos rfl, hstored]
    rfl
  exact congrArg Except.ok hencode

/-- Data is decompressed exactly if it starts with a complete container of what comes out: a
header, deflated data up to the end of its last block, and the checksum. Everything else is
reported as an error of the codec; so is each part in front of a container that is not all of it,
and in particular of what an encoder makes of data at any level. -/
theorem zlib_accepts_containers (packed : Bytes) :
    (∀ out, decompressZlib packed = .ok out ↔
      ∃ items container after, packed = container ++ after ∧
        Zlib.SpellsContainer items container ∧ (Lz77.expand #[] items).toList = out) ∧
    (∀ failure, decompressZlib packed = .error failure →
      ∃ message, failure = .codec "zlib" message) ∧
    ((∃ items, Zlib.SpellsContainer items packed) ∨
        (∃ (encoders : Encoders) (data : Bytes) (level : Nat), Zlib.IsEncoder encoders.zlib ∧
          compressZlib encoders data level = .ok packed) →
      ∀ cut more, cut ++ more = packed → more ≠ [] →
        ∃ message, decompressZlib cut = .error (.codec "zlib" message)) := by
  refine ⟨fun out => decompressZlib_eq_ok_iff, fun failure => error_of_decompressZlib, ?_⟩
  rintro hpacked cut more rfl hmore
  have hcontainer : ∃ items, Zlib.SpellsContainer items (cut ++ more) := by
    rcases hpacked with hcontainer | ⟨encoders, data, level, hencoder, hcompress⟩
    · exact hcontainer
    · exact exists_spellsContainer_compressZlib hencoder hcompress
  obtain ⟨items, hcontainer⟩ := hcontainer
  exact decompressZlib_cut hcontainer hmore

/-- A stored byte without the last byte of its checksum. -/
theorem decompressZlib_cut_checksum :
    compressZlib .plain [97] 0 = .ok [120, 1, 1, 1, 0, 254, 255, 97, 0, 98, 0, 98] ∧
      ∃ message, decompressZlib [120, 1, 1, 1, 0, 254, 255, 97, 0, 98, 0] =
        .error (.codec "zlib" message) :=
  ⟨compressZlib_byte, (zlib_accepts_containers _).2.2
    (.inr ⟨_, _, _, Zlib.isEncoder_encode, compressZlib_byte⟩) _ [98] rfl (List.cons_ne_nil _ _)⟩

end Compression
end HostKit
