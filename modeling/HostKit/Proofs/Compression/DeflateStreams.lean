import HostKit.Proofs.Compression.CodeLengths

/-!
# Reading streams

Where a block starts matters only modulo eight, and the end of the data tells it: all of the data is
full bytes. So the reader skips exactly the bits that fill up the byte before stored data. With this
the reader of blocks takes exactly the streams of the format, whatever was produced before them and
whatever comes after them, and its output is what the items of the stream add.
-/

namespace HostKit

namespace Lz77

/-- Bytes as they are come after the output. -/
theorem expand_literals (out : Array UInt8) (data : Bytes) :
    expand out (literals data) = out ++ data.toArray := by
  induction data generalizing out with
  | nil => simp [literals, expand]
  | cons b data ih =>
    rw [literals, List.map_cons, expand, ← literals, ih]
    simp

end Lz77

namespace Deflate

variable {bits rest : Bits} {out out' : Array UInt8} {position : Nat}

/-! ## Stored blocks -/

/-- So many stored bytes are read exactly from their bits. -/
theorem readStored_eq_ok_iff {count : Nat} :
    readStored count out bits = .ok (out', rest) ↔
      ∃ data, data.length = count ∧ bits = Bits.ofBytes data ++ rest ∧
        out' = out ++ data.toArray := by
  constructor
  · intro h
    induction count generalizing out bits with
    | zero =>
      obtain ⟨rfl, rfl⟩ := Prod.mk.inj (Except.ok.inj h)
      exact ⟨[], rfl, rfl, by simp⟩
    | succ count ih =>
      rw [readStored] at h
      split at h
      · cases h
      · next byte later htake =>
        obtain ⟨hlt, rfl⟩ := Bits.takeNat?_eq_some_iff.mp htake
        obtain ⟨data, rfl, rfl, rfl⟩ := ih h
        have hbyte : byte.toUInt8.toNat = byte := UInt8.toNat_ofNat_of_lt' hlt
        refine ⟨byte.toUInt8 :: data, rfl, ?_, by simp⟩
        rw [Bits.ofBytes_cons, hbyte, List.append_assoc]
  · rintro ⟨data, rfl, rfl, rfl⟩
    exact readStored_ofBytes data rest

/-- A stored block is read exactly from the bits that fill up the byte before it, both forms of its
size, and its data. -/
theorem readStoredBlock_eq_ok_iff (haligned : (position + 3 + bits.length) % 8 = 0) :
    readStoredBlock out bits = .ok (out', rest) ↔
      ∃ filling data, filling.length < 8 ∧ (position + 3 + filling.length) % 8 = 0 ∧
        data.length ≤ 65535 ∧
        bits = filling ++ (Bits.ofNat 16 data.length ++
          (Bits.ofNat 16 (65535 - data.length) ++ (Bits.ofBytes data ++ rest))) ∧
        out' = out ++ data.toArray := by
  constructor
  · intro h
    obtain ⟨⟨size, afterSize⟩, hsize, h⟩ := Success.of_bind h
    obtain ⟨⟨inverted, afterInverted⟩, hinverted, h⟩ := Success.of_bind h
    dsimp only at h
    split at h
    · next hsum =>
      obtain ⟨-, hbits⟩ := readNat_eq_ok_iff.mp hsize
      obtain ⟨-, hafterSize⟩ := readNat_eq_ok_iff.mp hinverted
      obtain ⟨data, hdata, hafter, hout⟩ := readStored_eq_ok_iff.mp h
      have hsplit : bits.take (bits.length % 8) ++ bits.align = bits := List.take_append_drop _ _
      have hlength : (bits.take (bits.length % 8)).length = bits.length % 8 :=
        List.length_take_of_le (Nat.mod_le _ _)
      have hcomplement : 65535 - size = inverted := by omega
      refine ⟨bits.take (bits.length % 8), data, by omega, by omega, by omega, ?_, hout⟩
      rw [hdata, hcomplement, ← hafter, ← hafterSize, ← hbits, hsplit]
    · cases h
  · rintro ⟨filling, data, hfilling, hstart, hdata, rfl, rfl⟩
    have halign : Bits.align (filling ++ (Bits.ofNat 16 data.length ++
        (Bits.ofNat 16 (65535 - data.length) ++ (Bits.ofBytes data ++ rest)))) =
        Bits.ofNat 16 data.length ++
          (Bits.ofNat 16 (65535 - data.length) ++ (Bits.ofBytes data ++ rest)) := by
      rw [List.length_append] at haligned
      have hlength : (filling ++ (Bits.ofNat 16 data.length ++
          (Bits.ofNat 16 (65535 - data.length) ++ (Bits.ofBytes data ++ rest)))).length % 8 =
          filling.length := by
        rw [List.length_append]
        omega
      rw [Bits.align, hlength, List.drop_left]
    have hsum : data.length + (65535 - data.length) = 65535 := Nat.add_sub_of_le hdata
    rw [readStoredBlock, halign, readNat_eq_ok_iff.mpr ⟨Nat.lt_succ_of_le hdata, rfl⟩,
      Success.bind_ok]
    dsimp only
    rw [readNat_eq_ok_iff.mpr ⟨Nat.lt_succ_of_le (Nat.sub_le _ _), rfl⟩, Success.bind_ok]
    dsimp only
    rw [if_pos hsum, readStored_eq_ok_iff.mpr ⟨data, rfl, rfl, rfl⟩]

/-! ## Blocks -/

/-- The body of a block is read exactly from a description of the block. -/
theorem readBlock_eq_ok_iff {low high : Bool} (last : Bool)
    (haligned : (position + 3 + bits.length) % 8 = 0) :
    readBlock low high out bits = .ok (out', rest) ↔
      ∃ items word, SpellsBlock last position items word ∧
        last :: low :: high :: bits = word ++ rest ∧ out' = Lz77.expand out items := by
  constructor
  · intro h
    match high, low with
    | false, false =>
      obtain ⟨filling, data, hfilling, hstart, hdata, rfl, rfl⟩ :=
        (readStoredBlock_eq_ok_iff haligned).mp h
      refine ⟨_, _, .stored hfilling hstart hdata, ?_, (Lz77.expand_literals out data).symm⟩
      simp only [List.cons_append, List.append_assoc]
    | false, true =>
      obtain ⟨items, word, hspells, rfl, rfl⟩ :=
        (readItems_eq_ok_iff WordLengths.fits_fixed).mp h
      exact ⟨items, _, .fixed hspells, rfl, rfl⟩
    | true, false =>
      obtain ⟨⟨codes, later⟩, hcodes, hread⟩ := Success.of_bind h
      obtain ⟨lengths, word, hspellsCodes, rfl, rfl⟩ := readCodes_eq_ok_iff.mp hcodes
      obtain ⟨items, word', hspells, rfl, rfl⟩ :=
        (readItems_eq_ok_iff hspellsCodes.fits).mp hread
      refine ⟨items, _, .dynamic hspellsCodes hspells, ?_, rfl⟩
      simp only [List.cons_append, List.append_assoc]
    | true, true => cases h
  · rintro ⟨items, word, hspells, hbits, rfl⟩
    cases hspells with
    | stored hfilling hstart hdata =>
      next filling data =>
      simp only [List.cons_append, List.cons.injEq, List.append_assoc, true_and] at hbits
      obtain ⟨rfl, rfl, hbits⟩ := hbits
      exact (readStoredBlock_eq_ok_iff haligned).mpr
        ⟨filling, data, hfilling, hstart, hdata, hbits, Lz77.expand_literals out data⟩
    | fixed hspells =>
      simp only [List.cons_append, List.cons.injEq, true_and] at hbits
      obtain ⟨rfl, rfl, hbits⟩ := hbits
      exact (readItems_eq_ok_iff WordLengths.fits_fixed).mpr ⟨_, _, hspells, hbits, rfl⟩
    | dynamic hspellsCodes hspells =>
      simp only [List.cons_append, List.cons.injEq, List.append_assoc, true_and] at hbits
      obtain ⟨rfl, rfl, hbits⟩ := hbits
      rw [readBlock, readCodes_eq_ok_iff.mpr ⟨_, _, hspellsCodes, hbits, rfl⟩, Success.bind_ok]
      exact (readItems_eq_ok_iff hspellsCodes.fits).mpr ⟨_, _, hspells, rfl, rfl⟩

/-- A block starts with three bits. -/
theorem SpellsBlock.exists_cons {last : Bool} {items : List Lz77.Item} {word : Bits}
    (h : SpellsBlock last position items word) :
    ∃ low high body, word = last :: low :: high :: body := by
  cases h <;> exact ⟨_, _, _, rfl⟩

/-- A block that cannot be read ends the reading of the stream. -/
theorem readBlocks_of_error {last low high : Bool} {e : Error}
    (h : readBlock low high out bits = .error e) :
    readBlocks out (last :: low :: high :: bits) = .error e := by
  rw [readBlocks]
  split
  · next e' heq => rw [Except.error.inj (heq.symm.trans h)]
  · next heq => cases heq.symm.trans h

/-- Blocks are read exactly from a description of them, and as what their items add to the
output. -/
theorem readBlocks_eq_ok_iff (haligned : (position + bits.length) % 8 = 0) :
    readBlocks out bits = .ok (out', rest) ↔
      ∃ items word, SpellsBlocks position items word ∧ bits = word ++ rest ∧
        out' = Lz77.expand out items := by
  constructor
  · intro h
    induction out, bits using readBlocks.induct generalizing position with
    | case1 out last low high body e hread =>
      rw [readBlocks_of_error hread] at h
      cases h
    | case2 out low high body out₁ later hread _ =>
      rw [readBlocks_of_last hread] at h
      obtain ⟨rfl, rfl⟩ := Prod.mk.inj (Except.ok.inj h)
      have hbody : (position + 3 + body.length) % 8 = 0 := by
        simp only [List.length_cons] at haligned
        omega
      obtain ⟨items, word, hspells, hbits, rfl⟩ := (readBlock_eq_ok_iff true hbody).mp hread
      exact ⟨items, word, .last hspells, hbits, rfl⟩
    | case3 out last low high body out₁ later hread _ hlast ih =>
      obtain rfl : last = false := eq_false_of_ne_true hlast
      rw [readBlocks_of_more hread] at h
      have hbody : (position + 3 + body.length) % 8 = 0 := by
        simp only [List.length_cons] at haligned
        omega
      obtain ⟨items, word, hspells, hbits, rfl⟩ := (readBlock_eq_ok_iff false hbody).mp hread
      have hlater : (position + word.length + later.length) % 8 = 0 := by
        have hlength := congrArg List.length hbits
        simp only [List.length_cons, List.length_append] at hlength
        omega
      obtain ⟨items', word', hspells', rfl, rfl⟩ := ih hlater h
      refine ⟨items ++ items', word ++ word', .more hspells hspells', ?_,
        (Lz77.expand_append out items items').symm⟩
      rw [hbits, List.append_assoc]
    | case4 out bits hshort =>
      rw [readBlocks] at h
      · cases h
      · exact hshort
  · rintro ⟨items, word, hspells, rfl, rfl⟩
    induction hspells generalizing out with
    | last hspells =>
      obtain ⟨low, high, body, rfl⟩ := hspells.exists_cons
      simp only [List.cons_append, List.length_cons] at haligned ⊢
      exact readBlocks_of_last
        ((readBlock_eq_ok_iff true (by omega)).mpr ⟨_, _, hspells, rfl, rfl⟩)
    | @more position items items' word word' hspells _ ih =>
      rw [List.append_assoc, List.length_append] at haligned
      rw [List.append_assoc, Lz77.expand_append]
      have hlater : readBlocks (Lz77.expand out items) (word' ++ rest) =
          .ok (Lz77.expand (Lz77.expand out items) items', rest) := ih (by omega)
      obtain ⟨low, high, body, rfl⟩ := hspells.exists_cons
      simp only [List.length_cons] at haligned
      have hbody : (position + 3 + (body ++ (word' ++ rest)).length) % 8 = 0 := by
        rw [List.length_append]
        omega
      exact (readBlocks_of_more
        ((readBlock_eq_ok_iff false hbody).mpr ⟨_, _, hspells, rfl, rfl⟩)).trans hlater

/-! ## Streams -/

/-- A stream is read whatever was produced before it and whatever comes after it, and fewer than
eight bits are left of its last byte. -/
theorem SpellsStream.exists_readBlocks {items : List Lz77.Item} {stream : Bytes}
    (h : SpellsStream items stream) :
    ∃ filling, filling.length < 8 ∧ ∀ out after,
      readBlocks out (Bits.ofBytes (stream ++ after)) =
        .ok (Lz77.expand out items, filling ++ Bits.ofBytes after) := by
  obtain @⟨word, filling, _, hspells, hfilling, hbits⟩ := h
  refine ⟨filling, hfilling, fun out after => ?_⟩
  have haligned : (0 + (Bits.ofBytes (stream ++ after)).length) % 8 = 0 := by
    rw [Bits.length_ofBytes]
    omega
  refine (readBlocks_eq_ok_iff haligned).mpr ⟨items, word, hspells, ?_, rfl⟩
  rw [Bits.ofBytes_append, hbits, List.append_assoc]

/-- What is read from full bytes is a stream in front of them. -/
theorem exists_spellsStream_of_readBlocks {data : Bytes}
    (h : readBlocks out (Bits.ofBytes data) = .ok (out', rest)) :
    ∃ items stream after filling, SpellsStream items stream ∧ filling.length < 8 ∧
      data = stream ++ after ∧ rest = filling ++ Bits.ofBytes after ∧
      out' = Lz77.expand out items := by
  have haligned : (0 + (Bits.ofBytes data).length) % 8 = 0 := by
    rw [Bits.length_ofBytes]
    omega
  obtain ⟨items, word, hspells, hbits, rfl⟩ := (readBlocks_eq_ok_iff haligned).mp h
  -- The bits that are left are some of one byte and all of the bytes after it.
  let after := data.drop (data.length - rest.length / 8)
  have hsplit : data.take (data.length - rest.length / 8) ++ after = data :=
    List.take_append_drop _ _
  have hlengths := congrArg List.length hbits
  rw [Bits.length_ofBytes, List.length_append] at hlengths
  have hafter : (Bits.ofBytes after).length = rest.length / 8 * 8 := by
    rw [Bits.length_ofBytes, List.length_drop]
    omega
  rw [← hsplit, Bits.ofBytes_append] at hbits
  have hfilling : ∃ filling, Bits.ofBytes (data.take (data.length - rest.length / 8)) =
      word ++ filling ∧ rest = filling ++ Bits.ofBytes after := by
    rcases List.append_eq_append_iff.mp hbits with ⟨short, hword, hrest⟩ | ⟨filling, hused, hrest⟩
    · have hnone : short = [] := by
        have hlength := congrArg List.length hrest
        rw [List.length_append, hafter] at hlength
        exact List.length_eq_zero_iff.mp (by omega)
      exact ⟨[], by simp [hword, hnone], by simp [hrest, hnone]⟩
    · exact ⟨filling, hused, hrest⟩
  obtain ⟨filling, hused, hrest⟩ := hfilling
  have hlt : filling.length < 8 := by
    have hlength := congrArg List.length hrest
    rw [List.length_append, hafter] at hlength
    omega
  exact ⟨items, _, after, filling, .mk hspells hlt hused, hlt, hsplit.symm, hrest, rfl⟩

end Deflate

/-! ## Copies within the data -/

namespace Lz77

/-- A byte that stands no further back than the first one does not depend on what comes before
this. -/
theorem byteBack_append {distance : Nat} {out : Array UInt8} (h : distance ≤ out.size)
    (before : Array UInt8) : byteBack (before ++ out) distance = byteBack out distance := by
  have hindex : before.size + out.size - distance = before.size + (out.size - distance) := by omega
  rw [byteBack, byteBack, if_pos h, if_pos (by rw [Array.size_append]; omega), Array.size_append,
    hindex, Array.getD_eq_getD_getElem?, Array.getD_eq_getD_getElem?,
    Array.getElem?_append_right (by omega), Nat.add_sub_cancel_left]

/-- Neither does a copy. -/
theorem copyBack_append {distance : Nat} {out : Array UInt8} (h : distance ≤ out.size)
    (length : Nat) (before : Array UInt8) :
    copyBack distance length (before ++ out) = before ++ copyBack distance length out := by
  induction length generalizing out with
  | zero => rfl
  | succ length ih =>
    rw [copyBack, copyBack, byteBack_append h, ← ih (by rw [Array.size_push]; omega),
      Array.push_append]

/-- Items whose copies reach no further back than to the first byte add the same after anything. -/
theorem WithinStart.expand_append {items : List Item} {out : Array UInt8}
    (h : WithinStart out.size items) (before : Array UInt8) :
    expand (before ++ out) items = before ++ expand out items := by
  induction items generalizing out with
  | nil => rfl
  | cons item items ih =>
    cases item with
    | literal byte =>
      rw [expand, expand, ← ih (by rwa [Array.size_push]), Array.push_append]
    | copy distance length =>
      rw [expand, expand, copyBack_append h.1, ih]
      rw [size_copyBack]
      exact h.2

end Lz77
end HostKit
