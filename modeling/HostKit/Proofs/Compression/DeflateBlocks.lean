import HostKit.Proofs.Compression.BitRows
import HostKit.Proofs.Compression.CodeWords
import HostKit.Proofs.Compression.Expansion

/-!
# Deflated data is read back

The class of a length or a distance is the one whose values it lies among, so its extra bits pick
it out again. Items in the fixed code are read back one by one, and stored blocks byte by byte from
the next full byte on. What has been produced before a block and what comes after it make no
difference, so blocks in a row add up to the data.
-/

namespace HostKit.Deflate

variable {out : Array UInt8}

/-! ## Classes -/

/-- Each class begins where the values of the class before it may go on, and the last one reaches
up to the limit. -/
def Covers (limit : Nat) : List (Nat × Nat) → Prop
  | [] => False
  | [(smallest, extra)] => smallest < limit ∧ limit ≤ smallest + 2 ^ extra
  | (smallest, extra) :: (next, extra') :: classes =>
    smallest < next ∧ next ≤ smallest + 2 ^ extra ∧ Covers limit ((next, extra') :: classes)

/-- The smallest values of later classes are larger. -/
theorem Covers.lt_of_mem {limit smallest extra : Nat} {classes : List (Nat × Nat)}
    (h : Covers limit ((smallest, extra) :: classes)) {c : Nat × Nat} (hc : c ∈ classes) :
    smallest < c.1 := by
  induction classes generalizing smallest extra with
  | nil => cases hc
  | cons next classes ih =>
    obtain ⟨hlt, -, hlater⟩ := h
    rcases List.mem_cons.mp hc with rfl | hc
    · exact hlt
    · exact Nat.lt_trans hlt (ih hlater hc)

/-- Where a later class fits as well, the first one does not count. -/
theorem classOf_cons_of_le {first next : Nat × Nat} {classes : List (Nat × Nat)} {value : Nat}
    (hfirst : first.1 ≤ value) (hnext : next.1 ≤ value) :
    classOf (first :: next :: classes) value =
      ((classOf (next :: classes) value).1 + 1, (classOf (next :: classes) value).2) := by
  simp [classOf, hfirst, hnext]

/-- Where no later class fits, it is the first one. -/
theorem classOf_cons_of_lt {first : Nat × Nat} {classes : List (Nat × Nat)} {value : Nat}
    (hfirst : first.1 ≤ value) (hlater : ∀ c ∈ classes, value < c.1) :
    classOf (first :: classes) value = (0, first.2, value - first.1) := by
  have hnone : classes.filter (fun c => c.1 ≤ value) = [] := by
    rw [List.filter_eq_nil_iff]
    intro c hc
    simpa using hlater c hc
  simp [classOf, hfirst, hnone]

/-- The class of a value is one that the value lies in. -/
theorem Covers.exists_class {limit value : Nat} {first : Nat × Nat} {classes : List (Nat × Nat)}
    (h : Covers limit (first :: classes)) (hlow : first.1 ≤ value) (hhigh : value < limit) :
    ∃ number smallest extra,
      classOf (first :: classes) value = (number, extra, value - smallest) ∧
      (first :: classes)[number]? = some (smallest, extra) ∧
      smallest ≤ value ∧ value - smallest < 2 ^ extra := by
  induction classes generalizing first with
  | nil =>
    have hend := h.2
    exact ⟨0, first.1, first.2, classOf_cons_of_lt hlow (by simp), rfl, hlow, by omega⟩
  | cons next classes ih =>
    obtain ⟨-, hend, hlater⟩ := id h
    by_cases hnext : next.1 ≤ value
    · obtain ⟨number, smallest, extra, hclass, hget, hle, hlt⟩ := ih hlater hnext
      refine ⟨number + 1, smallest, extra, ?_, hget, hle, hlt⟩
      rw [classOf_cons_of_le hlow hnext, hclass]
    · refine ⟨0, first.1, first.2, classOf_cons_of_lt hlow ?_, rfl, hlow, by omega⟩
      intro c hc
      rcases List.mem_cons.mp hc with rfl | hc
      · omega
      · have := hlater.lt_of_mem hc
        omega

/-! ## Items -/

/-- A number is read from its bits. -/
theorem readNat_ofNat {width n : Nat} (h : n < 2 ^ width) (rest : Bits) :
    readNat width (Bits.ofNat width n ++ rest) = .ok (n, rest) := by
  rw [readNat, Bits.takeNat?_ofNat h]

/-- A value is read from the extra bits of its class. -/
theorem readInClass_ofNat {classes : List (Nat × Nat)} {number smallest extra value : Nat}
    (hget : classes[number]? = some (smallest, extra)) (hle : smallest ≤ value)
    (hlt : value - smallest < 2 ^ extra) (rest : Bits) :
    readInClass classes number (Bits.ofNat extra (value - smallest) ++ rest) =
      .ok (value, rest) := by
  have hvalue : smallest + (value - smallest) = value := Nat.add_sub_of_le hle
  rw [readInClass, hget]
  dsimp only
  rw [readNat_ofNat hlt, Success.bind_ok]
  dsimp only
  rw [hvalue]

/-- The class of a value is one of the classes, and with its extra bits it is read as the value. -/
theorem Covers.exists_readInClass {limit value : Nat} {classes : List (Nat × Nat)}
    (h : Covers limit classes) (hlow : ∀ first ∈ classes.head?, first.1 ≤ value)
    (hhigh : value < limit) :
    ∃ number extra above, classOf classes value = (number, extra, above) ∧
      number < classes.length ∧
      ∀ rest, readInClass classes number (Bits.ofNat extra above ++ rest) = .ok (value, rest) := by
  cases classes with
  | nil => exact h.elim
  | cons first classes =>
    obtain ⟨number, smallest, extra, hclass, hget, hle, hlt⟩ :=
      h.exists_class (hlow first rfl) hhigh
    exact ⟨number, extra, value - smallest, hclass, (List.getElem?_eq_some_iff.mp hget).1,
      readInClass_ofNat hget hle hlt⟩

/-- The classes of lengths reach from 3 to 258. -/
theorem covers_lengthClasses : Covers 259 lengthClasses := by
  simp [Covers, lengthClasses]

/-- The classes of distances reach from 1 to 32768. -/
theorem covers_distanceClasses : Covers 32769 distanceClasses := by
  simp [Covers, distanceClasses]

/-- A byte in the fixed code is read back. -/
theorem readItem_literal (byte : UInt8) (rest : Bits) :
    readItem fixedCodes (itemBits (.literal byte) ++ rest) =
      .ok (some (.literal byte), rest) := by
  have hlt : byte.toNat < endOfBlock := byte.toNat_lt
  have hsymbol : byte.toNat < 288 := Nat.lt_trans hlt (by decide)
  rw [itemBits, readItem, readSymbol_fixedWords hsymbol, Success.bind_ok]
  dsimp only
  rw [if_pos hlt, Nat.toUInt8_eq, UInt8.ofNat_toNat]

/-- A copy that the format allows is read back from the fixed code. -/
theorem readItem_copy {distance length : Nat} (h : limits.Allows distance length) (rest : Bits) :
    readItem fixedCodes (itemBits (.copy distance length) ++ rest) =
      .ok (some (.copy distance length), rest) := by
  have hlengthLow : ∀ first ∈ lengthClasses.head?, first.1 ≤ length := by
    rintro _ ⟨⟩
    exact h.length_ge
  have hdistanceLow : ∀ first ∈ distanceClasses.head?, first.1 ≤ distance := by
    rintro _ ⟨⟩
    exact h.distance_pos
  -- Both numbers of classes are below the sizes of the fixed codes, so they have words.
  obtain ⟨lengthNumber, lengthExtra, longer, hlengthClass, hlengthNumber, hlength⟩ :=
    covers_lengthClasses.exists_readInClass hlengthLow (Nat.lt_succ_of_le h.length_le)
  obtain ⟨distanceNumber, distanceExtra, farther, hdistanceClass, hdistanceNumber, hdistance⟩ :=
    covers_distanceClasses.exists_readInClass hdistanceLow (Nat.lt_succ_of_le h.distance_le)
  change lengthNumber < 29 at hlengthNumber
  change distanceNumber < 30 at hdistanceNumber
  have hsymbol : firstLength + lengthNumber < 288 := by
    rw [firstLength]
    omega
  have hlater : endOfBlock < firstLength + lengthNumber := by
    rw [firstLength, endOfBlock]
    omega
  rw [itemBits, hlengthClass, hdistanceClass]
  dsimp only
  rw [readItem, List.append_assoc, List.append_assoc, List.append_assoc,
    readSymbol_fixedWords hsymbol, Success.bind_ok]
  dsimp only
  rw [if_neg (Nat.lt_asymm hlater), if_neg (Nat.ne_of_gt hlater), Nat.add_sub_cancel_left, hlength,
    Success.bind_ok]
  dsimp only
  rw [readSymbol_fixedDistanceWords (by omega), Success.bind_ok]
  dsimp only
  rw [hdistance, Success.bind_ok]

/-- The end of a block in the fixed code is read back. -/
theorem readItem_end (rest : Bits) :
    readItem fixedCodes (fixedWords.getD endOfBlock [] ++ rest) = .ok (none, rest) := by
  rw [readItem, readSymbol_fixedWords (by decide), Success.bind_ok]
  rfl

/-- The rest of a block after an item. -/
theorem readItems_of_some {codes : Codes} {bits rest : Bits} {item : Lz77.Item}
    (h : readItem codes bits = .ok (some item, rest)) :
    readItems codes out bits = readItems codes (Lz77.expand out [item]) rest := by
  rw [readItems]
  split
  · next e heq => cases heq.symm.trans h
  · next heq => cases heq.symm.trans h
  · next item' rest' heq =>
    cases heq.symm.trans h
    rfl

/-- Nothing is added at the end of a block. -/
theorem readItems_of_none {codes : Codes} {bits rest : Bits}
    (h : readItem codes bits = .ok (none, rest)) :
    readItems codes out bits = .ok (out, rest) := by
  rw [readItems]
  split
  · next e heq => cases heq.symm.trans h
  · next rest' heq =>
    cases heq.symm.trans h
    rfl
  · next heq => cases heq.symm.trans h

/-- Items in the fixed code add to the output what they expand to. -/
theorem readItems_itemBits {items : List Lz77.Item}
    (h : ∀ distance length, .copy distance length ∈ items → limits.Allows distance length)
    (rest : Bits) :
    readItems fixedCodes out
        (items.flatMap itemBits ++ (fixedWords.getD endOfBlock [] ++ rest)) =
      .ok (Lz77.expand out items, rest) := by
  induction items generalizing out with
  | nil =>
    rw [List.flatMap_nil, List.nil_append, readItems_of_none (readItem_end rest), Lz77.expand]
  | cons item items ih =>
    have hlater := fun out => @ih out fun distance length hmem =>
      h distance length (List.mem_cons_of_mem _ hmem)
    rw [List.flatMap_cons, List.append_assoc]
    cases item with
    | literal byte => rw [readItems_of_some (readItem_literal byte _), hlater]; rfl
    | copy distance length =>
      rw [readItems_of_some (readItem_copy (h _ _ List.mem_cons_self) _), hlater]
      rfl

/-! ## Blocks -/

/-- Nothing is read after the last block. -/
theorem readBlocks_of_last {low high : Bool} {out' : Array UInt8} {body rest : Bits}
    (h : readBlock low high out body = .ok (out', rest)) :
    readBlocks out (true :: low :: high :: body) = .ok (out', rest) := by
  rw [readBlocks]
  split
  · next e heq => cases heq.symm.trans h
  · next heq =>
    cases heq.symm.trans h
    rfl

/-- After any other block reading goes on with its output. -/
theorem readBlocks_of_more {low high : Bool} {out' : Array UInt8} {body rest : Bits}
    (h : readBlock low high out body = .ok (out', rest)) :
    readBlocks out (false :: low :: high :: body) = readBlocks out' rest := by
  rw [readBlocks]
  split
  · next e heq => cases heq.symm.trans h
  · next heq =>
    cases heq.symm.trans h
    rfl

/-- A block in the fixed code is read as what its items expand to, and fewer than eight bits are
left of its last byte. -/
theorem exists_readBlocks_fixedBlock {items : List Lz77.Item}
    (h : ∀ distance length, .copy distance length ∈ items → limits.Allows distance length)
    (after : Bytes) :
    ∃ filling, filling.length < 8 ∧ readBlocks out (Bits.ofBytes (fixedBlock items ++ after)) =
      .ok (Lz77.expand out items, filling ++ Bits.ofBytes after) := by
  obtain ⟨filling, hfilling, hbits⟩ := Bits.exists_ofBytes_toBytes
    ([true, true, false] ++ items.flatMap itemBits ++ fixedWords.getD endOfBlock [])
  have hblock : readBlock true false out (items.flatMap itemBits ++
      (fixedWords.getD endOfBlock [] ++ (filling ++ Bits.ofBytes after))) =
      .ok (Lz77.expand out items, filling ++ Bits.ofBytes after) := readItems_itemBits h _
  refine ⟨filling, hfilling, ?_⟩
  rw [Bits.ofBytes_append, fixedBlock, hbits, List.append_assoc, List.append_assoc,
    List.append_assoc]
  exact readBlocks_of_last hblock

/-- Two bytes of a number are its sixteen bits. -/
theorem ofBytes_twoBytes (n : Nat) : Bits.ofBytes (twoBytes n) = Bits.ofNat 16 n := by
  have hlow : n.toUInt8.toNat = n % 2 ^ 8 := UInt8.toNat_ofNat'
  have hhigh : (n / 256).toUInt8.toNat = n / 2 ^ 8 % 2 ^ 8 := UInt8.toNat_ofNat'
  rw [twoBytes, Bits.ofBytes_cons, hlow, Bits.ofBytes_cons, hhigh, Bits.ofNat_mod, Bits.ofNat_mod,
    Bits.ofNat_add 8 8, Bits.ofBytes, List.flatMap_nil, List.append_nil]

/-- Stored bytes are read as they are. -/
theorem readStored_ofBytes (data : Bytes) (rest : Bits) :
    readStored data.length out (Bits.ofBytes data ++ rest) = .ok (out ++ data.toArray, rest) := by
  induction data generalizing out with
  | nil => simp [readStored, Bits.ofBytes]
  | cons b data ih =>
    rw [List.length_cons, readStored, Bits.ofBytes_cons, List.append_assoc,
      Bits.takeNat?_ofNat b.toNat_lt]
    dsimp only
    rw [ih, Nat.toUInt8_eq, UInt8.ofNat_toNat]
    simp

/-- The body of a stored block is read as its data, whatever fills up the byte before it. -/
theorem readBlock_stored {data : Bytes} (h : data.length ≤ storedMax) {filling : Bits}
    (hfilling : filling.length < 8) (after : Bytes) :
    readBlock false false out (filling ++ Bits.ofBytes
        (twoBytes data.length ++ twoBytes (storedMax - data.length) ++ data ++ after)) =
      .ok (out ++ data.toArray, Bits.ofBytes after) := by
  have hsize : data.length < 2 ^ 16 := Nat.lt_succ_of_le h
  have hinverted : storedMax - data.length < 2 ^ 16 :=
    Nat.lt_succ_of_le (Nat.sub_le storedMax data.length)
  have hsum : data.length + (storedMax - data.length) = 65535 := Nat.add_sub_of_le h
  rw [readBlock, readStoredBlock, Bits.align_append_ofBytes hfilling, Bits.ofBytes_append,
    Bits.ofBytes_append, Bits.ofBytes_append, ofBytes_twoBytes, ofBytes_twoBytes,
    List.append_assoc, List.append_assoc, readNat_ofNat hsize, Success.bind_ok]
  dsimp only
  rw [readNat_ofNat hinverted, Success.bind_ok]
  dsimp only
  rw [if_pos hsum, readStored_ofBytes]

/-- The first byte of a stored block tells whether it is the last one. -/
theorem ofBytes_storedBlock (last : Bool) (data after : Bytes) :
    Bits.ofBytes (storedBlock last data ++ after) = last :: false :: false ::
      (List.replicate 5 false ++ Bits.ofBytes
        (twoBytes data.length ++ twoBytes (storedMax - data.length) ++ data ++ after)) := by
  cases last <;> rfl

/-- Data in stored blocks is read as it is. -/
theorem readBlocks_storedBlocks (data after : Bytes) :
    readBlocks out (Bits.ofBytes (storedBlocks data ++ after)) =
      .ok (out ++ data.toArray, Bits.ofBytes after) := by
  -- The output goes along with the induction, since a later block is read after the ones before.
  induction data using storedBlocks.induct generalizing out with
  | case1 data hle =>
    rw [storedBlocks, if_pos hle, ofBytes_storedBlock]
    exact readBlocks_of_last (readBlock_stored hle (by decide) after)
  | case2 data hgt ih =>
    have hfull : (data.take storedMax).length ≤ storedMax := List.length_take_le _ _
    have hfiller : (List.replicate 5 false).length < 8 := by decide
    have hsplit : (data.take storedMax).toArray ++ (data.drop storedMax).toArray =
        data.toArray := by
      rw [List.append_toArray, List.take_append_drop]
    rw [storedBlocks, if_neg hgt, List.append_assoc, ofBytes_storedBlock,
      readBlocks_of_more (readBlock_stored hfull hfiller _), ih, Array.append_assoc, hsplit]

/-! ## Streams -/

/-- A stream of deflated data: its blocks are read as the data, and the last of them ends in the
last byte. -/
def IsStream (stream data : Bytes) : Prop :=
  ∃ left, left.length < 8 ∧ readBlocks #[] (Bits.ofBytes stream) = .ok (data.toArray, left)

/-- Deflated data is read back whatever comes after it, and fewer than eight bits are left of its
last byte. -/
theorem exists_readBlocks_encode (level : Nat) (data after : Bytes) :
    ∃ filling, filling.length < 8 ∧
      readBlocks #[] (Bits.ofBytes (encode level data ++ after)) =
        .ok (data.toArray, filling ++ Bits.ofBytes after) := by
  have hstored : ∃ filling, filling.length < 8 ∧
      readBlocks #[] (Bits.ofBytes (storedBlocks data ++ after)) =
        .ok (data.toArray, filling ++ Bits.ofBytes after) :=
    ⟨[], by decide, by rw [readBlocks_storedBlocks]; simp⟩
  have hfixed : ∃ filling, filling.length < 8 ∧
      readBlocks #[] (Bits.ofBytes (fixedBlock (Lz77.items limits data) ++ after)) =
        .ok (data.toArray, filling ++ Bits.ofBytes after) := by
    rw [← Lz77.expand_items limits data]
    apply exists_readBlocks_fixedBlock
    intro distance length hmem
    exact (Lz77.describes_items limits data).allows hmem
  rw [encode]
  dsimp only
  split
  · exact hstored
  · split
    · exact hfixed
    · exact hstored

/-- Deflated data is a stream of the data. -/
theorem isStream_encode (level : Nat) (data : Bytes) : IsStream (encode level data) data := by
  obtain ⟨filling, hfilling, hread⟩ := exists_readBlocks_encode level data []
  refine ⟨filling, hfilling, ?_⟩
  simpa [Bits.ofBytes] using hread

end HostKit.Deflate
