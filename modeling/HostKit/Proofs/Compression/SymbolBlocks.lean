import HostKit.Proofs.Compression.DeflateBlocks
import HostKit.Proofs.Compression.DeflateFormat

/-!
# Reading blocks of symbols

Each reader of a part succeeds exactly if the bits start with a description of the part in the
format, and it leaves the bits after it. For symbols this needs codes whose words find their places;
for a row of items the two directions are inductions along the reader and along the description.
-/

namespace HostKit

/-! ## Numbers -/

/-- A number is taken exactly from its bits. -/
theorem Bits.takeNat?_eq_some_iff {width n : Nat} {bits rest : Bits} :
    takeNat? width bits = some (n, rest) ↔ n < 2 ^ width ∧ bits = ofNat width n ++ rest := by
  constructor
  · intro h
    induction width generalizing bits n with
    | zero =>
      obtain ⟨rfl, rfl⟩ := Prod.mk.inj (Option.some.inj h)
      exact ⟨Nat.one_pos, rfl⟩
    | succ width ih =>
      cases bits with
      | nil => cases h
      | cons b bits =>
        rw [takeNat?, Option.map_eq_some_iff] at h
        obtain ⟨⟨m, later⟩, htake, heq⟩ := h
        obtain ⟨rfl, rfl⟩ := Prod.mk.inj heq
        obtain ⟨hlt, rfl⟩ := ih htake
        have hbit : b.toNat ≤ 1 := Bool.toNat_le b
        have hhead : ((b.toNat + 2 * m) % 2 == 1) = b := by
          cases b <;> simp [Nat.add_mod]
        have hhalf : (b.toNat + 2 * m) / 2 = m := by omega
        refine ⟨by rw [Nat.pow_succ]; omega, ?_⟩
        rw [ofNat, hhead, hhalf, List.cons_append]
  · rintro ⟨hlt, rfl⟩
    exact takeNat?_ofNat hlt rest

namespace PrefixCode

/-- A complete code does not take more space than there is, and neither does a single word. -/
theorem spaceTaken_le_of_isUsable {lengths : List Nat} (h : Deflate.isUsable lengths = true) :
    spaceTaken lengths ≤ Word.size maxLength := by
  rw [Deflate.isUsable, Bool.or_eq_true] at h
  rcases h with h | h
  · exact spaceTaken_le_of_isComplete h
  · have hfew : (lengths.filter (0 < ·)).length ≤ 1 := of_decide_eq_true h
    rw [spaceTaken]
    generalize lengths.filter (0 < ·) = used at hfew
    rcases used with _ | ⟨length, _ | ⟨next, others⟩⟩
    · exact Nat.zero_le _
    · exact Nat.pow_le_pow_right (by decide) (Nat.sub_le maxLength length)
    · exact absurd (Nat.le_of_succ_le_succ hfew) (Nat.not_succ_le_zero _)

end PrefixCode

namespace Deflate

open PrefixCode (IsWord spaceTaken maxLength)

variable {bits rest : Bits} {out out' : Array UInt8}

/-- A number is read exactly from its bits. -/
theorem readNat_eq_ok_iff {width n : Nat} :
    readNat width bits = .ok (n, rest) ↔ n < 2 ^ width ∧ bits = Bits.ofNat width n ++ rest := by
  rw [← Bits.takeNat?_eq_some_iff, readNat]
  cases bits.takeNat? width with
  | none => exact ⟨fun h => (by cases h), fun h => (by cases h)⟩
  | some result =>
    exact ⟨fun h => congrArg some (Except.ok.inj h),
      fun h => congrArg Except.ok (Option.some.inj h)⟩

/-! ## Symbols and values -/

/-- Both codes have words that find their places. -/
structure WordLengths.Fits (lengths : WordLengths) : Prop where
  symbols : spaceTaken lengths.symbols ≤ Word.size maxLength
  distances : spaceTaken lengths.distances ≤ Word.size maxLength

/-- The words of the fixed codes find their places. -/
theorem WordLengths.fits_fixed : WordLengths.fixed.Fits := by
  constructor <;> decide +kernel

/-- The words of codes that a block brings with it find their places. -/
theorem SpellsCodes.fits {lengths : WordLengths} (h : SpellsCodes lengths bits) : lengths.Fits := by
  cases h with
  | mk _ _ _ _ _ _ _ _ _ hsymbols hdistances =>
    exact ⟨PrefixCode.spaceTaken_le_of_isUsable hsymbols,
      PrefixCode.spaceTaken_le_of_isUsable hdistances⟩

/-- A symbol is read from its word, whatever follows. -/
theorem readSymbol_of_isWord {lengths : List Nat} {symbol : Nat} {word : Bits}
    (hspace : spaceTaken lengths ≤ Word.size maxLength) (h : IsWord lengths symbol word)
    (rest : Bits) : readSymbol (.ofLengths lengths) (word ++ rest) = .ok (symbol, rest) := by
  rw [readSymbol, PrefixCode.decode_of_isWord hspace h]

/-- A symbol is read exactly from its word. -/
theorem readSymbol_eq_ok_iff {lengths : List Nat} {symbol : Nat}
    (hspace : spaceTaken lengths ≤ Word.size maxLength) :
    readSymbol (.ofLengths lengths) bits = .ok (symbol, rest) ↔
      ∃ word, IsWord lengths symbol word ∧ bits = word ++ rest := by
  constructor
  · intro h
    rw [readSymbol] at h
    split at h
    · next value later hdecode =>
      obtain ⟨rfl, rfl⟩ := Prod.mk.inj (Except.ok.inj h)
      exact PrefixCode.exists_isWord_of_decode hdecode
    · cases h
    · cases h
  · rintro ⟨word, hword, rfl⟩
    exact readSymbol_of_isWord hspace hword rest

/-- A value of a class is read exactly from the bits that pick it. -/
theorem readInClass_eq_ok_iff {classes : List (Nat × Nat)} {number value : Nat} :
    readInClass classes number bits = .ok (value, rest) ↔
      ∃ extra, PicksValue classes number value extra ∧ bits = extra ++ rest := by
  constructor
  · intro h
    rw [readInClass] at h
    split at h
    · cases h
    · next smallest width hlisted =>
      obtain ⟨⟨above, later⟩, hread, heq⟩ := Success.of_bind h
      obtain ⟨rfl, rfl⟩ := Prod.mk.inj (Except.ok.inj heq)
      obtain ⟨hlt, rfl⟩ := readNat_eq_ok_iff.mp hread
      exact ⟨_, .mk hlisted hlt, rfl⟩
  · rintro ⟨_, ⟨hlisted, hlt⟩, rfl⟩
    rw [readInClass, hlisted]
    dsimp only
    rw [readNat_eq_ok_iff.mpr ⟨hlt, rfl⟩, Success.bind_ok]

/-! ## Items -/

variable {lengths : WordLengths}

/-- What is read of a block is the description of an item, or the word at its end. -/
theorem of_readItem (hfits : lengths.Fits) {item : Option Lz77.Item}
    (h : readItem lengths.codes bits = .ok (item, rest)) :
    (∃ next word, item = some next ∧ SpellsItem lengths next word ∧ bits = word ++ rest) ∨
      ∃ word, item = none ∧ IsWord lengths.symbols endOfBlock word ∧ bits = word ++ rest := by
  obtain ⟨⟨symbol, later⟩, hsymbol, hread⟩ := Success.of_bind h
  obtain ⟨word, hword, rfl⟩ := (readSymbol_eq_ok_iff hfits.symbols).mp hsymbol
  dsimp only at hread
  split at hread
  · next hbyte =>
    obtain ⟨rfl, rfl⟩ := Prod.mk.inj (Except.ok.inj hread)
    have htoNat : symbol.toUInt8.toNat = symbol := UInt8.toNat_ofNat_of_lt' hbyte
    exact .inl ⟨_, word, rfl, .literal (by rwa [htoNat]), rfl⟩
  · next hbyte =>
    split at hread
    · next hend =>
      obtain ⟨rfl, rfl⟩ := Prod.mk.inj (Except.ok.inj hread)
      exact .inr ⟨word, rfl, by rwa [← hend], rfl⟩
    · next hend =>
      obtain ⟨⟨length, afterLength⟩, hlength, hread⟩ := Success.of_bind hread
      obtain ⟨⟨number, afterNumber⟩, hnumber, hread⟩ := Success.of_bind hread
      obtain ⟨⟨distance, afterDistance⟩, hdistance, hread⟩ := Success.of_bind hread
      obtain ⟨rfl, rfl⟩ := Prod.mk.inj (Except.ok.inj hread)
      obtain ⟨longer, hlonger, rfl⟩ := readInClass_eq_ok_iff.mp hlength
      obtain ⟨word', hword', rfl⟩ := (readSymbol_eq_ok_iff hfits.distances).mp hnumber
      obtain ⟨farther, hfarther, rfl⟩ := readInClass_eq_ok_iff.mp hdistance
      have hfirst : firstLength + (symbol - firstLength) = symbol := by
        rw [firstLength]
        rw [endOfBlock] at hbyte hend
        omega
      refine .inl ⟨_, _, rfl, .copy (by rwa [hfirst]) hlonger hword' hfarther, ?_⟩
      simp only [List.append_assoc]

/-- An item is read from its bits. -/
theorem readItem_of_spellsItem (hfits : lengths.Fits) {item : Lz77.Item} {word : Bits}
    (h : SpellsItem lengths item word) (rest : Bits) :
    readItem lengths.codes (word ++ rest) = .ok (some item, rest) := by
  cases h with
  | literal hword =>
    next byte =>
    have hbyte : byte.toNat < endOfBlock := byte.toNat_lt
    rw [readItem, WordLengths.codes, readSymbol_of_isWord hfits.symbols hword, Success.bind_ok]
    dsimp only
    rw [if_pos hbyte, Nat.toUInt8_eq, UInt8.ofNat_toNat]
  | copy hword hlength hword' hdistance =>
    next lengthNumber distanceNumber distance length word longer word' farther =>
    have hlater : ¬firstLength + lengthNumber < endOfBlock ∧
        firstLength + lengthNumber ≠ endOfBlock := by
      rw [firstLength, endOfBlock]
      omega
    rw [readItem, WordLengths.codes, List.append_assoc, List.append_assoc, List.append_assoc,
      readSymbol_of_isWord hfits.symbols hword, Success.bind_ok]
    dsimp only
    rw [if_neg hlater.1, if_neg hlater.2, Nat.add_sub_cancel_left,
      readInClass_eq_ok_iff.mpr ⟨_, hlength, rfl⟩, Success.bind_ok]
    dsimp only
    rw [readSymbol_of_isWord hfits.distances hword', Success.bind_ok]
    dsimp only
    rw [readInClass_eq_ok_iff.mpr ⟨_, hdistance, rfl⟩, Success.bind_ok]

/-- The end of a block is read from its word. -/
theorem readItem_of_isWord_end (hfits : lengths.Fits) {word : Bits}
    (h : IsWord lengths.symbols endOfBlock word) (rest : Bits) :
    readItem lengths.codes (word ++ rest) = .ok (none, rest) := by
  rw [readItem, WordLengths.codes, readSymbol_of_isWord hfits.symbols h, Success.bind_ok]
  rfl

/-- A block ends with an item that cannot be read. -/
theorem readItems_of_error {codes : Codes} {e : Error} (h : readItem codes bits = .error e) :
    readItems codes out bits = .error e := by
  rw [readItems]
  split
  · next e' heq => rw [Except.error.inj (heq.symm.trans h)]
  · next heq => cases heq.symm.trans h
  · next heq => cases heq.symm.trans h

/-- A block of symbols is read exactly from a description of its items, and as what they add to the
output. -/
theorem readItems_eq_ok_iff (hfits : lengths.Fits) :
    readItems lengths.codes out bits = .ok (out', rest) ↔
      ∃ items word, SpellsItems lengths items word ∧ bits = word ++ rest ∧
        out' = Lz77.expand out items := by
  constructor
  · intro h
    induction out, bits using readItems.induct lengths.codes with
    | case1 out bits e hread =>
      rw [readItems_of_error hread] at h
      cases h
    | case2 out bits later hread =>
      rw [readItems_of_none hread] at h
      obtain ⟨rfl, rfl⟩ := Prod.mk.inj (Except.ok.inj h)
      rcases of_readItem hfits hread with ⟨_, _, hsome, -, -⟩ | ⟨word, -, hword, rfl⟩
      · cases hsome
      · exact ⟨[], word, .done hword, rfl, rfl⟩
    | case3 out bits item later hread _ ih =>
      rw [readItems_of_some hread] at h
      obtain ⟨items, word', hitems, rfl, rfl⟩ := ih h
      rcases of_readItem hfits hread with ⟨next, word, hsome, hitem, rfl⟩ | ⟨_, hnone, -, -⟩
      · obtain rfl := Option.some.inj hsome
        refine ⟨item :: items, word ++ word', .cons hitem hitems, ?_,
          (Lz77.expand_append out [item] items).symm⟩
        rw [List.append_assoc]
      · cases hnone
  · rintro ⟨items, word, hspells, rfl, rfl⟩
    induction hspells generalizing out with
    | done hword => exact readItems_of_none (readItem_of_isWord_end hfits hword rest)
    | cons hitem _ ih =>
      rw [List.append_assoc, readItems_of_some (readItem_of_spellsItem hfits hitem _), ih,
        ← Lz77.expand_append]
      rfl

end Deflate
end HostKit
