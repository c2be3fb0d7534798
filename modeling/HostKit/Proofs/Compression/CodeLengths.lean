import HostKit.Proofs.Compression.SymbolBlocks

/-!
# Reading the codes of a block

The lengths of both codes are one row, in which a symbol stands for a length or for a repetition;
a repetition may go on from the first code into the second, but not beyond the last length. The
reader takes exactly the rows of the right number of lengths, and of these the ones whose lengths
make up codes that can be used.
-/

namespace HostKit.Deflate

open PrefixCode (IsWord spaceTaken_le_of_isComplete)

variable {bits rest : Bits}

/-! ## The code for lengths -/

/-- Lengths in their written order are read exactly from three bits for each of them. -/
theorem readOrdered_eq_ok_iff {count : Nat} {written : List Nat} :
    readOrdered count bits = .ok (written, rest) ↔
      written.length = count ∧ (∀ length ∈ written, length < 8) ∧
        bits = written.flatMap (Bits.ofNat 3) ++ rest := by
  constructor
  · intro h
    induction count generalizing bits written with
    | zero =>
      obtain ⟨rfl, rfl⟩ := Prod.mk.inj (Except.ok.inj h)
      exact ⟨rfl, by simp, rfl⟩
    | succ count ih =>
      obtain ⟨⟨length, later⟩, hlength, hread⟩ := Success.of_bind h
      obtain ⟨⟨lengths, others⟩, hlengths, hread⟩ := Success.of_bind hread
      obtain ⟨rfl, rfl⟩ := Prod.mk.inj (Except.ok.inj hread)
      obtain ⟨hlt, rfl⟩ := readNat_eq_ok_iff.mp hlength
      obtain ⟨hcount, hlater, rfl⟩ := ih hlengths
      refine ⟨by rw [List.length_cons, hcount], List.forall_mem_cons.mpr ⟨hlt, hlater⟩, ?_⟩
      rw [List.flatMap_cons, List.append_assoc]
  · rintro ⟨rfl, hlt, rfl⟩
    induction written with
    | nil => rfl
    | cons length written ih =>
      obtain ⟨hlength, hlater⟩ := List.forall_mem_cons.mp hlt
      rw [List.length_cons, readOrdered, List.flatMap_cons, List.append_assoc,
        readNat_eq_ok_iff.mpr ⟨hlength, rfl⟩, Success.bind_ok]
      dsimp only
      rw [ih hlater, Success.bind_ok]

/-- There are nineteen symbols in the code for lengths. -/
theorem length_unorder (written : List Nat) : (unorder written).length = 19 := by
  rw [unorder, List.length_map, List.length_range]

/-- A symbol of the code for lengths is one of the nineteen. -/
theorem lt_of_isWord_unorder {written : List Nat} {symbol : Nat} {word : Bits}
    (h : IsWord (unorder written) symbol word) : symbol < 19 := by
  rw [← length_unorder written]
  exact (List.getElem?_eq_some_iff.mp h.length_eq).1

/-! ## Rows of lengths -/

/-- The symbols for repetitions follow those for lengths. -/
theorem Repeats.symbol_bounds {previous : Option Nat} {symbol width least length : Nat}
    (h : Repeats previous symbol width least length) : ¬symbol < 16 ∧ symbol < 19 := by
  cases h <;> decide

/-- A repetition repeats at all. -/
theorem Repeats.least_pos {previous : Option Nat} {symbol width least length : Nat}
    (h : Repeats previous symbol width least length) : 0 < least := by
  cases h <;> decide

/-- A number that is read with a width of its own is added to the least count. -/
theorem readMore_eq_ok_iff {width least count length length' : Nat} :
    (do let (more, later) ← readNat width bits
        .ok ((more + least, length'), later) : Except Error ((Nat × Nat) × Bits)) =
      .ok ((count, length), rest) ↔
    ∃ more, more < 2 ^ width ∧ count = least + more ∧ length' = length ∧
      bits = Bits.ofNat width more ++ rest := by
  constructor
  · intro h
    obtain ⟨⟨more, later⟩, hread, heq⟩ := Success.of_bind h
    obtain ⟨hlt, rfl⟩ := readNat_eq_ok_iff.mp hread
    cases heq
    exact ⟨more, hlt, Nat.add_comm _ _, rfl, rfl⟩
  · rintro ⟨more, hlt, rfl, rfl, rfl⟩
    rw [readNat_eq_ok_iff.mpr ⟨hlt, rfl⟩, Success.bind_ok, Nat.add_comm]

/-- How often a length is repeated is read exactly from the extra bits of the repetition. -/
theorem readRepeat_eq_ok_iff {symbol count length : Nat} {previous : Option Nat}
    (hge : ¬symbol < 16) (hlt : symbol < 19) :
    readRepeat symbol previous bits = .ok ((count, length), rest) ↔
      ∃ width least more, Repeats previous symbol width least length ∧ more < 2 ^ width ∧
        count = least + more ∧ bits = Bits.ofNat width more ++ rest := by
  obtain rfl | rfl | rfl : symbol = 16 ∨ symbol = 17 ∨ symbol = 18 := by omega
  · cases previous with
    | none =>
      refine ⟨fun h => (by cases h), ?_⟩
      rintro ⟨width, least, more, hrepeats, -⟩
      cases hrepeats
    | some previous =>
      refine readMore_eq_ok_iff.trans ⟨?_, ?_⟩
      · rintro ⟨more, hlt, hcount, rfl, hbits⟩
        exact ⟨2, 3, more, .previous previous, hlt, hcount, hbits⟩
      · rintro ⟨width, least, more, ⟨⟩, hlt, hcount, hbits⟩
        exact ⟨more, hlt, hcount, rfl, hbits⟩
  · refine readMore_eq_ok_iff.trans ⟨?_, ?_⟩
    · rintro ⟨more, hlt, hcount, rfl, hbits⟩
      exact ⟨3, 3, more, .zeros previous, hlt, hcount, hbits⟩
    · rintro ⟨width, least, more, ⟨⟩, hlt, hcount, hbits⟩
      exact ⟨more, hlt, hcount, rfl, hbits⟩
  · refine readMore_eq_ok_iff.trans ⟨?_, ?_⟩
    · rintro ⟨more, hlt, hcount, rfl, hbits⟩
      exact ⟨7, 11, more, .manyZeros previous, hlt, hcount, hbits⟩
    · rintro ⟨width, least, more, ⟨⟩, hlt, hcount, hbits⟩
      exact ⟨more, hlt, hcount, rfl, hbits⟩

/-- After a repetition the previous length is the one repeated. -/
theorem head?_replicate_append {count : Nat} (h : 0 < count) (length : Nat) (read : List Nat) :
    (List.replicate count length ++ read).head? = some length := by
  cases count with
  | zero => cases h
  | succ count => rfl

/-- A row of lengths that is read after others is described by the format. -/
theorem of_readLengths {written : List Nat} {missing : Nat} {read lengths : List Nat}
    (hcomplete : PrefixCode.isComplete (unorder written) = true)
    (h : readLengths (.ofLengths (unorder written)) missing read bits = .ok (lengths, rest)) :
    ∃ later word, later.length = missing ∧
      SpellsLengths (unorder written) read.head? later word ∧ bits = word ++ rest ∧
      lengths = read.reverse ++ later := by
  induction missing, read, bits using readLengths.induct with
  | case1 read bits =>
    rw [readLengths] at h
    obtain ⟨rfl, rfl⟩ := Prod.mk.inj (Except.ok.inj h)
    exact ⟨[], [], rfl, .done _, rfl, (List.append_nil _).symm⟩
  | case2 read bits missing ihLength ihRepeat =>
    rw [readLengths] at h
    obtain ⟨⟨symbol, afterSymbol⟩, hsymbol, hread⟩ := Success.of_bind h
    obtain ⟨word, hword, rfl⟩ :=
      (readSymbol_eq_ok_iff (spaceTaken_le_of_isComplete hcomplete)).mp hsymbol
    dsimp only at hread
    split at hread
    · next hlt =>
      obtain ⟨later, word', rfl, hlater, rfl, rfl⟩ := ihLength symbol _ hread
      refine ⟨symbol :: later, word ++ word', rfl, .length hlt hword hlater, ?_, ?_⟩
      · rw [List.append_assoc]
      · rw [List.reverse_cons, List.append_assoc, List.singleton_append]
    · next hge =>
      obtain ⟨⟨⟨count, length⟩, afterRepeat⟩, hrepeat, hnext⟩ := Success.of_bind hread
      obtain ⟨width, least, more, hrepeats, hlt, rfl, rfl⟩ :=
        (readRepeat_eq_ok_iff hge (lt_of_isWord_unorder hword)).mp hrepeat
      dsimp only at hnext
      split at hnext
      · next hbounds =>
        obtain ⟨later, word', hmissing, hlater, rfl, rfl⟩ := ihRepeat _ length _ hbounds hnext
        rw [head?_replicate_append hbounds.1] at hlater
        refine ⟨List.replicate (least + more) length ++ later,
          word ++ (Bits.ofNat width more ++ word'), ?_,
          .repetition hrepeats hlt hword hlater, ?_, ?_⟩
        · rw [List.length_append, List.length_replicate, hmissing]
          omega
        · simp only [List.append_assoc]
        · rw [List.reverse_append, List.reverse_replicate, List.append_assoc]
      · cases hnext

/-- A row of lengths is read from its bits, after others. -/
theorem readLengths_of_spellsLengths {written : List Nat} {previous : Option Nat}
    {later : List Nat} {word : Bits} (hcomplete : PrefixCode.isComplete (unorder written) = true)
    (h : SpellsLengths (unorder written) previous later word) {read : List Nat}
    (hprevious : read.head? = previous) (rest : Bits) :
    readLengths (.ofLengths (unorder written)) later.length read (word ++ rest) =
      .ok (read.reverse ++ later, rest) := by
  have hspace := spaceTaken_le_of_isComplete hcomplete
  induction h generalizing read with
  | done => rw [List.length_nil, readLengths, List.append_nil]; rfl
  | @length previous length lengths word bits hlt hword _ ih =>
    rw [List.length_cons, readLengths, List.append_assoc,
      readSymbol_of_isWord hspace hword, Success.bind_ok]
    dsimp only
    rw [if_pos hlt, ih rfl, List.reverse_cons, List.append_assoc, List.singleton_append]
  | @repetition previous symbol width least length more lengths word bits hrepeats hlt hword _ ih =>
    obtain ⟨hge, hsymbol⟩ := hrepeats.symbol_bounds
    have hpos := hrepeats.least_pos
    obtain ⟨missing, hmissing⟩ : ∃ missing,
        (List.replicate (least + more) length ++ lengths).length = missing + 1 := by
      rw [List.length_append, List.length_replicate]
      exact ⟨least + more + lengths.length - 1, by omega⟩
    have hlengths : missing + 1 - (least + more) = lengths.length := by
      rw [← hmissing, List.length_append, List.length_replicate, Nat.add_sub_cancel_left]
    have hbounds : 0 < least + more ∧ least + more ≤ missing + 1 := by
      rw [← hmissing, List.length_append, List.length_replicate]
      omega
    rw [hmissing, readLengths, List.append_assoc,
      readSymbol_of_isWord hspace hword, Success.bind_ok]
    dsimp only
    rw [if_neg hge, hprevious, List.append_assoc, (readRepeat_eq_ok_iff hge hsymbol).mpr
      ⟨width, least, more, hrepeats, hlt, rfl, rfl⟩, Success.bind_ok]
    dsimp only
    rw [dif_pos hbounds, hlengths, ih (head?_replicate_append hbounds.1 length read),
      List.reverse_append, List.reverse_replicate, List.append_assoc]

/-! ## Both codes -/

/-- The codes of a block are read exactly from a description of their lengths. -/
theorem readCodes_eq_ok_iff {codes : Codes} :
    readCodes bits = .ok (codes, rest) ↔
      ∃ lengths word, SpellsCodes lengths word ∧ bits = word ++ rest ∧ codes = lengths.codes := by
  constructor
  · intro h
    obtain ⟨⟨symbolCount, afterSymbolCount⟩, hsymbolCount, h⟩ := Success.of_bind h
    obtain ⟨⟨distanceCount, afterDistanceCount⟩, hdistanceCount, h⟩ := Success.of_bind h
    obtain ⟨⟨orderedCount, afterOrderedCount⟩, horderedCount, h⟩ := Success.of_bind h
    dsimp only at h
    split at h
    · cases h
    · next hcounts =>
      obtain ⟨⟨written, afterWritten⟩, hwritten, h⟩ := Success.of_bind h
      dsimp only at h
      split at h
      · next hcomplete =>
        obtain ⟨⟨lengths, afterLengths⟩, hlengths, h⟩ := Success.of_bind h
        dsimp only at h
        split at h
        · next husable =>
          rw [Bool.and_eq_true] at husable
          obtain ⟨rfl, rfl⟩ := Prod.mk.inj (Except.ok.inj h)
          obtain ⟨-, rfl⟩ := readNat_eq_ok_iff.mp hsymbolCount
          obtain ⟨-, rfl⟩ := readNat_eq_ok_iff.mp hdistanceCount
          obtain ⟨horderedLt, rfl⟩ := readNat_eq_ok_iff.mp horderedCount
          obtain ⟨hwrittenLength, hwrittenLt, rfl⟩ := readOrdered_eq_ok_iff.mp hwritten
          obtain ⟨_, row, hlength, hrow, rfl, rfl⟩ := of_readLengths hcomplete hlengths
          have hsymbols : (lengths.take (symbolCount + 257)).length = symbolCount + 257 := by
            rw [List.length_take, hlength]
            omega
          have hdistances : (lengths.drop (symbolCount + 257)).length = distanceCount + 1 := by
            rw [List.length_drop, hlength]
            omega
          rw [List.head?_nil, ← List.take_append_drop (symbolCount + 257) lengths] at hrow
          refine ⟨⟨lengths.take (symbolCount + 257), lengths.drop (symbolCount + 257)⟩, _,
            .mk ?_ ?_ ?_ ?_ ?_ ?_ hwrittenLt hcomplete hrow husable.1 husable.2, ?_, rfl⟩
          · omega
          · omega
          · omega
          · omega
          · omega
          · omega
          · rw [hsymbols, hdistances, hwrittenLength]
            simp only [Nat.add_sub_cancel, List.append_assoc]
        · cases h
      · cases h
  · rintro ⟨_, _, ⟨hsymbolsGe, hsymbolsLe, hdistancesGe, hdistancesLe, hwrittenGe, hwrittenLe,
      hwrittenLt, hcomplete, hspells, hsymbols, hdistances⟩, rfl, rfl⟩
    next symbols distances written row =>
    have hsymbolCount : symbols.length - 257 + 257 = symbols.length := Nat.sub_add_cancel hsymbolsGe
    have hdistanceCount : distances.length - 1 + 1 = distances.length :=
      Nat.sub_add_cancel hdistancesGe
    have horderedCount : written.length - 4 + 4 = written.length := Nat.sub_add_cancel hwrittenGe
    have hcounts : ¬(286 < symbols.length ∨ 30 < distances.length) := by omega
    have hnone : ([] : List Nat).head? = none := rfl
    have hrow := readLengths_of_spellsLengths hcomplete hspells hnone rest
    rw [List.length_append, List.reverse_nil, List.nil_append] at hrow
    rw [readCodes]
    simp only [List.append_assoc]
    rw [readNat_eq_ok_iff.mpr ⟨by omega, rfl⟩, Success.bind_ok]
    dsimp only
    rw [readNat_eq_ok_iff.mpr ⟨by omega, rfl⟩, Success.bind_ok]
    dsimp only
    rw [readNat_eq_ok_iff.mpr ⟨by omega, rfl⟩, Success.bind_ok]
    dsimp only
    rw [hsymbolCount, hdistanceCount, horderedCount, if_neg hcounts,
      readOrdered_eq_ok_iff.mpr ⟨rfl, hwrittenLt, rfl⟩, Success.bind_ok]
    dsimp only
    rw [if_pos hcomplete, hrow, Success.bind_ok]
    dsimp only
    rw [List.take_left, List.drop_left, hsymbols, hdistances]
    rfl

end HostKit.Deflate
