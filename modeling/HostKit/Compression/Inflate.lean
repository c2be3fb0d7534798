import HostKit.Compression.Deflate
import HostKit.Success

/-!
# Deflate: reading

Each reader takes bits from the front and returns the bits after them, never more than there
were; that is why the loops over symbols and blocks end.
-/

namespace HostKit.Deflate

/-- A number of so many bits. -/
def readNat (width : Nat) (bits : Bits) : Except Error (Nat × Bits) :=
  match bits.takeNat? width with
  | some result => .ok result
  | none => .error .incomplete

/-- A symbol of the code. Bits that no word starts are an error of the data only where they are
as many as the longest word may have; fewer may still go on. -/
def readSymbol (code : PrefixCode) (bits : Bits) : Except Error (Nat × Bits) :=
  match code.decode bits with
  | .symbol value rest => .ok (value, rest)
  | .unassigned => .error (if bits.length < PrefixCode.maxLength then .incomplete else .corrupt)
  | .exhausted => .error .incomplete

/-- A value of a class, picked by extra bits. -/
def readInClass (classes : List (Nat × Nat)) (number : Nat) (bits : Bits) :
    Except Error (Nat × Bits) :=
  match classes[number]? with
  | none => .error .corrupt
  | some (smallest, extra) => do
    let (n, bits) ← readNat extra bits
    .ok (smallest + n, bits)

/-- The next item of a block, or nothing at its end. -/
def readItem (codes : Codes) (bits : Bits) : Except Error (Option Lz77.Item × Bits) := do
  let (symbol, bits) ← readSymbol codes.symbols bits
  if symbol < endOfBlock then .ok (some (.literal symbol.toUInt8), bits)
  else if symbol = endOfBlock then .ok (none, bits)
  else do
    let (length, bits) ← readInClass lengthClasses (symbol - firstLength) bits
    let (number, bits) ← readSymbol codes.distances bits
    let (distance, bits) ← readInClass distanceClasses number bits
    .ok (some (.copy distance length), bits)

/-- A number taken leaves no more bits than there were. -/
theorem readNat_rest_le {width : Nat} {bits : Bits} {n : Nat} {rest : Bits}
    (h : readNat width bits = .ok (n, rest)) : rest.length ≤ bits.length := by
  unfold readNat at h
  split at h
  · rename_i result hr
    simp only [Except.ok.injEq] at h
    subst h
    have := Bits.length_of_takeNat? hr
    omega
  · simp at h

/-- A symbol takes at least one bit. -/
theorem readSymbol_rest_lt {code : PrefixCode} {bits : Bits} {n : Nat} {rest : Bits}
    (h : readSymbol code bits = .ok (n, rest)) : rest.length < bits.length := by
  unfold readSymbol at h
  split at h
  · rename_i value later hd
    simp only [Except.ok.injEq, Prod.mk.injEq] at h
    obtain ⟨-, rfl⟩ := h
    exact PrefixCode.decode_rest_lt hd
  · simp at h
  · simp at h

/-- A value of a class leaves no more bits than there were. -/
theorem readInClass_rest_le {classes : List (Nat × Nat)} {number : Nat} {bits : Bits}
    {n : Nat} {rest : Bits} (h : readInClass classes number bits = .ok (n, rest)) :
    rest.length ≤ bits.length := by
  unfold readInClass at h
  split at h
  · simp at h
  · obtain ⟨⟨n, afterNumber⟩, hn, h⟩ := Success.of_bind h
    cases h
    exact readNat_rest_le hn

/-- An item takes at least one bit. -/
theorem readItem_rest_lt {codes : Codes} {bits : Bits} {item : Option Lz77.Item} {rest : Bits}
    (h : readItem codes bits = .ok (item, rest)) : rest.length < bits.length := by
  unfold readItem at h
  obtain ⟨⟨symbol, afterSymbol⟩, hs, h⟩ := Success.of_bind h
  have symbolTaken := readSymbol_rest_lt hs
  dsimp only at h
  split at h
  · cases h
    exact symbolTaken
  · split at h
    · cases h
      exact symbolTaken
    · obtain ⟨⟨length, afterLength⟩, hl, h⟩ := Success.of_bind h
      obtain ⟨⟨number, afterNumber⟩, hn, h⟩ := Success.of_bind h
      obtain ⟨⟨distance, afterDistance⟩, hd, h⟩ := Success.of_bind h
      have lengthTaken := readInClass_rest_le hl
      have numberTaken := readSymbol_rest_lt hn
      have distanceTaken := readInClass_rest_le hd
      cases h
      dsimp only at *
      omega

/-- The output of a block of symbols, after what has been produced before. -/
def readItems (codes : Codes) (out : Array UInt8) (bits : Bits) :
    Except Error (Array UInt8 × Bits) :=
  match h : readItem codes bits with
  | .error e => .error e
  | .ok (none, rest) => .ok (out, rest)
  | .ok (some item, rest) =>
    have : rest.length < bits.length := readItem_rest_lt h
    readItems codes (Lz77.expand out [item]) rest
  termination_by bits.length

/-- A block of symbols leaves no more bits than there were. -/
theorem readItems_rest_le {codes : Codes} {out out' : Array UInt8} {bits rest : Bits}
    (h : readItems codes out bits = .ok (out', rest)) : rest.length ≤ bits.length := by
  fun_induction readItems codes out bits with
  | case1 => simp at h
  | case2 out bits rest' hi =>
    simp only [Except.ok.injEq, Prod.mk.injEq] at h
    obtain ⟨-, rfl⟩ := h
    exact Nat.le_of_lt (readItem_rest_lt hi)
  | case3 out bits item rest' hi _ ih =>
    have := ih h
    have := readItem_rest_lt hi
    omega

/-- So many bytes as they are. -/
def readStored (count : Nat) (out : Array UInt8) (bits : Bits) :
    Except Error (Array UInt8 × Bits) :=
  match count with
  | 0 => .ok (out, bits)
  | count + 1 =>
    match bits.takeNat? 8 with
    | none => .error .incomplete
    | some (byte, rest) => readStored count (out.push byte.toUInt8) rest

/-- Stored bytes leave no more bits than there were. -/
theorem readStored_rest_le {count : Nat} {out out' : Array UInt8} {bits rest : Bits}
    (h : readStored count out bits = .ok (out', rest)) : rest.length ≤ bits.length := by
  induction count generalizing out bits with
  | zero =>
    simp only [readStored, Except.ok.injEq, Prod.mk.injEq] at h
    obtain ⟨-, rfl⟩ := h
    exact Nat.le_refl _
  | succ count ih =>
    unfold readStored at h
    split at h
    · simp at h
    · rename_i byte later hb
      have := ih h
      have := Bits.length_of_takeNat? hb
      omega

/-- A stored block: from the next full byte on, its size, the size with its bits inverted,
and the bytes. -/
def readStoredBlock (out : Array UInt8) (bits : Bits) : Except Error (Array UInt8 × Bits) := do
  let (size, bits) ← readNat 16 bits.align
  let (inverted, bits) ← readNat 16 bits
  if size + inverted = 65535 then readStored size out bits else .error .corrupt

/-- The word lengths of the code for word lengths, as they are written. -/
def readOrdered : (count : Nat) → Bits → Except Error (List Nat × Bits)
  | 0, bits => .ok ([], bits)
  | count + 1, bits => do
    let (length, bits) ← readNat 3 bits
    let (lengths, bits) ← readOrdered count bits
    .ok (length :: lengths, bits)

/-- The word lengths of the code for word lengths, by symbol. -/
def unorder (written : List Nat) : List Nat :=
  (List.range 19).map fun symbol => written.getD (lengthOrder.idxOf symbol) 0

/-- How often a length repeats for a symbol above the lengths themselves, and which. -/
def readRepeat (symbol : Nat) (previous : Option Nat) (bits : Bits) :
    Except Error ((Nat × Nat) × Bits) :=
  match symbol, previous with
  | 16, none => .error .corrupt
  | 16, some length => do
    let (n, bits) ← readNat 2 bits
    .ok ((n + 3, length), bits)
  | 17, _ => do
    let (n, bits) ← readNat 3 bits
    .ok ((n + 3, 0), bits)
  | _, _ => do
    let (n, bits) ← readNat 7 bits
    .ok ((n + 11, 0), bits)

/-- The word lengths of the two codes, `missing` of them still to come, after those read so
far, latest first. A repetition must not go beyond the last of them. -/
def readLengths (code : PrefixCode) (missing : Nat) (read : List Nat) (bits : Bits) :
    Except Error (List Nat × Bits) :=
  match missing with
  | 0 => .ok (read.reverse, bits)
  | missing + 1 => do
    let (symbol, bits) ← readSymbol code bits
    if symbol < 16 then readLengths code missing (symbol :: read) bits
    else do
      let ((count, length), bits) ← readRepeat symbol read.head? bits
      if _bounds : 0 < count ∧ count ≤ missing + 1 then
        readLengths code (missing + 1 - count) (List.replicate count length ++ read) bits
      else .error .corrupt
  termination_by missing

/-- Whether a code with these word lengths can be used: it is complete or has one word at
most. -/
def isUsable (lengths : List Nat) : Bool :=
  PrefixCode.isComplete lengths || PrefixCode.usedCount lengths ≤ 1

/-- The codes a block brings with it. -/
def readCodes (bits : Bits) : Except Error (Codes × Bits) := do
  let (symbolCount, bits) ← readNat 5 bits
  let (distanceCount, bits) ← readNat 5 bits
  let (orderedCount, bits) ← readNat 4 bits
  let symbolCount := symbolCount + 257
  let distanceCount := distanceCount + 1
  if 286 < symbolCount ∨ 30 < distanceCount then .error .corrupt
  else do
    let (written, bits) ← readOrdered (orderedCount + 4) bits
    let lengthLengths := unorder written
    if PrefixCode.isComplete lengthLengths then do
      let (lengths, bits) ←
        readLengths (.ofLengths lengthLengths) (symbolCount + distanceCount) [] bits
      let symbolLengths := lengths.take symbolCount
      let distanceLengths := lengths.drop symbolCount
      if isUsable symbolLengths && isUsable distanceLengths then
        .ok (⟨.ofLengths symbolLengths, .ofLengths distanceLengths⟩, bits)
      else .error .corrupt
    else .error .corrupt

/-- The body of a block, by its type. -/
def readBlock (low high : Bool) (out : Array UInt8) (bits : Bits) :
    Except Error (Array UInt8 × Bits) :=
  match high, low with
  | false, false => readStoredBlock out bits
  | false, true => readItems fixedCodes out bits
  | true, false => do
    let (codes, bits) ← readCodes bits
    readItems codes out bits
  | true, true => .error .corrupt

/-- A stored block leaves no more bits than there were. -/
theorem readStoredBlock_rest_le {out out' : Array UInt8} {bits rest : Bits}
    (h : readStoredBlock out bits = .ok (out', rest)) : rest.length ≤ bits.length := by
  unfold readStoredBlock at h
  obtain ⟨⟨size, afterSize⟩, hs, h⟩ := Success.of_bind h
  obtain ⟨⟨inverted, afterInverted⟩, hi, h⟩ := Success.of_bind h
  dsimp only at h
  split at h
  · have aligned : bits.align.length ≤ bits.length := by simp [Bits.align]
    have := readNat_rest_le hs
    have := readNat_rest_le hi
    have := readStored_rest_le h
    omega
  · simp at h

/-- Word lengths in their written order leave no more bits than there were. -/
theorem readOrdered_rest_le {count : Nat} {bits : Bits} {lengths : List Nat} {rest : Bits}
    (h : readOrdered count bits = .ok (lengths, rest)) : rest.length ≤ bits.length := by
  induction count generalizing bits lengths with
  | zero =>
    cases h
    exact Nat.le_refl _
  | succ count ih =>
    unfold readOrdered at h
    obtain ⟨⟨length, afterLength⟩, hn, h⟩ := Success.of_bind h
    obtain ⟨⟨others, afterOthers⟩, ho, h⟩ := Success.of_bind h
    cases h
    exact Nat.le_trans (ih ho) (readNat_rest_le hn)

/-- A repetition leaves no more bits than there were. -/
theorem readRepeat_rest_le {symbol : Nat} {previous : Option Nat} {bits : Bits}
    {result : Nat × Nat} {rest : Bits} (h : readRepeat symbol previous bits = .ok (result, rest)) :
    rest.length ≤ bits.length := by
  unfold readRepeat at h
  split at h
  · simp at h
  all_goals
    obtain ⟨⟨n, afterNumber⟩, hn, h⟩ := Success.of_bind h
    cases h
    exact readNat_rest_le hn

/-- Word lengths leave no more bits than there were. -/
theorem readLengths_rest_le {code : PrefixCode} {missing : Nat} {read lengths : List Nat}
    {bits rest : Bits} (h : readLengths code missing read bits = .ok (lengths, rest)) :
    rest.length ≤ bits.length := by
  induction missing using Nat.strongRecOn generalizing read bits with
  | _ missing ih =>
    unfold readLengths at h
    split at h
    · cases h
      exact Nat.le_refl _
    · rename_i missing
      obtain ⟨⟨symbol, afterSymbol⟩, hs, h⟩ := Success.of_bind h
      have := readSymbol_rest_lt hs
      dsimp only at h
      split at h
      · have := ih missing (by omega) h
        omega
      · obtain ⟨⟨⟨count, length⟩, afterRepeat⟩, hr, h⟩ := Success.of_bind h
        have := readRepeat_rest_le hr
        dsimp only at h
        split at h
        · have := ih _ (by omega) h
          omega
        · simp at h

/-- The codes of a block leave no more bits than there were. -/
theorem readCodes_rest_le {bits : Bits} {codes : Codes} {rest : Bits}
    (h : readCodes bits = .ok (codes, rest)) : rest.length ≤ bits.length := by
  unfold readCodes at h
  obtain ⟨⟨symbolCount, afterSymbolCount⟩, hs, h⟩ := Success.of_bind h
  obtain ⟨⟨distanceCount, afterDistanceCount⟩, hd, h⟩ := Success.of_bind h
  obtain ⟨⟨orderedCount, afterOrderedCount⟩, hc, h⟩ := Success.of_bind h
  dsimp only at h
  split at h
  · simp at h
  · obtain ⟨⟨written, afterWritten⟩, hw, h⟩ := Success.of_bind h
    dsimp only at h
    split at h
    · obtain ⟨⟨lengths, afterLengths⟩, hl, h⟩ := Success.of_bind h
      dsimp only at h
      split at h
      · cases h
        have := readNat_rest_le hs
        have := readNat_rest_le hd
        have := readNat_rest_le hc
        have := readOrdered_rest_le hw
        have := readLengths_rest_le hl
        omega
      · simp at h
    · simp at h

/-- The body of a block leaves no more bits than there were. -/
theorem readBlock_rest_le {low high : Bool} {out out' : Array UInt8} {bits rest : Bits}
    (h : readBlock low high out bits = .ok (out', rest)) : rest.length ≤ bits.length := by
  unfold readBlock at h
  split at h
  · exact readStoredBlock_rest_le h
  · exact readItems_rest_le h
  · obtain ⟨⟨codes, afterCodes⟩, hc, h⟩ := Success.of_bind h
    exact Nat.le_trans (readItems_rest_le h) (readCodes_rest_le hc)
  · simp at h

/-- The output of the blocks up to the one marked as the last, after what has been produced
before. -/
def readBlocks (out : Array UInt8) (bits : Bits) : Except Error (Array UInt8 × Bits) :=
  match bits with
  | last :: low :: high :: body =>
    match h : readBlock low high out body with
    | .error e => .error e
    | .ok (out, rest) =>
      have : rest.length ≤ body.length := readBlock_rest_le h
      if last then .ok (out, rest) else readBlocks out rest
  | _ => .error .incomplete
  termination_by bits.length

end HostKit.Deflate
