import HostKit.Proofs.Text.Utf8Encoding
import HostKit.Proofs.Yaml.QuotedScalars

/-!
# Tags as they are written

A tag is written after a mark: the characters that a tag may hold stand for themselves, and each
other character stands as the bytes that it has in UTF-8. The reader takes a row of letters and
digits for a possible handle first, and reads on in the same way after it. Commas and square
brackets are written as they are but are not read outside angle brackets, so a tag with one of them
is refused. Any other tag is read, but not always as itself: a name that starts with a mark of its
own is written without it, and a zero character ends the tag.
-/

namespace HostKit.Yaml.Tag

/-! ## Bytes -/

/-- A byte is compared by its value. -/
theorem le_byte_iff {low byte : UInt8} {n : Nat} (h : byte.toNat = n) :
    low ≤ byte ↔ low.toNat ≤ n := by
  rw [UInt8.le_iff_toNat_le, h]

theorem byte_lt_iff {byte high : UInt8} {n : Nat} (h : byte.toNat = n) :
    byte < high ↔ n < high.toNat := by
  rw [UInt8.lt_iff_toNat_lt, h]

/-- How many bytes follow is told by the value of the first one. -/
theorem followers?_eq {byte : UInt8} {n : Nat} (h : byte.toNat = n) : followers? byte =
    if n < 0x80 then some 0 else if 0xc0 ≤ n ∧ n < 0xe0 then some 1
      else if 0xe0 ≤ n ∧ n < 0xf0 then some 2
      else if 0xf0 ≤ n ∧ n < 0xf8 then some 3 else none := by
  simp only [followers?, byte_lt_iff h, le_byte_iff h, Bool.and_eq_true, decide_eq_true_eq]
  rfl

/-- The bytes of a character: a first byte that says how many follow, and bytes that can only
follow. -/
theorem exists_encodeChar (c : Char) : ∃ first more, String.utf8EncodeChar c = first :: more ∧
    followers? first = some more.length ∧ ∀ byte ∈ more, 0x80 ≤ byte ∧ byte < 0xc0 := by
  have hrange := Utf8.toNat_range c
  unfold String.utf8EncodeChar
  generalize c.val.toNat = v at *
  have hmore (n : Nat) :
      0x80 ≤ UInt8.ofNat (n % 0x40 + 0x80) ∧ UInt8.ofNat (n % 0x40 + 0x80) < 0xc0 := by
    have hbyte : (UInt8.ofNat (n % 0x40 + 0x80)).toNat = n % 0x40 + 0x80 :=
      Utf8.toNat_byte (by omega)
    rw [le_byte_iff hbyte, byte_lt_iff hbyte]
    change 128 ≤ _ ∧ _ < 192
    omega
  by_cases h1 : v ≤ 0x7f
  · refine ⟨_, _, if_pos h1, ?_, by simp⟩
    rw [followers?_eq (Utf8.toNat_byte (by omega)), if_pos (by omega)]
    rfl
  by_cases h2 : v ≤ 0x7ff
  · refine ⟨_, _, by rw [if_neg h1, if_pos h2], ?_, ?_⟩
    · rw [followers?_eq (Utf8.toNat_byte (by omega)), if_neg (by omega), if_pos (by omega)]
      rfl
    · exact List.forall_mem_cons.mpr ⟨hmore _, by simp⟩
  by_cases h3 : v ≤ 0xffff
  · refine ⟨_, _, by rw [if_neg h1, if_neg h2, if_pos h3], ?_, ?_⟩
    · rw [followers?_eq (Utf8.toNat_byte (by omega)), if_neg (by omega), if_neg (by omega),
        if_pos (by omega)]
      rfl
    · simp only [List.forall_mem_cons]
      exact ⟨hmore _, hmore _, by simp⟩
  · refine ⟨_, _, by rw [if_neg h1, if_neg h2, if_neg h3], ?_, ?_⟩
    · rw [followers?_eq (Utf8.toNat_byte (by omega)), if_neg (by omega), if_neg (by omega),
        if_neg (by omega), if_pos (by omega)]
      rfl
    · simp only [List.forall_mem_cons]
      exact ⟨hmore _, hmore _, hmore _, by simp⟩

/-- A byte is read from its two digits. -/
theorem escapedByte?_hexDigit (byte : UInt8) :
    escapedByte? (Text.hexDigit (byte.toNat / 16)).toUpper (Text.hexDigit byte.toNat).toUpper =
      some byte := by
  have hlt : byte.toNat < 256 := byte.toNat_lt
  have hhigh : byte.toNat / 16 % 16 = byte.toNat / 16 := by omega
  have hsum : byte.toNat / 16 * 16 + byte.toNat % 16 = byte.toNat := by omega
  have hvalues : byte.toNat / 16 < 16 ∧ byte.toNat % 16 < 16 := by omega
  rw [escapedByte?, Escape.digitValue?_hexDigit, Escape.digitValue?_hexDigit, hhigh]
  simp only [bind, Option.bind, if_pos hvalues, hsum]
  exact congrArg some (UInt8.ofNat_toNat)

variable {whole : Bool} {done : Bytes}

/-- The bytes that follow the first one of a character. -/
theorem bytesFrom_followers {more : Bytes} (h : ∀ byte ∈ more, 0x80 ≤ byte ∧ byte < 0xc0)
    (spot : Spot) (rest : Text) :
    bytesFrom whole more.length done (spot.source (more.flatMap writeByte ++ rest)) =
      bytesFrom whole 0 (more.reverse ++ done)
        ((spot.after (more.flatMap writeByte)).source rest) := by
  induction more generalizing done spot with
  | nil => rfl
  | cons byte more ih =>
    obtain ⟨hbyte, hmore⟩ := List.forall_mem_cons.mp h
    have hrange : (0x80 ≤ byte && byte < 0xc0) = true := by simpa using hbyte
    rw [List.flatMap_cons, List.append_assoc, Spot.after_append, writeByte]
    simp only [List.cons_append, List.nil_append, Spot.source_cons, Spot.after_cons, Spot.after_nil,
      List.length_cons]
    rw [bytesFrom.eq_def]
    simp only [Spot.placed_char, if_true, escapedByte?_hexDigit, hrange]
    rw [ih hmore]
    simp

/-- A character that stands as its bytes. -/
theorem bytesFrom_escaped (c : Char) (spot : Spot) (rest : Text) :
    bytesFrom whole 0 done (spot.source ((Utf8.encode [c]).flatMap writeByte ++ rest)) =
      bytesFrom whole 0 ((Utf8.encode [c]).reverse ++ done)
        ((spot.after ((Utf8.encode [c]).flatMap writeByte)).source rest) := by
  obtain ⟨first, more, hchar, hfirst, hmore⟩ := exists_encodeChar c
  have hencode : Utf8.encode [c] = first :: more := by simp [Utf8.encode, hchar]
  rw [hencode, List.flatMap_cons, List.append_assoc, Spot.after_append, writeByte]
  simp only [List.cons_append, List.nil_append, Spot.source_cons, Spot.after_cons, Spot.after_nil]
  rw [bytesFrom.eq_def]
  simp only [Spot.placed_char, if_true, escapedByte?_hexDigit, hfirst]
  rw [bytesFrom_followers hmore]
  simp

/-! ## Parts -/

/-- A name of which every character that is written as it is may be read so. -/
def IsReadable (name : Text) : Prop := ∀ c ∈ name, c ∉ [',', '[', ']']

/-- Letters, digits, hyphens and underscores by their numbers. -/
theorem isNameCharacter_iff {c : Char} : isNameCharacter c = true ↔ 65 ≤ c.toNat ∧ c.toNat ≤ 90 ∨
    97 ≤ c.toNat ∧ c.toNat ≤ 122 ∨ 48 ≤ c.toNat ∧ c.toNat ≤ 57 ∨ c.toNat = 45 ∨ c.toNat = 95 := by
  have hchar (d : Char) : c = d ↔ c.toNat = d.toNat := Char.toNat_inj.symm
  have hval : c.val.toNat = c.toNat := rfl
  simp only [isNameCharacter, Char.isAlphanum, Char.isAlpha, Char.isUpper, Char.isLower,
    Char.isDigit, Bool.or_eq_true, Bool.and_eq_true, decide_eq_true_eq, ge_iff_le,
    UInt32.le_iff_toNat_le, hval, hchar]
  change ((((65 ≤ c.toNat ∧ c.toNat ≤ 90) ∨ (97 ≤ c.toNat ∧ c.toNat ≤ 122)) ∨
    (48 ≤ c.toNat ∧ c.toNat ≤ 57)) ∨ c.toNat = 45) ∨ c.toNat = 95 ↔ _
  omega

/-- Letters, digits, hyphens and underscores are ASCII characters. -/
theorem toNat_lt_of_isNameCharacter {c : Char} (h : isNameCharacter c = true) :
    c.toNat < 128 ∧ c ∉ ['%', '<', '!'] := by
  rw [isNameCharacter_iff] at h
  refine ⟨by omega, ?_⟩
  intro hc
  simp only [List.mem_cons, List.not_mem_nil, or_false] at hc
  rcases hc with rfl | rfl | rfl
  · simp at h
  · simp at h
  · simp at h

/-- The characters that are written as they are in a tag. -/
theorem toNat_lt_of_isWrittenPlainly {c : Char} (h : isWrittenPlainly c = true) :
    c.toNat < 128 ∧ c ∉ ['%', '<', '!'] := by
  have hall : ∀ d ∈ ";/?:@&=+$,.~*'()[]".toList, d.toNat < 128 ∧ d ∉ ['%', '<', '!'] := by simp
  rw [isWrittenPlainly, Bool.or_eq_true, decide_eq_true_eq] at h
  rcases h with h | h
  · exact toNat_lt_of_isNameCharacter h
  · exact hall c h

/-- Letters, digits, hyphens and underscores are written as they are. -/
theorem isWrittenPlainly_of_isNameCharacter {c : Char} (h : isNameCharacter c = true) :
    isWrittenPlainly c = true := by
  rw [isWrittenPlainly, h]
  rfl

/-- A character that is written as it is may stand in a tag if it is no comma and no square
bracket. -/
theorem isTagCharacter_of_isWrittenPlainly {c : Char} (h : isWrittenPlainly c = true)
    (hc : c ∉ [',', '[', ']']) : isTagCharacter false c = true := by
  have hall : ∀ d ∈ ";/?:@&=+$,.~*'()[]".toList, d ∉ [',', '[', ']'] →
      d ∈ ";/?:@&=+$.!~*'()".toList := by simp
  rw [isWrittenPlainly, Bool.or_eq_true, decide_eq_true_eq] at h
  rw [isTagCharacter, Bool.or_eq_true, Bool.or_eq_true, decide_eq_true_eq]
  rcases h with h | h
  · exact .inl (.inl h)
  · exact .inl (.inr (hall c h hc))

/-- A part of a tag ends before the character: a gap, a comma or a square bracket. -/
def EndsPart (c : Char) : Prop := isGap c = true ∨ c ∈ [',', '[', ']']

/-- What ends a part of a tag cannot stand in it. -/
theorem EndsPart.not_isTagCharacter {c : Char} (h : EndsPart c) :
    isTagCharacter false c = false ∧ isNameCharacter c = false ∧ c ∉ ['%', '<', '!'] := by
  have hall : ∀ d ∈ [' ', '\t', '\n', '\r', '\u0085', '\u2028', '\u2029', ',', '[', ']'],
      d ∉ ";/?:@&=+$.!~*'()".toList ∧ d ∉ ['%', '<', '!'] ∧ isNameCharacter d ≠ true := by
    simp [isNameCharacter_iff]
  have hc : c ∈ [' ', '\t', '\n', '\r', '\u0085', '\u2028', '\u2029', ',', '[', ']'] := by
    rcases h with hgap | hmem
    · have hseven : c ∈ [' ', '\t', '\n', '\r', '\u0085', '\u2028', '\u2029'] := by
        simpa [isGap, isSpace, isBreak, or_assoc] using hgap
      exact List.mem_append_left [',', '[', ']'] hseven
    · exact List.mem_append_right [' ', '\t', '\n', '\r', '\u0085', '\u2028', '\u2029'] hmem
  obtain ⟨hlist, hne, hname⟩ := hall c hc
  have hname : isNameCharacter c = false := Bool.not_eq_true _ ▸ hname
  exact ⟨by simp only [isTagCharacter, hname, hlist]; rfl, hname, hne⟩

/-- An ASCII character has one byte. -/
theorem encode_singleton {c : Char} (h : c.toNat < 128) : Utf8.encode [c] = [c.toNat.toUInt8] := by
  have hle : c.val.toNat ≤ 127 := Nat.le_of_lt_succ h
  have hchar : String.utf8EncodeChar c = [c.toNat.toUInt8] := if_pos hle
  simp [Utf8.encode, hchar]

/-- A part is written character by character. -/
theorem writePart_cons (c : Char) (text : Text) : writePart (c :: text) =
    (if isWrittenPlainly c then [c] else (Utf8.encode [c]).flatMap writeByte) ++
      writePart text := rfl

/-- A character that is written as it is stands at the front. -/
theorem writePart_cons_plain {c : Char} (h : isWrittenPlainly c = true) (text : Text) :
    writePart (c :: text) = c :: writePart text := by
  rw [writePart_cons, if_pos h]
  rfl

/-- A part of a tag is read to its end. -/
theorem bytesFrom_writePart {text : Text} (h : IsReadable text) (done : Bytes) (spot : Spot)
    {rest : Text} (hrest : ∀ c ∈ rest.head?, EndsPart c) :
    bytesFrom false 0 done (spot.source (writePart text ++ rest)) =
      .ok (done.reverse ++ Utf8.encode text, (spot.after (writePart text)).source rest) := by
  induction text generalizing done spot with
  | nil =>
    simp only [writePart, Utf8.encode, List.flatMap_nil, List.nil_append, List.append_nil,
      Spot.after_nil]
    cases rest with
    | nil => rfl
    | cons c rest =>
      obtain ⟨htag, -, hne⟩ := (hrest c rfl).not_isTagCharacter
      have hpercent : c ≠ '%' := fun heq => hne (heq ▸ List.mem_cons_self)
      rw [Spot.source_cons, bytesFrom.eq_def]
      simp [hpercent, htag]
  | cons c text ih =>
    obtain ⟨hc, htext⟩ := List.forall_mem_cons.mp h
    have hencode : Utf8.encode (c :: text) = Utf8.encode [c] ++ Utf8.encode text :=
      Utf8.encode_append [c] text
    rw [writePart_cons, List.append_assoc, Spot.after_append, hencode]
    cases hplain : isWrittenPlainly c with
    | true =>
      obtain ⟨hlt, hne⟩ := toNat_lt_of_isWrittenPlainly hplain
      have hpercent : c ≠ '%' := fun heq => hne (heq ▸ List.mem_cons_self)
      have htag := isTagCharacter_of_isWrittenPlainly hplain hc
      simp only [if_true, Spot.after_cons, Spot.after_nil, List.cons_append, List.nil_append,
        Spot.source_cons]
      rw [bytesFrom.eq_def]
      simp only [Spot.placed_char, hpercent, if_false, ne_eq, not_true, htag, if_true]
      rw [ih htext _ _, encode_singleton hlt]
      simp
    | false =>
      simp only [Bool.false_eq_true, if_false]
      rw [bytesFrom_escaped, ih htext _ _]
      simp

/-! ## Handles -/

/-- The characters of a written part. -/
theorem of_mem_writePart {text : Text} {c : Char} (h : c ∈ writePart text) :
    isWrittenPlainly c = true ∨ c = '%' := by
  have hall : ∀ m < 16, isWrittenPlainly (Text.hexDigit m).toUpper = true := by
    intro m hm
    apply isWrittenPlainly_of_isNameCharacter
    rw [isNameCharacter_iff]
    revert m
    decide
  have hdigit (n : Nat) : isWrittenPlainly (Text.hexDigit n).toUpper = true := by
    have hmod : Text.hexDigit n = Text.hexDigit (n % 16) := by
      rw [Text.hexDigit, Text.hexDigit, Nat.mod_mod]
    rw [hmod]
    exact hall _ (Nat.mod_lt n (by decide))
  obtain ⟨d, -, hd⟩ := List.mem_flatMap.mp h
  split at hd
  · next hplain =>
    obtain rfl := List.mem_singleton.mp hd
    exact .inl hplain
  · obtain ⟨byte, -, hbyte⟩ := List.mem_flatMap.mp hd
    simp only [writeByte, List.mem_cons, List.not_mem_nil, or_false] at hbyte
    rcases hbyte with rfl | rfl | rfl
    · exact .inr rfl
    · exact .inl (hdigit _)
    · exact .inl (hdigit _)

/-- Neither a mark nor an opening angle bracket is written as it is. -/
theorem ne_of_mem_writePart {text : Text} {c : Char} (h : c ∈ writePart text) :
    c ≠ '!' ∧ c ≠ '<' := by
  rcases of_mem_writePart h with hc | rfl
  · obtain ⟨-, hne⟩ := toNat_lt_of_isWrittenPlainly hc
    refine ⟨fun heq => hne (heq ▸ by simp), fun heq => hne (heq ▸ by simp)⟩
  · decide

variable {rest : Text}

/-- What follows the name at the front of a tag is neither a mark nor an opening angle bracket. -/
theorem ne_of_head? {text : Text} (hrest : ∀ c ∈ rest.head?, EndsPart c) {c : Char}
    (h : c ∈ (writePart text ++ rest).head?) : c ≠ '!' ∧ c ≠ '<' := by
  cases hwrite : writePart text with
  | nil =>
    rw [hwrite, List.nil_append] at h
    obtain ⟨-, -, hne⟩ := (hrest c h).not_isTagCharacter
    exact ⟨fun heq => hne (heq ▸ by simp), fun heq => hne (heq ▸ by simp)⟩
  | cons d more =>
    obtain rfl : d = c := by simpa [hwrite] using h
    exact ne_of_mem_writePart (hwrite ▸ List.mem_cons_self)

/-- What stands for a character is not empty, and it starts with no letter or digit unless it is
one. -/
theorem exists_writePart_cons (c : Char) (name : Text) :
    ∃ d more, writePart (c :: name) = d :: more ∧
    (isNameCharacter c = false → isNameCharacter d = false) := by
  obtain ⟨first, later, hchar, -, -⟩ := exists_encodeChar c
  have hpercent : isNameCharacter '%' = false := by
    rw [← Bool.not_eq_true, isNameCharacter_iff]
    decide
  cases hplain : isWrittenPlainly c with
  | true => exact ⟨c, writePart name, writePart_cons_plain hplain name, id⟩
  | false =>
    have hwrite : writePart (c :: name) =
        writeByte first ++ (later.flatMap writeByte ++ writePart name) := by
      simp [writePart, hplain, Utf8.encode, hchar]
    exact ⟨'%', _, hwrite, fun _ => hpercent⟩

/-- The name at the front of a tag. -/
theorem splitName_writePart (name : Text) (spot : Spot) (hrest : ∀ c ∈ rest.head?, EndsPart c) :
    Source.splitName (spot.source (writePart name ++ rest)) = (name.takeWhile isNameCharacter,
      (spot.after (name.takeWhile isNameCharacter)).source
        (writePart (name.dropWhile isNameCharacter) ++ rest)) := by
  unfold Source.splitName
  induction name generalizing spot with
  | nil =>
    cases rest with
    | nil => rfl
    | cons c rest =>
      obtain ⟨-, hname, -⟩ := (hrest c rfl).not_isTagCharacter
      simp [writePart, hname]
  | cons c name ih =>
    cases hname : isNameCharacter c with
    | true =>
      have hwrite := writePart_cons_plain (isWrittenPlainly_of_isNameCharacter hname) name
      have hname' := ih (spot.next c)
      simp only [Prod.mk.injEq] at hname' ⊢
      simpa [hwrite, hname] using hname'
    | false =>
      obtain ⟨d, more, hwrite, hd⟩ := exists_writePart_cons c name
      have htake : (c :: name).takeWhile isNameCharacter = [] := by simp [hname]
      have hdrop : (c :: name).dropWhile isNameCharacter = c :: name := by simp [hname]
      rw [htake, hdrop, hwrite]
      simp [hd hname]

/-- A row of letters and digits before another part is no handle. -/
theorem splitHandle_writePart (name : Text) (spot : Spot) (hrest : ∀ c ∈ rest.head?, EndsPart c) :
    splitHandle (spot.source (writePart name ++ rest)) = ('!' :: name.takeWhile isNameCharacter,
      (spot.after (name.takeWhile isNameCharacter)).source
        (writePart (name.dropWhile isNameCharacter) ++ rest)) := by
  have hhead : ∀ c ∈ (writePart (name.dropWhile isNameCharacter) ++ rest).head?, c ≠ '!' :=
    fun c hc => (ne_of_head? hrest hc).1
  rw [splitHandle, splitName_writePart name spot hrest]
  cases hmore : writePart (name.dropWhile isNameCharacter) ++ rest with
  | nil => rfl
  | cons c more =>
    have hc : c ≠ '!' := hhead c (by rw [hmore]; rfl)
    simp [hc]

/-! ## Whole tags -/

/-- The letters and digits at the front of a name stand for themselves. -/
theorem writePart_eq (name : Text) : writePart name =
    name.takeWhile isNameCharacter ++ writePart (name.dropWhile isNameCharacter) := by
  induction name with
  | nil => rfl
  | cons c name ih =>
    cases hname : isNameCharacter c with
    | true =>
      have hwrite := writePart_cons_plain (isWrittenPlainly_of_isNameCharacter hname) name
      simpa [hname, hwrite] using ih
    | false => simp [hname]

/-- The tag that the text after a mark is read as. -/
def ofBody (body : Text) : Written :=
  if untilZero (Utf8.encode body) = [] then ⟨[], Utf8.encode "!"⟩
  else ⟨"!", untilZero (Utf8.encode body)⟩

/-- A text is read after a mark up to what ends it. -/
theorem readUnended_writePart {body : Text} (h : IsReadable body) (spot : Spot)
    (hrest : ∀ c ∈ rest.head?, EndsPart c) :
    readUnended (spot.source (writePart body ++ rest)) =
      .ok (ofBody body, (spot.after (writePart body)).source rest) := by
  have hjoin : body.takeWhile isNameCharacter ++ body.dropWhile isNameCharacter = body :=
    List.takeWhile_append_dropWhile
  have hdrop : IsReadable (body.dropWhile isNameCharacter) :=
    fun c hc => h c (List.dropWhile_subset _ hc)
  have hbytes := bytesFrom_writePart hdrop [] (spot.after (body.takeWhile isNameCharacter)) hrest
  rw [← Spot.after_append, ← writePart_eq] at hbytes
  have hsuffix : Utf8.encode (('!' :: body.takeWhile isNameCharacter).drop 1) ++
      ([].reverse ++ Utf8.encode (body.dropWhile isNameCharacter)) = Utf8.encode body := by
    rw [List.reverse_nil, List.nil_append, List.drop_one, List.tail_cons,
      ← Utf8.encode_append, hjoin]
  have hhandle : ¬(1 < ('!' :: body.takeWhile isNameCharacter).length ∧
      ('!' :: body.takeWhile isNameCharacter).getLast? = some '!') := by
    intro ⟨hlength, hlast⟩
    rw [List.getLast?_cons] at hlast
    cases hfront : (body.takeWhile isNameCharacter).getLast? with
    | none =>
      rw [List.getLast?_eq_none_iff] at hfront
      rw [hfront] at hlength
      exact absurd hlength (by decide)
    | some c =>
      obtain rfl : c = '!' := by simpa [hfront] using hlast
      have hmark := List.mem_takeWhile_imp (List.mem_of_getLast? hfront)
      exact (toNat_lt_of_isNameCharacter hmark).2 (by simp)
  have hsplit := splitHandle_writePart body spot hrest
  cases hfront : writePart body ++ rest with
  | nil =>
    obtain ⟨hwrite, rfl⟩ := List.append_eq_nil_iff.mp hfront
    cases body with
    | nil => rfl
    | cons c body =>
      obtain ⟨d, more, hcons, -⟩ := exists_writePart_cons c body
      rw [hcons] at hwrite
      cases hwrite
  | cons c more =>
    have hhead : c ∈ (writePart body ++ rest).head? := by
      rw [hfront]
      rfl
    have hc : c ≠ '<' := (ne_of_head? hrest hhead).2
    rw [hfront, Spot.source_cons] at hsplit
    rw [Spot.source_cons, readUnended]
    simp only [Spot.placed_char, hc, if_false, hsplit]
    rw [if_neg hhandle, hbytes]
    simp only [bind, Except.bind, hsuffix, ofBody]
    split
    · rfl
    · rfl

/-- The mark alone is written in angle brackets. -/
theorem readUnended_mark (spot : Spot) :
    readUnended (spot.source ("<%21>".toList ++ rest)) =
      .ok (ofBody [], (spot.after "<%21>".toList).source rest) := by
  have hbytes : bytesFrom true 0 [] ((spot.next '<').source ("%21>".toList ++ rest)) =
      .ok ([0x21], (spot.after "<%21".toList).source ('>' :: rest)) := by
    have hescaped := @bytesFrom_escaped true [] '!' (spot.next '<') ('>' :: rest)
    have hwrite : (Utf8.encode ['!']).flatMap writeByte = "%21".toList := rfl
    have hclose : isTagCharacter true '>' = false := by simp [isTagCharacter, isNameCharacter]
    rw [hwrite] at hescaped
    rw [show "%21>".toList ++ rest = "%21".toList ++ '>' :: rest from rfl, hescaped,
      Spot.source_cons,
      bytesFrom.eq_def]
    simp [hclose]
    rfl
  rw [show "<%21>".toList ++ rest = '<' :: ("%21>".toList ++ rest) from rfl, Spot.source_cons,
    readUnended]
  simp only [Spot.placed_char, if_true, readPart, hbytes]
  rfl

/-- A tag starts with a mark. -/
theorem exists_marked (name : Text) : ∃ body, marked name = '!' :: body := by
  unfold marked
  split
  · exact ⟨_, rfl⟩
  · exact ⟨_, rfl⟩

/-- The text of a tag after its mark. -/
def bodyOf (name : Text) : Text := (marked name).tail

/-- The mark of a name is left out once. -/
theorem bodyOf_cons {c : Char} (hc : c ≠ '!') (name : Text) : bodyOf (c :: name) = c :: name := by
  unfold bodyOf marked
  split
  · next heq => exact absurd (List.cons.inj heq).1 hc
  · rfl

/-- What is written after the mark of a tag. -/
def afterMark (name : Text) : Text :=
  if bodyOf name = [] then "<%21>" else writePart (bodyOf name)

theorem write_eq (name : Text) : write name = '!' :: afterMark name := by
  have hbody : (marked name).tail = bodyOf name := rfl
  rw [write, List.drop_one, hbody, afterMark]
  split
  · next heq =>
    rw [if_pos heq]
    rfl
  · next hne => rw [if_neg hne]

/-- A name has a comma or square bracket exactly if the text after its mark has one. -/
theorem isReadable_bodyOf_iff (name : Text) : IsReadable (bodyOf name) ↔ IsReadable name := by
  cases name with
  | nil => exact Iff.rfl
  | cons c name =>
    by_cases hc : c = '!'
    · rw [hc]
      change IsReadable name ↔ IsReadable ('!' :: name)
      simp [IsReadable]
    · rw [bodyOf_cons hc]

/-- A tag without commas and square brackets is read. -/
theorem read_afterMark {name : Text} (h : IsReadable name) (spot : Spot)
    (hrest : ∀ c ∈ rest.head?, isGap c = true) :
    read false ((spot.next '!').source (afterMark name ++ rest)) =
      .ok (ofBody (bodyOf name), (spot.after (write name)).source rest) := by
  have hgap (spot : Spot) : Source.atGap (spot.source rest) = true := by
    cases rest with
    | nil => rfl
    | cons c rest => exact hrest c rfl
  have hunended : readUnended ((spot.next '!').source (afterMark name ++ rest)) =
      .ok (ofBody (bodyOf name), (spot.after (write name)).source rest) := by
    rw [write_eq, Spot.after_cons]
    unfold afterMark
    split
    · next hbody =>
      rw [hbody]
      exact readUnended_mark (spot.next '!')
    · exact readUnended_writePart ((isReadable_bodyOf_iff name).mpr h) (spot.next '!')
        fun c hc => .inl (hrest c hc)
  rw [read, hunended]
  simp [bind, Except.bind, mayEnd, hgap]

/-- A name with a comma or square bracket has a part without any before the first one. -/
theorem exists_front {body : Text} (h : ¬IsReadable body) : ∃ front c later,
    writePart body = writePart front ++ c :: later ∧ IsReadable front ∧ c ∈ [',', '[', ']'] := by
  induction body with
  | nil => exact absurd (fun c hc => absurd hc List.not_mem_nil) h
  | cons c body ih =>
    by_cases hc : c ∈ [',', '[', ']']
    · have hplain : isWrittenPlainly c = true := by
        have hall : ∀ d ∈ [',', '[', ']'], isWrittenPlainly d = true := by simp [isWrittenPlainly]
        exact hall c hc
      exact ⟨[], c, writePart body, writePart_cons_plain hplain body, by simp [IsReadable], hc⟩
    · have hbody : ¬IsReadable body := fun hbody => h (List.forall_mem_cons.mpr ⟨hc, hbody⟩)
      obtain ⟨front, d, later, hwrite, hfront, hd⟩ := ih hbody
      refine ⟨c :: front, d, later, ?_, List.forall_mem_cons.mpr ⟨hc, hfront⟩, hd⟩
      rw [writePart_cons, writePart_cons, hwrite, List.append_assoc]

/-- A tag with a comma or square bracket is refused. -/
theorem read_afterMark_error {name : Text} (h : ¬IsReadable name) (spot : Spot) (rest : Text) :
    read false (spot.source (afterMark name ++ rest)) = .error .badTag := by
  have hbody : ¬IsReadable (bodyOf name) := mt (isReadable_bodyOf_iff name).mp h
  obtain ⟨front, c, later, hwrite, hfront, hc⟩ := exists_front hbody
  have hne : bodyOf name ≠ [] := by
    intro heq
    rw [heq] at hbody
    exact hbody (by simp [IsReadable])
  have hends : ∀ d ∈ (c :: (later ++ rest)).head?, EndsPart d := by
    intro d hd
    exact .inr (Option.some.inj hd ▸ hc)
  have hgap : isGap c = false := by
    have hall : ∀ d ∈ [',', '[', ']'], isGap d = false := by simp [isGap, isSpace, isBreak]
    exact hall c hc
  rw [afterMark, if_neg hne, hwrite, List.append_assoc, List.cons_append, read,
    readUnended_writePart hfront spot hends]
  simp [bind, Except.bind, mayEnd, Source.atGap, hgap]

/-! ## Names -/

/-- The bytes of the tag that a name is read back as. -/
def bytesOf (name : Text) : Bytes := Utf8.encode "!" ++ untilZero (Utf8.encode (bodyOf name))

/-- A tag that is read stands for its bytes. -/
theorem resolve_ofBody (name : Text) :
    resolve defaultHandles (ofBody (bodyOf name)) = .ok (bytesOf name) := by
  unfold ofBody bytesOf
  split
  · next hzero => rw [hzero]; rfl
  · rfl

/-- A zero byte comes from a zero character only. -/
theorem untilZero_encode (text : Text) :
    untilZero (Utf8.encode text) = Utf8.encode (text.takeWhile (· ≠ '\x00')) := by
  induction text with
  | nil => rfl
  | cons c text ih =>
    have hencode : Utf8.encode (c :: text) = Utf8.encode [c] ++ Utf8.encode text :=
      Utf8.encode_append [c] text
    by_cases hc : c = '\x00'
    · rw [hc]
      rfl
    · have hbytes : ∀ byte ∈ Utf8.encode [c], byte ≠ 0 := by
        intro byte hbyte hzero
        rcases Nat.lt_or_ge c.toNat 128 with hlt | hge
        · rw [encode_singleton hlt, List.mem_singleton, hzero] at hbyte
          have hvalue := congrArg UInt8.toNat hbyte
          rw [Nat.toUInt8, Utf8.toNat_byte (by omega)] at hvalue
          exact hc (Char.toNat_inj.mp hvalue.symm)
        · have hchar : Utf8.encode [c] = String.utf8EncodeChar c := by simp [Utf8.encode]
          rw [hchar, hzero] at hbyte
          exact absurd (Utf8.le_of_mem_encodeChar hge hbyte) (by decide)
      have hrest : Utf8.encode (c :: text.takeWhile (· ≠ '\x00')) =
          Utf8.encode [c] ++ Utf8.encode (text.takeWhile (· ≠ '\x00')) := Utf8.encode_append [c] _
      rw [untilZero, hencode, List.takeWhile_append_of_pos (by simpa using hbytes), ← untilZero, ih,
        List.takeWhile_cons_of_pos (by simpa using hc), hrest]

/-- A name is read back as it is: it has neither commas nor square brackets nor zero characters, and
no mark in front unless it is the mark itself. -/
structure IsWritable (name : Text) : Prop where
  readable : IsReadable name
  noZero : '\x00' ∉ name
  noMark : name.head? = some '!' → name = ['!']

/-- The name that a body is read as, which loses a mark at its front. -/
def nameOfBody : Text → Text
  | [] => ['!']
  | '!' :: c :: rest => c :: rest
  | body => body

/-- The name of the tag that is read back. -/
theorem name?_bytesOf (name : Text) :
    name? (bytesOf name) = some (nameOfBody ((bodyOf name).takeWhile (· ≠ '\x00'))) := by
  have hmark : Utf8.encode "!" = [0x21] := rfl
  rw [bytesOf, untilZero_encode, hmark]
  generalize (bodyOf name).takeWhile (· ≠ '\x00') = body
  cases body with
  | nil =>
    have hdecode : Utf8.decode [0x21] = .ok ['!'] := Utf8.decode_encode ['!']
    simp [name?, Utf8.encode, hdecode, nameOfBody]
  | cons c rest =>
    have hne : Utf8.encode (c :: rest) ≠ [] :=
      fun heq => List.cons_ne_nil _ _ (Utf8.encode_injective (heq.trans rfl))
    simp only [name?, List.cons_append, List.nil_append, if_true, hne, if_false, Utf8.decode_encode]
    by_cases hc : c = '!'
    · rw [hc]
      cases rest with
      | nil => rfl
      | cons d rest => rfl
    · simp [nameOfBody, hc]

/-- What is read is no longer than the text after the mark, and nothing is read as the mark. -/
theorem length_nameOfBody_le {body : Text} (h : body ≠ []) :
    (nameOfBody body).length ≤ body.length := by
  unfold nameOfBody
  split
  · exact absurd rfl h
  · exact Nat.le_succ _
  · exact Nat.le_refl _

/-- A body that does not start with a mark is read as it is. -/
theorem nameOfBody_cons {c : Char} (hc : c ≠ '!') (rest : Text) :
    nameOfBody (c :: rest) = c :: rest := by
  unfold nameOfBody
  split
  · next heq => cases heq
  · next heq => exact absurd (List.cons.inj heq).1 hc
  · rfl

/-- A text is left as it is up to its first zero character exactly if it has none. -/
theorem takeWhile_zero_eq_iff {text : Text} :
    text.takeWhile (· ≠ '\x00') = text ↔ '\x00' ∉ text := by
  rw [List.takeWhile_eq_self_iff]
  refine ⟨fun h hmem => ?_, fun h c hc => decide_eq_true fun heq => h (heq ▸ hc)⟩
  exact absurd (h _ hmem) (by decide)

/-- Exactly the names without zero characters and without a mark in front are read as themselves. -/
theorem name?_bytesOf_eq_iff {name : Text} (hne : name ≠ []) : name? (bytesOf name) = some name ↔
    '\x00' ∉ name ∧ (name.head? = some '!' → name = ['!']) := by
  rw [name?_bytesOf, Option.some.injEq]
  obtain ⟨c, rest, rfl⟩ := List.exists_cons_of_ne_nil hne
  by_cases hc : c = '!'
  · rw [hc]
    change nameOfBody (rest.takeWhile (· ≠ '\x00')) = '!' :: rest ↔ _
    constructor
    · intro heq
      -- What is read is shorter than the name, unless it is the mark that nothing stands for.
      have hrest : rest.takeWhile (· ≠ '\x00') = [] := by
        by_contra hbody
        have hle := length_nameOfBody_le hbody
        have htake := (List.takeWhile_sublist (fun c => decide (c ≠ '\x00')) (l := rest)).length_le
        rw [heq, List.length_cons] at hle
        omega
      rw [hrest] at heq
      obtain rfl : [] = rest := (List.cons.inj heq).2
      simp
    · intro h
      obtain rfl : rest = [] := (List.cons.inj (h.2 rfl)).2
      rfl
  · have hmark : (c :: rest).head? = some '!' → c :: rest = ['!'] :=
      fun hhead => absurd (Option.some.inj hhead) hc
    rw [bodyOf_cons hc, and_iff_left hmark, ← takeWhile_zero_eq_iff]
    by_cases hzero : c = '\x00'
    · rw [hzero]
      exact iff_of_false (by simp [nameOfBody]) (by simp)
    · rw [List.takeWhile_cons_of_pos (by simpa using hzero), nameOfBody_cons hc]

/-- The characters of a written tag stand in a line. -/
theorem isInLine_write (name : Text) : ∀ c ∈ write name, IsInLine c := by
  have hpart (text : Text) : ∀ c ∈ writePart text, IsInLine c := by
    intro c hc
    rcases of_mem_writePart hc with hplain | rfl
    · have hall : ∀ d ∈ ";/?:@&=+$,.~*'()[]".toList, 32 ≤ d.toNat ∧ d.toNat ≤ 126 := by simp
      rw [isWrittenPlainly, Bool.or_eq_true, decide_eq_true_eq, isNameCharacter_iff] at hplain
      rcases hplain with hname | hmem
      · exact isInLine_of_ascii (by omega) (by omega)
      · exact isInLine_of_ascii (hall c hmem).1 (hall c hmem).2
    · exact isInLine_of_ascii (by decide) (by decide)
  have hmark : IsInLine '!' := isInLine_of_ascii (by decide) (by decide)
  obtain ⟨rest, hmarked⟩ := exists_marked name
  rw [write, hmarked, List.drop_one, List.tail_cons]
  cases rest with
  | nil =>
    have hends : ∀ c ∈ ['!', '<', '>'], 32 ≤ c.toNat ∧ c.toNat ≤ 126 := by simp
    intro c hc
    have hc : c ∈ ['!', '<', '>'] ∨ c ∈ writePart "!" := by
      simp only [List.mem_append] at hc
      rcases hc with (hc | hc) | hc
      · exact .inl (List.mem_of_mem_take (i := 2) hc)
      · exact .inr hc
      · exact .inl (List.mem_of_mem_drop (i := 2) hc)
    rcases hc with hc | hc
    · exact isInLine_of_ascii (hends c hc).1 (hends c hc).2
    · exact hpart _ c hc
  | cons d rest => exact List.forall_mem_cons.mpr ⟨hmark, hpart _⟩

/-- Each byte is written with three characters. -/
theorem length_flatMap_writeByte (bytes : Bytes) :
    (bytes.flatMap writeByte).length = 3 * bytes.length := by
  induction bytes with
  | nil => rfl
  | cons byte bytes ih =>
    rw [List.flatMap_cons, List.length_append, ih, List.length_cons]
    change 3 + _ = _
    omega

/-- A written part has at most three characters for each byte. -/
theorem length_writePart_le (text : Text) : (writePart text).length ≤ 3 * Text.utf8Length text := by
  induction text with
  | nil => exact Nat.le_refl _
  | cons c text ih =>
    have hsize : 0 < c.utf8Size := Char.utf8Size_pos c
    have hlength : Text.utf8Length (c :: text) = c.utf8Size + Text.utf8Length text := rfl
    have hfirst : (if isWrittenPlainly c then [c] else (Utf8.encode [c]).flatMap writeByte).length ≤
        3 * c.utf8Size := by
      split
      · rw [List.length_singleton]
        omega
      · have hencode : Utf8.encode [c] = String.utf8EncodeChar c := by simp [Utf8.encode]
        rw [length_flatMap_writeByte, hencode, String.length_utf8EncodeChar]
    rw [writePart_cons, List.length_append, hlength]
    omega

/-- A written tag has at most three characters for each byte, and three more in angle brackets. -/
theorem length_write_le (name : Text) : (write name).length ≤ 3 * size name + 3 := by
  obtain ⟨rest, hmarked⟩ := exists_marked name
  have hsize : size name = 1 + Text.utf8Length rest := by
    rw [size, hmarked]
    rfl
  have hpart := length_writePart_le rest
  rw [write, hmarked, List.drop_one, List.tail_cons, hsize]
  cases rest with
  | nil =>
    change 6 ≤ 3 * (1 + 0) + 3
    omega
  | cons c rest =>
    change (writePart (c :: rest)).length + 1 ≤ _
    omega

end HostKit.Yaml.Tag
