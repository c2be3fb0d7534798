import HostKit.Text.Utf8

/-!
# Reading UTF-8 that was written

The bytes of a text are read back as that text, for every character. The ranges of the second
byte follow from the value that the first byte leaves open: what a three-byte sequence could say
in two bytes and what is a surrogate is no character. A line feed is the only character with
the byte of a line feed in it.
-/

namespace HostKit.Utf8

/-- A number below 256 is the value of its byte. -/
theorem toNat_byte {n : Nat} (h : n < 256) : (UInt8.ofNat n).toNat = n :=
  UInt8.toNat_ofNat_of_lt' h

/-- A byte in its range is taken into the value. -/
theorem continuation_ofNat {taken value low high n : Nat} (ranges : List (Nat × Nat))
    (rest : Bytes) (hn : n < 256) (hlow : low ≤ n) (hhigh : n ≤ high) :
    continuation taken value ((low, high) :: ranges) (UInt8.ofNat n :: rest) =
      continuation (taken + 1) (value * 64 + (n - 0x80)) ranges rest := by
  rw [continuation, if_pos (by rw [toNat_byte hn]; exact ⟨hlow, hhigh⟩), toNat_byte hn]

/-- The code points of characters leave out the surrogates and end at `0x10ffff`. -/
theorem toNat_range (c : Char) :
    c.val.toNat < 0xd800 ∨ 0xdfff < c.val.toNat ∧ c.val.toNat < 0x110000 := by
  simpa [UInt32.isValidChar, Nat.isValidChar] using c.valid

/-- A byte below 128 is a sequence of its own. -/
theorem leadByte_one {v : Nat} (h : v ≤ 0x7f) : leadByte (UInt8.ofNat v) = some (v, []) := by
  simp only [leadByte, toNat_byte (show v < 256 by omega)]
  rw [if_pos (by omega)]

/-- The first byte of two has the bits above the lowest six. -/
theorem leadByte_two {v : Nat} (h1 : 0x7f < v) (h2 : v ≤ 0x7ff) :
    leadByte (UInt8.ofNat (v / 64 % 0x20 + 0xc0)) = some (v / 64, [(0x80, 0xbf)]) := by
  have hn : v / 64 % 0x20 = v / 64 := by omega
  rw [hn]
  simp only [leadByte, toNat_byte (show v / 64 + 0xc0 < 256 by omega)]
  rw [if_neg (by omega), if_neg (by omega), if_pos (by omega), Nat.add_sub_cancel]

/-- The first byte of three, and a range for the second that the code point allows. -/
theorem leadByte_three {v : Nat} (h2 : 0x7ff < v) (h3 : v ≤ 0xffff)
    (hv : v < 0xd800 ∨ 0xdfff < v) :
    ∃ low high, leadByte (UInt8.ofNat (v / 4096 % 0x10 + 0xe0)) =
        some (v / 4096, [(low, high), (0x80, 0xbf)]) ∧
      low ≤ v / 64 % 0x40 + 0x80 ∧ v / 64 % 0x40 + 0x80 ≤ high := by
  have hn : v / 4096 % 0x10 = v / 4096 := by omega
  rw [hn]
  simp only [leadByte, toNat_byte (show v / 4096 + 0xe0 < 256 by omega)]
  rw [if_neg (by omega), if_neg (by omega), if_neg (by omega)]
  by_cases h0 : v / 4096 = 0
  · exact ⟨0xa0, 0xbf, by simp [h0], by omega, by omega⟩
  rw [if_neg (by omega)]
  by_cases hd : v / 4096 = 0xd
  · exact ⟨0x80, 0x9f, by simp [hd], by omega, by omega⟩
  · rw [if_neg (by omega), if_pos (by omega)]
    exact ⟨0x80, 0xbf, by simp, by omega, by omega⟩

/-- The first byte of four, and a range for the second that the code point allows. -/
theorem leadByte_four {v : Nat} (h3 : 0xffff < v) (hv : v < 0x110000) :
    ∃ low high, leadByte (UInt8.ofNat (v / 262144 % 0x08 + 0xf0)) =
        some (v / 262144, [(low, high), (0x80, 0xbf), (0x80, 0xbf)]) ∧
      low ≤ v / 4096 % 0x40 + 0x80 ∧ v / 4096 % 0x40 + 0x80 ≤ high := by
  have hn : v / 262144 % 0x08 = v / 262144 := by omega
  rw [hn]
  simp only [leadByte, toNat_byte (show v / 262144 + 0xf0 < 256 by omega)]
  rw [if_neg (by omega), if_neg (by omega), if_neg (by omega), if_neg (by omega),
    if_neg (by omega), if_neg (by omega)]
  by_cases h0 : v / 262144 = 0
  · exact ⟨0x90, 0xbf, by simp [h0], by omega, by omega⟩
  rw [if_neg (by omega)]
  by_cases h4 : v / 262144 = 4
  · rw [if_neg (by omega)]
    exact ⟨0x80, 0x8f, by simp [h4], by omega, by omega⟩
  · rw [if_pos (by omega)]
    exact ⟨0x80, 0xbf, by simp, by omega, by omega⟩

/-- The bytes of a character are read as that character. -/
theorem exists_sequence_encodeChar (c : Char) (rest : Bytes) :
    ∃ b tail, String.utf8EncodeChar c = b :: tail ∧ sequence b (tail ++ rest) = .char c rest := by
  have hrange := toNat_range c
  have hchar (n : Nat) (h : n = c.val.toNat) : Char.ofNat n = c := by
    rw [h]; exact Char.ofNat_toNat c
  unfold String.utf8EncodeChar
  generalize hv : c.val.toNat = v at *
  by_cases h1 : v ≤ 0x7f
  · refine ⟨_, _, if_pos h1, ?_⟩
    simp only [sequence, leadByte_one h1, List.nil_append, continuation]
    rw [hchar v rfl]
  by_cases h2 : v ≤ 0x7ff
  · refine ⟨_, _, by rw [if_neg h1, if_pos h2], ?_⟩
    simp only [sequence, leadByte_two (by omega) h2, List.cons_append, List.nil_append]
    rw [continuation_ofNat _ _ (by omega) (by omega) (by omega), continuation,
      hchar _ (by omega)]
  by_cases h3 : v ≤ 0xffff
  · refine ⟨_, _, by rw [if_neg h1, if_neg h2, if_pos h3], ?_⟩
    obtain ⟨low, high, hlead, hlow, hhigh⟩ := leadByte_three (by omega) h3 (by omega)
    simp only [sequence, hlead, List.cons_append, List.nil_append]
    rw [continuation_ofNat _ _ (by omega) hlow hhigh,
      continuation_ofNat _ _ (by omega) (by omega) (by omega), continuation,
      hchar _ (by omega)]
  · refine ⟨_, _, by rw [if_neg h1, if_neg h2, if_neg h3], ?_⟩
    obtain ⟨low, high, hlead, hlow, hhigh⟩ := leadByte_four (v := v) (by omega) (by omega)
    simp only [sequence, hlead, List.cons_append, List.nil_append]
    rw [continuation_ofNat _ _ (by omega) hlow hhigh,
      continuation_ofNat _ _ (by omega) (by omega) (by omega),
      continuation_ofNat _ _ (by omega) (by omega) (by omega), continuation,
      hchar _ (by omega)]

/-- The bytes of a text are read as that text, wherever they start. -/
theorem decodeFrom_encode (index : Nat) (t : Text) : decodeFrom index (encode t) = .ok t := by
  induction t generalizing index with
  | nil => simp [encode, decodeFrom]
  | cons c t ih =>
    obtain ⟨b, tail, hchar, hsequence⟩ := exists_sequence_encodeChar c (encode t)
    have hcons : encode (c :: t) = b :: (tail ++ encode t) := by
      simp [encode, hchar]
    rw [hcons, decodeFrom]
    split
    · next c' rest h =>
      rw [hsequence] at h
      obtain ⟨rfl, rfl⟩ : c = c' ∧ encode t = rest := by simpa using h
      rw [ih]
      rfl
    · next h => simp [hsequence] at h
    · next h => simp [hsequence] at h

/-- The bytes of a text are read as that text. -/
theorem decode_encode (t : Text) : decode (encode t) = .ok t := decodeFrom_encode 0 t

/-- Texts with the same bytes are the same. -/
theorem encode_injective {t u : Text} (h : encode t = encode u) : t = u := by
  have hdecode : Except.ok t = (Except.ok u : Except Error Text) := by
    rw [← decode_encode t, ← decode_encode u, h]
  exact Except.ok.inj hdecode

/-- The bytes of two texts in a row. -/
theorem encode_append (t u : Text) : encode (t ++ u) = encode t ++ encode u := by
  simp [encode]

/-- The last byte of a character is that of a line feed only for a line feed. -/
theorem getLast?_encodeChar (c : Char) :
    ∃ b, (String.utf8EncodeChar c).getLast? = some b ∧ (b = 10 ↔ c = '\n') := by
  have hrange := toNat_range c
  have hnewline : c = '\n' ↔ c.val.toNat = 10 := by
    constructor
    · rintro rfl; rfl
    · intro h; exact Char.ext (UInt32.toNat_inj.mp h)
  have hbyte (n : Nat) (hn : n < 256) : UInt8.ofNat n = 10 ↔ n = 10 := by
    rw [← UInt8.toNat_inj, toNat_byte hn]; rfl
  unfold String.utf8EncodeChar
  rw [hnewline]
  generalize c.val.toNat = v at *
  by_cases h1 : v ≤ 0x7f
  · exact ⟨_, by rw [if_pos h1]; rfl, hbyte _ (by omega)⟩
  -- Every later byte of a longer sequence is at least 128.
  have hlast : UInt8.ofNat (v % 0x40 + 0x80) = 10 ↔ v = 10 := by
    rw [hbyte _ (by omega)]; omega
  by_cases h2 : v ≤ 0x7ff
  · exact ⟨_, by rw [if_neg h1, if_pos h2]; rfl, hlast⟩
  by_cases h3 : v ≤ 0xffff
  · exact ⟨_, by rw [if_neg h1, if_neg h2, if_pos h3]; rfl, hlast⟩
  · exact ⟨_, by rw [if_neg h1, if_neg h2, if_neg h3]; rfl, hlast⟩

/-- The bytes of a character that is not ASCII are not ASCII. -/
theorem le_of_mem_encodeChar {c : Char} (hc : 128 ≤ c.toNat) {b : UInt8}
    (h : b ∈ String.utf8EncodeChar c) : 128 ≤ b.toNat := by
  have hrange := toNat_range c
  have hc : 128 ≤ c.val.toNat := hc
  unfold String.utf8EncodeChar at h
  generalize c.val.toNat = v at *
  rw [if_neg (by omega)] at h
  split at h
  · simp only [List.mem_cons, List.not_mem_nil, or_false] at h
    rcases h with rfl | rfl <;> rw [toNat_byte (by omega)] <;> omega
  split at h
  · simp only [List.mem_cons, List.not_mem_nil, or_false] at h
    rcases h with rfl | rfl | rfl <;> rw [toNat_byte (by omega)] <;> omega
  · simp only [List.mem_cons, List.not_mem_nil, or_false] at h
    rcases h with rfl | rfl | rfl | rfl <;> rw [toNat_byte (by omega)] <;> omega

/-- The byte of a line feed comes from a line feed only. -/
theorem newline_mem_encode_iff {t : Text} : (10 : UInt8) ∈ encode t ↔ '\n' ∈ t := by
  have hchar (c : Char) : (10 : UInt8) ∈ String.utf8EncodeChar c ↔ c = '\n' := by
    constructor
    · intro h
      by_cases hc : 128 ≤ c.toNat
      · exact absurd (le_of_mem_encodeChar hc h) (by decide)
      · have hascii : String.utf8EncodeChar c = [UInt8.ofNat c.val.toNat] := by
          have hle : c.val.toNat ≤ 0x7f := Nat.le_of_lt_succ (Nat.lt_of_not_le hc)
          rw [String.utf8EncodeChar, if_pos hle]
        rw [hascii, List.mem_singleton] at h
        obtain ⟨b, hb, hnewline⟩ := getLast?_encodeChar c
        rw [hascii, List.getLast?_singleton, Option.some.injEq] at hb
        exact hnewline.mp (hb.symm.trans h.symm)
    · intro h
      rw [h]
      decide
  simp [encode, hchar]

end HostKit.Utf8
