import HostKit.Codec.TextCodec
import HostKit.Proofs.Compression.BitRows

/-!
# Base64 by the standard

The standard (RFC 4648) takes the bits of the data in one row, six at a time, with zeros to fill up
the last six, and writes a character of its alphabet for each value; equality signs fill up the
last four characters. The pieces of bytes that the encoder puts together are these values.
-/

namespace HostKit

namespace Base64

/-! ## The standard -/

/-- The standard alphabet. -/
def alphabet : Text := "ABCDEFGHIJKLMNOPQRSTUVWXYZabcdefghijklmnopqrstuvwxyz0123456789+/"

/-- So many bits of a number, the most significant first. -/
def highFirst (width n : Nat) : Bits := (Bits.ofNat width n).reverse

/-- The bits of the data, the most significant bit of each byte first. -/
def bitsOf (data : Bytes) : Bits := data.flatMap fun b => highFirst 8 b.toNat

/-- How many are missing from the last group of so many. -/
def missing (group n : Nat) : Nat := (group - n % group) % group

/-- The bits of the data, with zeros that fill up the last six. -/
def filledBits (data : Bytes) : Bits :=
  bitsOf data ++ List.replicate (missing 6 (bitsOf data).length) false

/-- The values of bits taken six at a time, the most significant first. -/
def sextets : Bits → List Nat
  | a :: b :: c :: d :: e :: f :: rest => Bits.toNat [f, e, d, c, b, a] :: sextets rest
  | _ => []

/-- The characters of the data in the standard alphabet. -/
def characters (data : Bytes) : Text :=
  (sextets (filledBits data)).map fun value => alphabet.getD value '='

/-- The characters with the equality signs that were agreed on. -/
def standardText (padding : Padding) (data : Bytes) : Text :=
  match padding with
  | .required => characters data ++ List.replicate (missing 4 (characters data).length) '='
  | .absent => characters data

/-! ## Bits put together -/

/-- The bits of a number are those of its high part and then those of its low part. -/
theorem highFirst_join {width low : Nat} (h : low < 2 ^ width) (width' high : Nat) :
    highFirst (width + width') (high * 2 ^ width + low) =
      highFirst width' high ++ highFirst width low := by
  have hlow : (high * 2 ^ width + low) % 2 ^ width = low := Nat.mul_add_mod_of_lt h
  have hhigh : (high * 2 ^ width + low) / 2 ^ width = high := by
    rw [Nat.add_comm, Nat.add_mul_div_right _ _ (Nat.two_pow_pos width), Nat.div_eq_of_lt h,
      Nat.zero_add]
  rw [highFirst, Bits.ofNat_add, hhigh, ← Bits.ofNat_mod width, hlow, List.reverse_append]
  rfl

/-- The bits of a number, cut in two. -/
theorem highFirst_split (width width' n : Nat) :
    highFirst (width + width') n =
      highFirst width' (n / 2 ^ width) ++ highFirst width (n % 2 ^ width) := by
  rw [← highFirst_join (Nat.mod_lt n (Nat.two_pow_pos width)), Nat.div_add_mod']

/-- The bits of a number moved up are followed by zeros. -/
theorem highFirst_mul (width width' high : Nat) :
    highFirst (width + width') (high * 2 ^ width) =
      highFirst width' high ++ List.replicate width false := by
  rw [← Nat.add_zero (high * 2 ^ width), highFirst_join (Nat.two_pow_pos width)]
  rw [highFirst, highFirst, Bits.ofNat_zero, List.reverse_replicate]

/-- Six bits in front are a value of their own. -/
theorem sextets_highFirst {value : Nat} (h : value < 64) (bits : Bits) :
    sextets (highFirst 6 value ++ bits) = value :: sextets bits := by
  have hvalue : Bits.toNat (Bits.ofNat 6 value) = value := Bits.toNat_ofNat h
  change Bits.toNat (Bits.ofNat 6 value) :: sextets bits = _
  rw [hvalue]

/-- Each value has six bits. -/
theorem lt_of_mem_sextets {bits : Bits} {value : Nat} (h : value ∈ sextets bits) : value < 64 := by
  induction bits using sextets.induct with
  | case1 a b c d e f rest ih =>
    rw [sextets] at h
    rcases List.mem_cons.mp h with rfl | h
    · exact Bits.toNat_lt [f, e, d, c, b, a]
    · exact ih h
  | case2 bits hshort =>
    rw [sextets] at h
    · cases h
    · exact hshort

/-! ## Values of the data -/

/-- The bits of the first of three bytes, of the second and of the third. -/
theorem highFirst_bytes (a b c : UInt8) :
    highFirst 8 a.toNat = highFirst 6 (a.toNat / 4) ++ highFirst 2 (a.toNat % 4) ∧
      highFirst 8 b.toNat = highFirst 4 (b.toNat / 16) ++ highFirst 4 (b.toNat % 16) ∧
      highFirst 8 c.toNat = highFirst 2 (c.toNat / 64) ++ highFirst 6 (c.toNat % 64) :=
  ⟨highFirst_split 2 6 _, highFirst_split 4 4 _, highFirst_split 6 2 _⟩

/-- The values between two bytes put together the bits of both. -/
theorem highFirst_between (a b c : UInt8) :
    highFirst 6 (a.toNat % 4 * 16 + b.toNat / 16) =
        highFirst 2 (a.toNat % 4) ++ highFirst 4 (b.toNat / 16) ∧
      highFirst 6 (b.toNat % 16 * 4 + c.toNat / 64) =
        highFirst 4 (b.toNat % 16) ++ highFirst 2 (c.toNat / 64) := by
  have hb : b.toNat / 16 < 2 ^ 4 := by
    have := b.toNat_lt
    omega
  have hc : c.toNat / 64 < 2 ^ 2 := by
    have := c.toNat_lt
    omega
  exact ⟨highFirst_join hb 2 _, highFirst_join hc 4 _⟩

/-- The length of the bits of the data. -/
theorem length_bitsOf (data : Bytes) : (bitsOf data).length = 8 * data.length := by
  induction data with
  | nil => rfl
  | cons b data ih =>
    rw [bitsOf, List.flatMap_cons, List.length_append, highFirst, List.length_reverse,
      Bits.length_ofNat, List.length_cons, ← bitsOf, ih]
    omega

/-- A single byte gives two values. -/
theorem sextets_one (a : UInt8) :
    sextets (filledBits [a]) = [a.toNat / 4, a.toNat % 4 * 16] := by
  have ha := a.toNat_lt
  have hbits : filledBits [a] =
      highFirst 6 (a.toNat / 4) ++ (highFirst 6 (a.toNat % 4 * 16) ++ []) := by
    have hzeros : highFirst 6 (a.toNat % 4 * 16) = _ := highFirst_mul 4 2 (a.toNat % 4)
    rw [filledBits, length_bitsOf, hzeros, bitsOf, List.flatMap_cons, (highFirst_bytes a a a).1]
    simp [missing]
  rw [hbits, sextets_highFirst (by omega), sextets_highFirst (by omega)]
  rfl

/-- Two bytes give three values. -/
theorem sextets_two (a b : UInt8) :
    sextets (filledBits [a, b]) =
      [a.toNat / 4, a.toNat % 4 * 16 + b.toNat / 16, b.toNat % 16 * 4] := by
  have ha := a.toNat_lt
  have hb := b.toNat_lt
  have hbits : filledBits [a, b] =
      highFirst 6 (a.toNat / 4) ++ (highFirst 6 (a.toNat % 4 * 16 + b.toNat / 16) ++
        (highFirst 6 (b.toNat % 16 * 4) ++ [])) := by
    have hzeros : highFirst 6 (b.toNat % 16 * 4) = _ := highFirst_mul 2 4 (b.toNat % 16)
    rw [filledBits, length_bitsOf, hzeros, (highFirst_between a b b).1, bitsOf, List.flatMap_cons,
      List.flatMap_cons, (highFirst_bytes a b b).1, (highFirst_bytes a b b).2.1]
    simp [missing]
  rw [hbits, sextets_highFirst (by omega), sextets_highFirst (by omega),
    sextets_highFirst (by omega)]
  rfl

/-- Three bytes give four values, and the others follow. -/
theorem sextets_three (a b c : UInt8) (data : Bytes) :
    sextets (filledBits (a :: b :: c :: data)) =
      a.toNat / 4 :: (a.toNat % 4 * 16 + b.toNat / 16) :: (b.toNat % 16 * 4 + c.toNat / 64) ::
        c.toNat % 64 :: sextets (filledBits data) := by
  have ha := a.toNat_lt
  have hb := b.toNat_lt
  have hc := c.toNat_lt
  have hbits : filledBits (a :: b :: c :: data) =
      highFirst 6 (a.toNat / 4) ++ (highFirst 6 (a.toNat % 4 * 16 + b.toNat / 16) ++
        (highFirst 6 (b.toNat % 16 * 4 + c.toNat / 64) ++
          (highFirst 6 (c.toNat % 64) ++ filledBits data))) := by
    have hmissing : missing 6 (8 * (a :: b :: c :: data).length) =
        missing 6 (8 * data.length) := by
      simp only [missing, List.length_cons]
      omega
    obtain ⟨hfirst, hsecond, hthird⟩ := highFirst_bytes a b c
    rw [filledBits, filledBits, length_bitsOf, length_bitsOf, hmissing, (highFirst_between a b c).1,
      (highFirst_between a b c).2, bitsOf, List.flatMap_cons, List.flatMap_cons, List.flatMap_cons,
      hfirst, hsecond, hthird, bitsOf]
    simp
  rw [hbits, sextets_highFirst (by omega), sextets_highFirst (by omega),
    sextets_highFirst (by omega), sextets_highFirst (by omega)]

/-! ## What is encoded -/

/-- The symbols of the data are those of its values, with the equality signs agreed on. -/
theorem encode_eq (padding : Padding) (data : Bytes) :
    encode padding data = (sextets (filledBits data)).map symbol ++
      padding.fill (missing 4 (sextets (filledBits data)).length) := by
  induction data using encode.induct with
  | case1 => cases padding <;> rfl
  | case2 a => rw [sextets_one, encode]; rfl
  | case3 a b => rw [sextets_two, encode]; rfl
  | case4 a b c rest ih =>
    have hmissing (n : Nat) : missing 4 (n + 4) = missing 4 n := by
      rw [missing, missing, Nat.add_mod_right]
    rw [sextets_three, encode, ih]
    simp only [List.map_cons, List.cons_append, List.length_cons, Nat.add_assoc]
    rw [hmissing]

/-- A symbol is a character of the alphabet. -/
theorem char_symbol {value : Nat} (h : value < 64) :
    Char.ofNat (symbol value).toNat = alphabet.getD value '=' := by
  have hall : alphabet = (List.range 64).map fun value => Char.ofNat (symbol value).toNat :=
    String.toList_ofList
  rw [hall, List.getD_eq_getElem?_getD, List.getElem?_map, List.getElem?_range h, Option.map_some,
    Option.getD_some]

/-- The text of the data is the one by the standard. -/
theorem asciiText_encode (padding : Padding) (data : Bytes) :
    TextCodec.asciiText (encode padding data) = standardText padding data := by
  have hsymbols : TextCodec.asciiText ((sextets (filledBits data)).map symbol) =
      characters data := by
    rw [TextCodec.asciiText, characters, List.map_map]
    apply List.map_congr_left
    intro value hmem
    exact char_symbol (lt_of_mem_sextets hmem)
  have hlength : (characters data).length = (sextets (filledBits data)).length := by
    rw [characters, List.length_map]
  rw [encode_eq, TextCodec.asciiText, List.map_append, ← TextCodec.asciiText, hsymbols, ← hlength]
  cases padding with
  | required => rw [Padding.fill, List.map_replicate]; rfl
  | absent => rw [Padding.fill, List.map_nil, List.append_nil]; rfl

example : standardText .required [0x66, 0x6f, 0x6f, 0x62] = "Zm9vYg==".toList := by
  rw [← asciiText_encode]
  rfl

end Base64
end HostKit
