import HostKit.Proofs.Codec.Base64Groups
import HostKit.Proofs.Codec.Sextets
import HostKit.Proofs.Text.Blanks

/-!
# Data as text and back

Symbols and digits are graphic characters of ASCII: each of them is a byte of its own in the text,
and none is a blank. So the text of some data is found again between any blanks, and the codec
reads the data back. The text itself is the one by the standard, with each character written as two
hexadecimal digits for the second codec.
-/

namespace HostKit

/-! ## Hexadecimal digits -/

namespace Hex

/-- The digits by their values. -/
def digits : Text := "0123456789abcdef"

/-- The two digits of a character below 256. -/
def digitsOf (c : Char) : Text := [digits.getD (c.toNat / 16) '0', digits.getD (c.toNat % 16) '0']

/-- A digit has its value. -/
theorem value?_digit {value : Nat} (h : value < 16) : value? (digit value) = some value := by
  have hall : ∀ value < 16, value? (digit value) = some value := by decide
  exact hall value h

/-- A digit is read as its value at any position. -/
theorem valueAt_digit {value : Nat} (h : value < 16) (position : Nat) :
    valueAt position (digit value) = .ok value := by
  rw [valueAt, value?_digit h]

/-- There are two digits for each byte. -/
theorem length_encode (data : Bytes) : (encode data).length = 2 * data.length := by
  induction data with
  | nil => rfl
  | cons b data ih =>
    rw [encode, List.flatMap_cons, List.length_append, ← encode, ih, List.length_cons]
    simp only [List.length_cons, List.length_nil]
    omega

/-- The digits of the data are read back, wherever they start. -/
theorem decodePairs_encode (position : Nat) (data : Bytes) :
    decodePairs position (encode data) = .ok data := by
  induction data generalizing position with
  | nil => rfl
  | cons b data ih =>
    have hb := b.toNat_lt
    have hhigh : b.toNat / 16 < 16 := by omega
    have hlow : b.toNat % 16 < 16 := by omega
    have hvalue : b.toNat / 16 * 16 + b.toNat % 16 = b.toNat := by omega
    have hencode : encode (b :: data) =
        digit (b.toNat / 16) :: digit (b.toNat % 16) :: encode data := rfl
    rw [hencode, decodePairs, valueAt_digit hhigh, Success.bind_ok, valueAt_digit hlow,
      Success.bind_ok, ih, Success.bind_ok, hvalue, Nat.toUInt8_eq, UInt8.ofNat_toNat]

/-- The digits of the data are read as the data. -/
theorem decode_encode (data : Bytes) : decode (encode data) = .ok data := by
  have heven : ¬(encode data).length % 2 = 1 := by
    rw [length_encode]
    omega
  rw [decode, if_neg heven, decodePairs_encode]

end Hex

/-! ## Graphic characters -/

/-- A graphic character of ASCII, as a byte. -/
def IsGraphic (b : UInt8) : Prop := 32 < b.toNat ∧ b.toNat < 127

/-- A graphic character is one byte, which is its code point, and it is no blank. -/
theorem IsGraphic.char {b : UInt8} (h : IsGraphic b) :
    String.utf8EncodeChar (Char.ofNat b.toNat) = [b] ∧ (Char.ofNat b.toNat).toNat = b.toNat ∧
      Text.isBlank (Char.ofNat b.toNat) = false := by
  have hall : ∀ n < 127, 32 < n → String.utf8EncodeChar (Char.ofNat n) = [n.toUInt8] ∧
      (Char.ofNat n).toNat = n ∧ Text.isBlank (Char.ofNat n) = false := by decide +kernel
  have hb := hall b.toNat h.2 h.1
  rwa [Nat.toUInt8_eq, UInt8.ofNat_toNat] at hb

/-- Symbols and equality signs are graphic. -/
theorem Base64.isGraphic_of_mem_encode {padding : Padding} {data : Bytes} {b : UInt8}
    (h : b ∈ encode padding data) : IsGraphic b := by
  have hsymbol : ∀ value < 64, 32 < (symbol value).toNat ∧ (symbol value).toNat < 127 := by decide
  have hpad : 32 < pad.toNat ∧ pad.toNat < 127 := by decide
  rw [encode_eq] at h
  rcases List.mem_append.mp h with h | h
  · obtain ⟨value, hvalue, rfl⟩ := List.mem_map.mp h
    exact hsymbol value (lt_of_mem_sextets hvalue)
  · cases padding with
    | required =>
      rw [List.eq_of_mem_replicate h]
      exact hpad
    | absent => cases h

/-- Digits are graphic. -/
theorem Hex.isGraphic_of_mem_encode {data : Bytes} {b : UInt8} (h : b ∈ encode data) :
    IsGraphic b := by
  have hdigit : ∀ value < 16, 32 < (digit value).toNat ∧ (digit value).toNat < 127 := by decide
  obtain ⟨byte, -, hb⟩ := List.mem_flatMap.mp h
  have hbyte := byte.toNat_lt
  simp only [List.mem_cons, List.not_mem_nil, or_false] at hb
  rcases hb with rfl | rfl
  · exact hdigit _ (by omega)
  · exact hdigit _ (by omega)

/-! ## The codecs -/

namespace TextCodec

/-- The text of the data by the standard, written once more in hexadecimal by the second codec. -/
def standardText (codec : TextCodec) (data : Bytes) : Text :=
  match codec with
  | base64 => Base64.standardText .required data
  | base64Hex => (Base64.standardText .absent data).flatMap Hex.digitsOf

/-- The bytes that a codec writes as characters. -/
def symbols (codec : TextCodec) (data : Bytes) : Bytes :=
  match codec with
  | base64 => Base64.encode .required data
  | base64Hex => Hex.encode (Base64.encode .absent data)

/-- The characters are those of the symbols. -/
theorem encode_eq_asciiText (codec : TextCodec) (data : Bytes) :
    codec.encode data = asciiText (codec.symbols data) := by
  cases codec <;> rfl

/-- All symbols are graphic. -/
theorem isGraphic_of_mem_symbols {codec : TextCodec} {data : Bytes} {b : UInt8}
    (h : b ∈ codec.symbols data) : IsGraphic b := by
  cases codec with
  | base64 => exact Base64.isGraphic_of_mem_encode h
  | base64Hex => exact Hex.isGraphic_of_mem_encode h

/-- The characters of graphic symbols have these symbols as their bytes. -/
theorem encode_asciiText {symbols : Bytes} (h : ∀ b ∈ symbols, IsGraphic b) :
    Utf8.encode (asciiText symbols) = symbols := by
  induction symbols with
  | nil => rfl
  | cons b symbols ih =>
    have hb := (h b List.mem_cons_self).char.1
    have hlater : ∀ b ∈ symbols, IsGraphic b := fun b hmem => h b (List.mem_cons_of_mem _ hmem)
    rw [asciiText, List.map_cons, Utf8.encode, List.flatMap_cons, hb, ← asciiText, ← Utf8.encode,
      ih hlater]
    rfl

/-- No character of the text is a blank. -/
theorem isBlank_of_mem_encode {codec : TextCodec} {data : Bytes} {c : Char}
    (h : c ∈ codec.encode data) : Text.isBlank c = false := by
  rw [encode_eq_asciiText] at h
  obtain ⟨b, hb, rfl⟩ := List.mem_map.mp h
  exact (isGraphic_of_mem_symbols hb).char.2.2

/-- Graphic symbols in hexadecimal are the digits of their characters. -/
theorem asciiText_hex {symbols : Bytes} (h : ∀ b ∈ symbols, IsGraphic b) :
    asciiText (Hex.encode symbols) = (asciiText symbols).flatMap Hex.digitsOf := by
  have hdigit : ∀ value < 16,
      Char.ofNat (Hex.digit value).toNat = Hex.digits.getD value '0' := by decide +kernel
  induction symbols with
  | nil => rfl
  | cons b symbols ih =>
    have hb := (h b List.mem_cons_self).char.2.1
    have hlt := b.toNat_lt
    have hhigh := hdigit (b.toNat / 16) (by omega)
    have hlow := hdigit (b.toNat % 16) (by omega)
    have hcons : asciiText (Hex.encode (b :: symbols)) =
        [Char.ofNat (Hex.digit (b.toNat / 16)).toNat,
          Char.ofNat (Hex.digit (b.toNat % 16)).toNat] ++ asciiText (Hex.encode symbols) := rfl
    have hdigits : Hex.digitsOf (Char.ofNat b.toNat) =
        [Hex.digits.getD (b.toNat / 16) '0', Hex.digits.getD (b.toNat % 16) '0'] := by
      rw [Hex.digitsOf, hb]
    rw [hcons, ih fun b hmem => h b (List.mem_cons_of_mem _ hmem), hhigh, hlow, ← hdigits]
    rfl

/-- The text of the data is the one by the standard. -/
theorem encode_eq_standardText (codec : TextCodec) (data : Bytes) :
    codec.encode data = codec.standardText data := by
  cases codec with
  | base64 => exact Base64.asciiText_encode .required data
  | base64Hex =>
    rw [encode, standardText, ← Base64.asciiText_encode]
    exact asciiText_hex fun b hmem => Base64.isGraphic_of_mem_encode hmem

/-- Symbols are read as the data that they were made from. -/
theorem decode_of_trim {codec : TextCodec} {data : Bytes} {text : Text}
    (h : Text.trim text = codec.encode data) : codec.decode text = .ok data := by
  have hsymbols : Utf8.encode (Text.trim text) = codec.symbols data := by
    rw [h, encode_eq_asciiText, encode_asciiText fun b => isGraphic_of_mem_symbols]
  cases codec with
  | base64 =>
    rw [decode, hsymbols, symbols, Base64.decode_encode]
    rfl
  | base64Hex =>
    rw [decode, hsymbols, symbols, Hex.decode_encode]
    change (Base64.decode .absent (Base64.encode .absent data)).mapError ofBase64 = .ok data
    rw [Base64.decode_encode]
    rfl

/-- The text of the data is read as the data, also between blanks. -/
theorem decode_encode (codec : TextCodec) (data : Bytes) {before after : Text}
    (hbefore : ∀ c ∈ before, Text.isBlank c = true) (hafter : ∀ c ∈ after, Text.isBlank c = true) :
    codec.decode (before ++ codec.encode data ++ after) = .ok data :=
  decode_of_trim (Text.trim_append hbefore (fun _ => isBlank_of_mem_encode) hafter)

end TextCodec
end HostKit
