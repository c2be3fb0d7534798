import HostKit.Proofs.Codec.Texts
import HostKit.Proofs.Text.Utf8Encoding

/-!
# Texts that are read

What a codec reads is what it writes. Data that was read from a text has this text again, apart from
blanks around it and, in hexadecimal, from capital letters. For Base64 the argument follows the
reader: symbols stand for values below sixty-four, a full group of values is that of its three
bytes, and a last group is accepted only if it leaves over no bits and has the padding agreed on.
-/

namespace HostKit

/-! ## Base64 -/

namespace Base64

variable {padding : Padding}

/-- A number below 256 is the value of its byte. -/
theorem toNat_toUInt8 {n : Nat} (h : n < 256) : n.toUInt8.toNat = n := by
  rw [Nat.toUInt8_eq, Utf8.toNat_byte h]

/-- A byte that has a value is the symbol of this value. -/
theorem symbol_of_value? {byte : UInt8} {value : Nat} (h : value? byte = some value) :
    value < 64 ∧ symbol value = byte := by
  have hall : ∀ n < 256, ∀ value ∈ value? (UInt8.ofNat n),
      value < 64 ∧ symbol value = UInt8.ofNat n := by decide +kernel
  have hbyte := hall byte.toNat byte.toNat_lt
  rw [UInt8.ofNat_toNat] at hbyte
  exact hbyte value h

/-- A byte that is read as a value is the symbol of this value. -/
theorem symbol_of_valueAt {offset : Nat} {byte : UInt8} {value : Nat}
    (h : valueAt offset byte = .ok value) : value < 64 ∧ symbol value = byte := by
  unfold valueAt at h
  split at h
  · next found hfound =>
    rw [Except.ok.inj h] at hfound
    exact symbol_of_value? hfound
  · cases h

/-- The bytes of a full group have the symbols of its values. -/
theorem encode_groupBytes {w x y z : Nat} (hw : w < 64) (hx : x < 64) (hy : y < 64) (hz : z < 64)
    (data : Bytes) :
    encode padding (groupBytes w x y z ++ data) =
      symbol w :: symbol x :: symbol y :: symbol z :: encode padding data := by
  have ha : (w * 4 + x / 16).toUInt8.toNat = w * 4 + x / 16 := toNat_toUInt8 (by omega)
  have hb : (x % 16 * 16 + y / 4).toUInt8.toNat = x % 16 * 16 + y / 4 := toNat_toUInt8 (by omega)
  have hc : (y % 4 * 64 + z).toUInt8.toNat = y % 4 * 64 + z := toNat_toUInt8 (by omega)
  have hfirst : (w * 4 + x / 16) / 4 = w := by omega
  have hsecond : (w * 4 + x / 16) % 4 * 16 + (x % 16 * 16 + y / 4) / 16 = x := by omega
  have hthird : (x % 16 * 16 + y / 4) % 16 * 4 + (y % 4 * 64 + z) / 64 = y := by omega
  have hfourth : (y % 4 * 64 + z) % 64 = z := by omega
  rw [groupBytes, List.cons_append, List.cons_append, List.cons_append, List.nil_append, encode, ha,
    hb, hc, hfirst, hsecond, hthird, hfourth]

/-- What was scanned of a last group is symbols and then equality signs; none of the symbols
comes after an equality sign seen before. -/
theorem of_scanLast {start index : Nat} {seen seen' : LastGroup} {group : Bytes}
    (h : scanLast start index seen group = .ok seen') :
    ∃ values pads, (∀ value ∈ values, value < 64) ∧
      group = values.map symbol ++ List.replicate pads pad ∧
      seen'.symbols = seen.symbols ++ values.map (fun value => (symbol value, value)) ∧
      seen'.padding = seen.padding + pads ∧ (0 < seen.padding → values = []) := by
  induction group generalizing index seen with
  | nil =>
    obtain rfl : seen = seen' := Except.ok.inj h
    exact ⟨[], 0, by simp⟩
  | cons byte rest ih =>
    rw [scanLast] at h
    by_cases hpad : byte = pad
    · rw [if_pos hpad] at h
      by_cases hindex : index < 2
      · rw [if_pos hindex] at h
        cases h
      · rw [if_neg hindex] at h
        obtain ⟨values, pads, hvalues, hrest, hsymbols, hpadding, hnone⟩ := ih h
        obtain rfl : values = [] := hnone (Nat.succ_pos _)
        refine ⟨[], pads + 1, hvalues, ?_, hsymbols, ?_, fun _ => rfl⟩
        · rw [hrest, hpad, List.replicate_succ]
          rfl
        · rw [hpadding, Nat.add_assoc, Nat.add_comm 1]
    · rw [if_neg hpad] at h
      by_cases hseen : 0 < seen.padding
      · rw [if_pos hseen] at h
        cases h
      · rw [if_neg hseen] at h
        cases hvalue : value? byte with
        | none =>
          rw [hvalue] at h
          cases h
        | some value =>
          rw [hvalue] at h
          obtain ⟨hlt, hsymbol⟩ := symbol_of_value? hvalue
          obtain ⟨values, pads, hvalues, hrest, hsymbols, hpadding, -⟩ := ih h
          refine ⟨value :: values, pads, ?_, ?_, ?_, hpadding, fun hpos => absurd hpos hseen⟩
          · exact List.forall_mem_cons.mpr ⟨hlt, hvalues⟩
          · rw [List.map_cons, List.cons_append, ← hrest, hsymbol]
          · rw [hsymbols, List.map_cons, hsymbol, List.append_assoc]
            rfl

/-- The symbols of a last group that gives some data are, filled up, those of the data. -/
theorem encode_of_lastBytes {start : Nat} {values : List Nat} {data : Bytes}
    (hvalues : ∀ value ∈ values, value < 64)
    (h : lastBytes start (values.map fun value => (symbol value, value)) = .ok data) :
    encode padding data = values.map symbol ++ padding.fill (4 - values.length) := by
  match values, hvalues, h with
  | [], _, h | [_], _, h | _ :: _ :: _ :: _ :: _ :: _, _, h => cases h
  | [w, x], hvalues, h =>
    simp only [List.forall_mem_cons] at hvalues
    simp only [List.map_cons, List.map_nil, lastBytes] at h
    split at h
    · obtain rfl := Except.ok.inj h
      have ha : (w * 4 + x / 16).toUInt8.toNat = w * 4 + x / 16 := toNat_toUInt8 (by omega)
      have hfirst : (w * 4 + x / 16) / 4 = w := by omega
      have hsecond : (w * 4 + x / 16) % 4 * 16 = x := by omega
      rw [encode, ha, hfirst, hsecond]
      rfl
    · cases h
  | [w, x, y], hvalues, h =>
    simp only [List.forall_mem_cons] at hvalues
    simp only [List.map_cons, List.map_nil, lastBytes] at h
    split at h
    · obtain rfl := Except.ok.inj h
      have ha : (w * 4 + x / 16).toUInt8.toNat = w * 4 + x / 16 := toNat_toUInt8 (by omega)
      have hb : (x % 16 * 16 + y / 4).toUInt8.toNat = x % 16 * 16 + y / 4 :=
        toNat_toUInt8 (by omega)
      have hfirst : (w * 4 + x / 16) / 4 = w := by omega
      have hsecond : (w * 4 + x / 16) % 4 * 16 + (x % 16 * 16 + y / 4) / 16 = x := by omega
      have hthird : (x % 16 * 16 + y / 4) % 16 * 4 = y := by omega
      rw [encode, ha, hb, hfirst, hsecond, hthird]
      rfl
    · cases h
  | [w, x, y, z], hvalues, h =>
    obtain ⟨hw, hx, hy, hz, -⟩ := by simpa only [List.forall_mem_cons] using hvalues
    have hfill : padding.fill 0 = [] := by cases padding <;> rfl
    obtain rfl : groupBytes w x y z = data := Except.ok.inj h
    change _ = _ ++ padding.fill 0
    rw [hfill, ← List.append_nil (groupBytes w x y z), encode_groupBytes hw hx hy hz]
    rfl

/-- A last group that is read has the symbols of what is read. -/
theorem encode_of_decodeLast {start : Nat} {group data : Bytes} (hlength : group.length ≤ 4)
    (h : decodeLast padding start group = .ok data) : encode padding data = group := by
  obtain ⟨seen, hscan, hread⟩ := Success.of_bind h
  obtain ⟨values, pads, hvalues, rfl, hsymbols, hpadding, -⟩ := of_scanLast hscan
  rw [List.nil_append] at hsymbols
  rw [Nat.zero_add] at hpadding
  rw [hsymbols, hpadding, List.length_map] at hread
  rw [List.length_append, List.length_map, List.length_replicate] at hlength
  split at hread
  · cases hread
  · next htwo =>
    split at hread
    · next hallows =>
      -- The padding agreed on is the one that fills up four symbols, or none at all.
      have hfill : padding.fill (4 - values.length) = List.replicate pads pad := by
        cases padding with
        | required =>
          have hmod : (values.length + pads) % 4 = 0 := of_decide_eq_true hallows
          have hpads : 4 - values.length = pads := by omega
          rw [hpads]
          rfl
        | absent =>
          have hpads : pads = 0 := of_decide_eq_true hallows
          rw [hpads]
          rfl
      rw [← hfill]
      exact encode_of_lastBytes hvalues hread
    · cases hread

/-- Groups that are read have the symbols of what is read. -/
theorem encode_of_decodeGroups {start : Nat} {symbols data : Bytes}
    (h : decodeGroups padding start symbols = .ok data) : encode padding data = symbols := by
  induction start, symbols using decodeGroups.induct generalizing data with
  | case1 start a b c d e rest ih =>
    rw [decodeGroups] at h
    obtain ⟨w, hw, h⟩ := Success.of_bind h
    obtain ⟨x, hx, h⟩ := Success.of_bind h
    obtain ⟨y, hy, h⟩ := Success.of_bind h
    obtain ⟨z, hz, h⟩ := Success.of_bind h
    obtain ⟨later, hlater, h⟩ := Success.of_bind h
    obtain rfl := Except.ok.inj h
    obtain ⟨hwlt, rfl⟩ := symbol_of_valueAt hw
    obtain ⟨hxlt, rfl⟩ := symbol_of_valueAt hx
    obtain ⟨hylt, rfl⟩ := symbol_of_valueAt hy
    obtain ⟨hzlt, rfl⟩ := symbol_of_valueAt hz
    rw [encode_groupBytes hwlt hxlt hylt hzlt, ih hlater]
  | case2 start group hshort =>
    have hlength : group.length ≤ 4 := by
      rcases group with _ | ⟨a, _ | ⟨b, _ | ⟨c, _ | ⟨d, _ | ⟨e, rest⟩⟩⟩⟩⟩
      case cons.cons.cons.cons.cons => exact absurd rfl (hshort a b c d e rest)
      all_goals simp
    rw [decodeGroups_of_length_le padding hlength] at h
    exact encode_of_decodeLast hlength h

/-- Symbols are read as some data exactly if they are the symbols of the data. -/
theorem decode_eq_ok_iff {symbols data : Bytes} :
    decode padding symbols = .ok data ↔ encode padding data = symbols := by
  constructor
  · intro h
    cases symbols with
    | nil =>
      obtain rfl : [] = data := Except.ok.inj h
      rfl
    | cons first rest =>
      simp only [decode] at h
      split at h
      · cases h
      · exact encode_of_decodeGroups h
  · rintro rfl
    exact decode_encode padding data

end Base64

/-! ## Hexadecimal -/

namespace Hex

/-- The byte with an ASCII capital made small. -/
def lowerByte (b : UInt8) : UInt8 := if 65 ≤ b.toNat ∧ b.toNat ≤ 90 then b + 32 else b

/-- A byte that has a value is, made small, the digit of this value. -/
theorem digit_of_value? {byte : UInt8} {value : Nat} (h : value? byte = some value) :
    value < 16 ∧ digit value = lowerByte byte := by
  have hall : ∀ n < 256, ∀ value ∈ value? (UInt8.ofNat n),
      value < 16 ∧ digit value = lowerByte (UInt8.ofNat n) := by decide +kernel
  have hbyte := hall byte.toNat byte.toNat_lt
  rw [UInt8.ofNat_toNat] at hbyte
  exact hbyte value h

/-- The case of a byte does not matter for its value. -/
theorem value?_lowerByte (byte : UInt8) : value? (lowerByte byte) = value? byte := by
  have hall : ∀ n < 256, value? (lowerByte (UInt8.ofNat n)) = value? (UInt8.ofNat n) := by
    decide +kernel
  have hbyte := hall byte.toNat byte.toNat_lt
  rwa [UInt8.ofNat_toNat] at hbyte

/-- A byte is read as a value exactly if its small form is the digit of this value. -/
theorem valueAt_eq_ok_iff {position value : Nat} {byte : UInt8} :
    valueAt position byte = .ok value ↔ value < 16 ∧ digit value = lowerByte byte := by
  have hread : valueAt position byte = .ok value ↔ value? byte = some value := by
    unfold valueAt
    cases value? byte with
    | none => exact ⟨fun h => (by cases h), fun h => (by cases h)⟩
    | some found => exact ⟨fun h => congrArg some (Except.ok.inj h), fun h => by cases h; rfl⟩
  rw [hread]
  constructor
  · exact digit_of_value?
  · rintro ⟨hlt, hdigit⟩
    rw [← value?_lowerByte, ← hdigit, value?_digit hlt]

/-- The digits of a byte and those of the data after it. -/
theorem encode_cons (b : UInt8) (data : Bytes) :
    encode (b :: data) = digit (b.toNat / 16) :: digit (b.toNat % 16) :: encode data := rfl

/-- Pairs of digits that are read are, made small, the digits of what is read. -/
theorem encode_of_decodePairs {position : Nat} {symbols data : Bytes}
    (heven : symbols.length % 2 = 0) (hread : decodePairs position symbols = .ok data) :
    encode data = symbols.map lowerByte := by
  induction position, symbols using decodePairs.induct generalizing data with
  | case1 position high low rest ih =>
    have hrest : rest.length % 2 = 0 := by
      simp only [List.length_cons] at heven
      omega
    rw [decodePairs] at hread
    obtain ⟨h, hhigh, hread⟩ := Success.of_bind hread
    obtain ⟨l, hlow, hread⟩ := Success.of_bind hread
    obtain ⟨later, hlater, hread⟩ := Success.of_bind hread
    obtain rfl := Except.ok.inj hread
    obtain ⟨hh, hhigh⟩ := valueAt_eq_ok_iff.mp hhigh
    obtain ⟨hl, hlow⟩ := valueAt_eq_ok_iff.mp hlow
    have hb : (h * 16 + l).toUInt8.toNat = h * 16 + l := Base64.toNat_toUInt8 (by omega)
    have hdiv : (h * 16 + l) / 16 = h := by omega
    have hmod : (h * 16 + l) % 16 = l := by omega
    rw [encode_cons, hb, hdiv, hmod, hhigh, hlow, ih hrest hlater, List.map_cons, List.map_cons]
  | case2 symbols position hshort =>
    -- An even number of digits below two is none.
    rcases symbols with _ | ⟨high, _ | ⟨low, rest⟩⟩
    · obtain rfl : [] = data := Except.ok.inj hread
      rfl
    · cases heven
    · exact absurd rfl (hshort high low rest)

/-- Digits of either case are read as the data whose digits they are when made small. -/
theorem decodePairs_of_encode {position : Nat} {symbols data : Bytes}
    (h : encode data = symbols.map lowerByte) : decodePairs position symbols = .ok data := by
  induction data generalizing position symbols with
  | nil =>
    obtain rfl : symbols = [] := List.map_eq_nil_iff.mp h.symm
    rfl
  | cons b data ih =>
    rw [encode_cons] at h
    obtain ⟨high, after, rfl, hhigh, hafter⟩ := List.map_eq_cons_iff.mp h.symm
    obtain ⟨low, rest, rfl, hlow, hrest⟩ := List.map_eq_cons_iff.mp hafter
    have hb := b.toNat_lt
    have hvalue : b.toNat / 16 * 16 + b.toNat % 16 = b.toNat := by omega
    rw [decodePairs, valueAt_eq_ok_iff.mpr ⟨by omega, hhigh.symm⟩, Success.bind_ok,
      valueAt_eq_ok_iff.mpr ⟨by omega, hlow.symm⟩, Success.bind_ok, ih hrest.symm,
      Success.bind_ok, hvalue, Nat.toUInt8_eq, UInt8.ofNat_toNat]

/-- Digits are read as some data exactly if, made small, they are the digits of the data. -/
theorem decode_eq_ok_iff {symbols data : Bytes} :
    decode symbols = .ok data ↔ encode data = symbols.map lowerByte := by
  rw [decode]
  split
  · next hodd =>
    refine ⟨fun h => (by cases h), fun h => ?_⟩
    have hlength := congrArg List.length h
    rw [length_encode, List.length_map] at hlength
    omega
  · next heven =>
    exact ⟨fun h => encode_of_decodePairs (by omega) h, fun h => decodePairs_of_encode h⟩

end Hex

/-! ## Capital letters -/

namespace Utf8

/-- A character made small has the bytes of the character made small. -/
theorem encodeChar_toLower (c : Char) :
    String.utf8EncodeChar c.toLower = (String.utf8EncodeChar c).map Hex.lowerByte := by
  by_cases hc : c.toNat < 128
  · have hall : ∀ n < 128, String.utf8EncodeChar (Char.ofNat n).toLower =
        (String.utf8EncodeChar (Char.ofNat n)).map Hex.lowerByte := by decide +kernel
    have hascii := hall c.toNat hc
    rwa [Char.ofNat_toNat] at hascii
  · have hlower : c.toLower = c := by
      have hcapital : ¬(c.val ≥ 65 ∧ c.val ≤ 90) := by
        intro h
        have hle : c.val.toNat ≤ 90 := UInt32.le_iff_toNat_le.mp h.2
        have hge : ¬c.val.toNat < 128 := hc
        omega
      exact dif_neg hcapital
    have hkept : ∀ b ∈ String.utf8EncodeChar c, Hex.lowerByte b = b := by
      intro b hb
      have hge := le_of_mem_encodeChar (Nat.le_of_not_lt hc) hb
      exact if_neg (by omega)
    rw [hlower, List.map_congr_left hkept, List.map_id']

/-- A text made small has the bytes of the text made small. -/
theorem encode_toLower (t : Text) : encode (Text.toLower t) = (encode t).map Hex.lowerByte := by
  induction t with
  | nil => rfl
  | cons c t ih =>
    rw [Text.toLower, List.map_cons, encode, List.flatMap_cons, encodeChar_toLower, ← Text.toLower,
      ← encode, ih, encode, encode, List.flatMap_cons, List.map_append]

end Utf8

/-! ## The codecs -/

namespace TextCodec

/-- The text that counts: without blanks around it, and small where the case does not matter. -/
def plain (codec : TextCodec) (text : Text) : Text :=
  match codec with
  | base64 => Text.trim text
  | base64Hex => Text.toLower (Text.trim text)

/-- The names under which a codec reports that it cannot read a text. -/
def errorNames (codec : TextCodec) : List Text :=
  match codec with
  | base64 => ["base64"]
  | base64Hex => ["hex", "base64"]

/-- A text is that of some data if its bytes are the symbols of the data. -/
theorem eq_encode_iff {codec : TextCodec} {text : Text} {data : Bytes} :
    text = codec.encode data ↔ codec.symbols data = Utf8.encode text := by
  have hbytes : Utf8.encode (codec.encode data) = codec.symbols data := by
    rw [encode_eq_asciiText, encode_asciiText fun b => isGraphic_of_mem_symbols]
  rw [← hbytes]
  exact ⟨fun h => by rw [h], fun h => (Utf8.encode_injective h).symm⟩

/-- A text is read as some data exactly if what counts of it is the text of the data. -/
theorem decode_eq_ok_iff {codec : TextCodec} {text : Text} {data : Bytes} :
    codec.decode text = .ok data ↔ codec.plain text = codec.encode data := by
  rw [eq_encode_iff]
  cases codec with
  | base64 => exact Success.mapError_eq_ok_iff.trans Base64.decode_eq_ok_iff
  | base64Hex =>
    have hlower : Utf8.encode (plain base64Hex text) =
        (Utf8.encode (Text.trim text)).map Hex.lowerByte := Utf8.encode_toLower _
    rw [hlower]
    constructor
    · intro h
      obtain ⟨inner, hhex, h⟩ := Success.of_bind h
      have hinner := Hex.decode_eq_ok_iff.mp (Success.mapError_eq_ok_iff.mp hhex)
      have hdata := Base64.decode_eq_ok_iff.mp (Success.mapError_eq_ok_iff.mp h)
      rw [← hinner, ← hdata]
      rfl
    · intro h
      have hhex : (Hex.decode (Utf8.encode (Text.trim text))).mapError ofHex =
          .ok (Base64.encode .absent data) :=
        Success.mapError_eq_ok_iff.mpr (Hex.decode_eq_ok_iff.mpr h)
      rw [decode, hhex, Success.bind_ok, Success.mapError_eq_ok_iff, Base64.decode_encode]

/-- What cannot be read is reported under a name of the codec. -/
theorem error_of_decode {codec : TextCodec} {text : Text} {failure : Failure}
    (h : codec.decode text = .error failure) :
    ∃ name ∈ codec.errorNames, ∃ message, failure = .codec name message := by
  cases codec with
  | base64 =>
    obtain ⟨error, -, rfl⟩ := Success.of_mapError h
    exact ⟨_, List.mem_cons_self, error.message, rfl⟩
  | base64Hex =>
    rw [decode] at h
    cases hhex : (Hex.decode (Utf8.encode (Text.trim text))).mapError ofHex with
    | ok inner =>
      rw [hhex, Success.bind_ok] at h
      obtain ⟨error, -, rfl⟩ := Success.of_mapError h
      exact ⟨_, List.mem_cons_of_mem _ List.mem_cons_self, error.message, rfl⟩
    | error found =>
      obtain ⟨error, -, rfl⟩ := Success.of_mapError hhex
      rw [hhex, Success.bind_error] at h
      exact ⟨_, List.mem_cons_self, error.message, (Except.error.inj h).symm⟩

/-- A codec reads as some data exactly the texts that are the text of the data, apart from blanks
around them and capital letters in hexadecimal; it reports any other text under its name. So texts
that are read as the same data do not differ otherwise. -/
theorem accepts_own_texts (codec : TextCodec) (text : Text) :
    (∀ data, codec.decode text = .ok data ↔ codec.plain text = codec.encode data) ∧
      ((∀ data, codec.plain text ≠ codec.encode data) →
        ∃ name ∈ codec.errorNames, ∃ message,
          codec.decode text = .error (.codec name message)) ∧
      ∀ other data, codec.decode text = .ok data → codec.decode other = .ok data →
        codec.plain text = codec.plain other := by
  refine ⟨fun data => decode_eq_ok_iff, fun hother => ?_, fun other data htext hdata => ?_⟩
  · cases hread : codec.decode text with
    | ok data => exact absurd (decode_eq_ok_iff.mp hread) (hother data)
    | error failure =>
      obtain ⟨name, hname, message, rfl⟩ := error_of_decode hread
      exact ⟨name, hname, message, rfl⟩
  · rw [decode_eq_ok_iff.mp htext, decode_eq_ok_iff.mp hdata]

/-- A blank and a capital letter do not matter; a bit left over in the last group does. -/
theorem decode_capital_and_left_over_bit :
    base64Hex.decode " 2B77" = .ok [0xfb] ∧ base64Hex.decode "2b77" = .ok [0xfb] ∧
      base64Hex.plain " 2B77" = base64Hex.plain "2b77" ∧
      ∃ name ∈ base64.errorNames, ∃ message,
        base64.decode "QR==" = .error (.codec name message) := by
  have hcapital : base64Hex.decode " 2B77" = .ok [0xfb] :=
    ((accepts_own_texts base64Hex " 2B77").1 [0xfb]).mpr (by decide +kernel)
  have hsmall : base64Hex.decode "2b77" = .ok [0xfb] :=
    ((accepts_own_texts base64Hex "2b77").1 [0xfb]).mpr (by decide +kernel)
  have hrefused (data : Bytes) : base64.decode "QR==" ≠ .ok data := by
    have hnone : (base64.decode "QR==").toOption = none := by decide +kernel
    intro hread
    rw [hread] at hnone
    cases hnone
  refine ⟨hcapital, hsmall, (accepts_own_texts base64Hex _).2.2 _ _ hcapital hsmall, ?_⟩
  exact (accepts_own_texts base64 "QR==").2.1 fun data hdata =>
    hrefused data (((accepts_own_texts base64 "QR==").1 data).mpr hdata)

end TextCodec
end HostKit
