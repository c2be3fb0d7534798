import HostKit.Proofs.Codec.Numerals
import Mathlib.Data.List.Induction
import Mathlib.Data.Nat.Digits.Defs

/-!
# Accepted numerals

A text stands for an integer by its grammar: digits of the radix, at least one, with at most one
sign in front. Reading accepts just these texts, blanks around them left out, as long as 64 bits
hold the integer. The limit that the reader puts on the magnitude depends on the sign, and with the
sign it is the range of the integers on both sides. Any other text is refused by the codec, and any
other radix whatever the text is.
-/

namespace HostKit.Radix

variable {radix limit read n : Nat} {c : Char} {digits text : Text} {value : Int}

/-! ## The grammar -/

/-- The place of a digit in the row of all digits, whether it is small or a capital. -/
def place (c : Char) : Nat := digitRow.idxOf c.toLower

/-- Digits of the radix, at least one, that stand for the number: ASCII digits and letters with
places below the radix, the last of them counted once and each one before it radix times more. -/
structure IsPositional (radix n : Nat) (digits : Text) : Prop where
  ne_nil : digits ≠ []
  digit : ∀ c ∈ digits, c.isAlphanum = true ∧ place c < radix
  value : Nat.ofDigits radix (digits.map place).reverse = n

/-- A text and the integer it stands for: digits with no sign, a plus sign or a minus sign in
front. -/
inductive Denotes (radix : Nat) : Text → Int → Prop
  | unsigned {digits : Text} {n : Nat} : IsPositional radix n digits → Denotes radix digits n
  | plus {digits : Text} {n : Nat} : IsPositional radix n digits → Denotes radix ('+' :: digits) n
  | minus {digits : Text} {n : Nat} :
    IsPositional radix n digits → Denotes radix ('-' :: digits) (-n)

/-- Digits and letters are ASCII characters. -/
theorem toNat_lt_of_isAlphanum (h : c.isAlphanum = true) : c.toNat < 128 := by
  have hcases : (c.isUpper || c.isLower || c.isDigit) = true := h
  rw [Bool.or_eq_true, Bool.or_eq_true] at hcases
  rcases hcases with (hupper | hlower) | hdigit
  · have hle : c.toNat ≤ 'Z'.toNat := (of_decide_eq_true hupper).2
    exact Nat.lt_of_le_of_lt hle (by decide)
  · have hle : c.toNat ≤ 'z'.toNat := of_decide_eq_true (Bool.and_eq_true_iff.mp hlower).2
    exact Nat.lt_of_le_of_lt hle (by decide)
  · have hle : c.toNat ≤ '9'.toNat := of_decide_eq_true (Bool.and_eq_true_iff.mp hdigit).2
    exact Nat.lt_of_le_of_lt hle (by decide)

/-- The digits are the ASCII digits and letters, with their places as values. -/
theorem digitValue?_eq (c : Char) :
    Text.digitValue? c = if c.isAlphanum then some (place c) else none := by
  by_cases hc : c.toNat < 128
  · have hall : ∀ n < 128, Text.digitValue? (Char.ofNat n) =
        if (Char.ofNat n).isAlphanum then some (place (Char.ofNat n)) else none := by decide +kernel
    have hascii := hall c.toNat hc
    rwa [Char.ofNat_toNat] at hascii
  · have hother : c.isAlphanum = false :=
      Bool.eq_false_of_not_eq_true fun h => hc (toNat_lt_of_isAlphanum h)
    cases hvalue : Text.digitValue? c with
    | none => rw [hother, if_neg Bool.false_ne_true]
    | some value =>
      have hbounds := Text.bounds_of_digitValue? hvalue
      omega

/-- The digits of a radix are the ASCII digits and letters with places below it. -/
theorem isDigit_iff : IsDigit radix c ↔ c.isAlphanum = true ∧ place c < radix := by
  rw [IsDigit, digitValue?_eq]
  cases c.isAlphanum <;> simp

/-- The value that is added up digit by digit is the value by position. -/
theorem valueFrom_eq_ofDigits (h : ∀ c ∈ digits, IsDigit radix c) :
    valueFrom radix 0 digits = Nat.ofDigits radix (digits.map place).reverse := by
  induction digits using List.reverseRecOn with
  | nil => rfl
  | append_singleton digits c ih =>
    obtain ⟨hdigits, hc⟩ := List.forall_mem_append.mp h
    obtain ⟨halphanum, -⟩ := isDigit_iff.mp (hc c (List.mem_singleton_self c))
    rw [valueFrom_concat, ih hdigits, digitValue?_eq, if_pos halphanum, Option.getD_some,
      List.map_append, List.map_singleton, List.reverse_append, List.reverse_singleton,
      List.singleton_append, Nat.ofDigits_cons, Nat.mul_comm, Nat.add_comm]

/-- Digits that can be read are those that stand for the number by position. -/
theorem isRead_iff : IsRead radix n digits ↔ IsPositional radix n digits := by
  constructor
  · rintro ⟨hnil, hdigit, hvalue⟩
    exact ⟨hnil, fun c hc => isDigit_iff.mp (hdigit c hc),
      (valueFrom_eq_ofDigits hdigit).symm.trans hvalue⟩
  · rintro ⟨hnil, hdigit, hvalue⟩
    have hdigit' : ∀ c ∈ digits, IsDigit radix c := fun c hc => isDigit_iff.mpr (hdigit c hc)
    exact ⟨hnil, hdigit', (valueFrom_eq_ofDigits hdigit').trans hvalue⟩

/-- No digits begin with a sign. -/
theorem IsPositional.head_ne_sign {rest : Text} (h : IsPositional radix n (c :: rest)) :
    c ≠ '-' ∧ c ≠ '+' :=
  (isDigit_iff.mpr (h.digit c List.mem_cons_self)).ne_sign

/-- Nothing that stands for an integer has a blank in it. -/
theorem Denotes.isBlank_eq (h : Denotes radix text value) :
    ∀ c ∈ text, Text.isBlank c = false := by
  have hdigits {n : Nat} {digits : Text} (h : IsPositional radix n digits) :
      ∀ c ∈ digits, Text.isBlank c = false :=
    fun c hc => (isDigit_iff.mpr (h.digit c hc)).isBlank_eq
  cases h with
  | unsigned h => exact hdigits h
  | plus h => exact List.forall_mem_cons.mpr ⟨by decide, hdigits h⟩
  | minus h => exact List.forall_mem_cons.mpr ⟨by decide, hdigits h⟩

/-- After a minus sign stand the digits of the magnitude. -/
theorem denotes_minus_iff :
    Denotes radix ('-' :: digits) value ↔
      ∃ n : Nat, IsPositional radix n digits ∧ -(n : Int) = value := by
  constructor
  · intro h
    cases h with
    | unsigned h => exact absurd rfl h.head_ne_sign.1
    | minus h => exact ⟨_, h, rfl⟩
  · rintro ⟨n, h, rfl⟩
    exact .minus h

/-- After a plus sign stand the digits of the integer. -/
theorem denotes_plus_iff :
    Denotes radix ('+' :: digits) value ↔
      ∃ n : Nat, IsPositional radix n digits ∧ (n : Int) = value := by
  constructor
  · intro h
    cases h with
    | unsigned h => exact absurd rfl h.head_ne_sign.2
    | plus h => exact ⟨_, h, rfl⟩
  · rintro ⟨n, h, rfl⟩
    exact .plus h

/-- Without a sign there are only the digits of the integer. -/
theorem denotes_unsigned_iff (hminus : ∀ rest, digits ≠ '-' :: rest)
    (hplus : ∀ rest, digits ≠ '+' :: rest) :
    Denotes radix digits value ↔ ∃ n : Nat, IsPositional radix n digits ∧ (n : Int) = value := by
  constructor
  · intro h
    cases h with
    | unsigned h => exact ⟨_, h, rfl⟩
    | plus h => exact absurd rfl (hplus _)
    | minus h => exact absurd rfl (hminus _)
  · rintro ⟨n, h, rfl⟩
    exact .unsigned h

/-! ## Reading -/

/-- Digits are read as the integer they stand for with their sign if 64 bits hold it, as long as
this is what the limit on the number says. -/
theorem map_magnitude_eq_ok_iff {overflow : Error} {signed : Nat → Int} (hradix : 0 < radix)
    (hnil : digits ≠ []) (hlimit : ∀ n, n ≤ limit ↔ -2 ^ 63 ≤ signed n ∧ signed n < 2 ^ 63) :
    (magnitude radix limit overflow 0 digits).map signed = .ok value ↔
      (∃ n, IsPositional radix n digits ∧ signed n = value) ∧
        -2 ^ 63 ≤ value ∧ value < 2 ^ 63 := by
  constructor
  · intro h
    obtain ⟨n, hread, rfl⟩ := Success.of_map h
    obtain ⟨hdigit, hn, hle⟩ := (magnitude_eq_ok_iff hradix (Nat.zero_le _)).mp hread
    exact ⟨⟨n, isRead_iff.mp ⟨hnil, hdigit, hn⟩, rfl⟩, (hlimit n).mp hle⟩
  · rintro ⟨⟨n, hn, rfl⟩, hrange⟩
    have hread := isRead_iff.mpr hn
    have hle := (hlimit n).mpr hrange
    rw [(magnitude_eq_ok_iff hradix (Nat.zero_le _)).mpr ⟨hread.digit, hread.value, hle⟩]
    rfl

/-- The largest integer is the limit without a minus sign. -/
theorem le_largest_iff (n : Nat) :
    n ≤ Word.largest 63 ↔ -2 ^ 63 ≤ (n : Int) ∧ (n : Int) < 2 ^ 63 := by
  have hsize : Word.size 63 = 2 ^ 63 := rfl
  rw [Word.largest, hsize]
  omega

/-- The magnitude of the lowest integer is the limit after a minus sign. -/
theorem le_size_iff (n : Nat) :
    n ≤ Word.size 63 ↔ -2 ^ 63 ≤ -(n : Int) ∧ -(n : Int) < 2 ^ 63 := by
  have hsize : Word.size 63 = 2 ^ 63 := rfl
  rw [hsize]
  omega

/-- Without blanks around it, a text is read as the integer it stands for if 64 bits hold it, and
as nothing else. -/
theorem parseSigned_eq_ok_iff (hradix : 0 < radix) :
    parseSigned radix text = .ok value ↔
      Denotes radix text value ∧ -2 ^ 63 ≤ value ∧ value < 2 ^ 63 := by
  have hnone : ∀ n, ¬IsPositional radix n [] := fun n h => h.ne_nil rfl
  by_cases hminus : ∃ digits, text = '-' :: digits
  · obtain ⟨digits, rfl⟩ := hminus
    rw [denotes_minus_iff]
    by_cases hnil : digits = []
    · subst hnil
      simp [parseSigned, hnone]
    · rw [parseSigned_minus hnil, map_magnitude_eq_ok_iff hradix hnil le_size_iff]
  by_cases hplus : ∃ digits, text = '+' :: digits
  · obtain ⟨digits, rfl⟩ := hplus
    rw [denotes_plus_iff]
    by_cases hnil : digits = []
    · subst hnil
      simp [parseSigned, hnone]
    · rw [parseSigned_plus hnil, map_magnitude_eq_ok_iff hradix hnil le_largest_iff]
  have hminus' : ∀ rest, text ≠ '-' :: rest := fun rest h => hminus ⟨rest, h⟩
  have hplus' : ∀ rest, text ≠ '+' :: rest := fun rest h => hplus ⟨rest, h⟩
  rw [denotes_unsigned_iff hminus' hplus']
  by_cases hnil : text = []
  · subst hnil
    simp [parseSigned, hnone]
  · rw [parseSigned_unsigned hnil hminus' hplus',
      map_magnitude_eq_ok_iff hradix hnil le_largest_iff]

/-- A text is read as the integer that stands in it between blanks, if 64 bits hold it, and as
nothing else. -/
theorem parse_eq_ok_iff (hlow : 2 ≤ radix) (hhigh : radix ≤ 36) :
    parse text radix = .ok value ↔
      Denotes radix (Text.trim text) value ∧ -2 ^ 63 ≤ value ∧ value < 2 ^ 63 := by
  have hradix : isRadix radix = true := by simp [isRadix, hlow, hhigh]
  rw [parse, if_pos hradix, parseSigned_eq_ok_iff (Nat.zero_lt_of_lt hlow)]

/-- What stands for an integer is what trimming leaves of it and blanks around it. -/
theorem denotes_trim_iff :
    Denotes radix (Text.trim text) value ↔
      ∃ before numeral after, text = before ++ numeral ++ after ∧
        (∀ c ∈ before, Text.isBlank c = true) ∧ (∀ c ∈ after, Text.isBlank c = true) ∧
        Denotes radix numeral value := by
  constructor
  · intro h
    obtain ⟨before, after, htext, hbefore, hafter⟩ := Text.exists_append_trim text
    exact ⟨before, Text.trim text, after, htext, hbefore, hafter, h⟩
  · rintro ⟨before, numeral, after, rfl, hbefore, hafter, h⟩
    rwa [Text.trim_append hbefore h.isBlank_eq hafter]

/-! ## Refusals -/

/-- Digits are refused for one that is none, or as too much. -/
theorem of_magnitude_eq_error {overflow e : Error}
    (h : magnitude radix limit overflow read digits = .error e) :
    e = .invalidDigit ∨ e = overflow := by
  induction digits generalizing read with
  | nil => cases h
  | cons c digits ih =>
    rw [magnitude] at h
    split at h
    · exact .inl (Except.error.inj h).symm
    split at h
    · exact .inl (Except.error.inj h).symm
    split at h
    · exact .inr (Except.error.inj h).symm
    · exact ih h

/-- The failure of a text that is no integer. -/
def IsRefusal (failure : Failure) : Prop := ∃ message, failure = .codec "int" message

/-- A text is refused by the codec for integers. -/
theorem isRefusal_of_parseSigned {e : Error} (h : parseSigned radix text = .error e) :
    IsRefusal e.toFailure := by
  have hdigits {limit : Nat} {overflow : Error} {digits : Text} {signed : Int → Int}
      (hoverflow : IsRefusal overflow.toFailure)
      (h : (do let n ← magnitude radix limit overflow 0 digits; pure (n : Int)).map signed =
        .error e) : IsRefusal e.toFailure := by
    cases hread : magnitude radix limit overflow 0 digits with
    | ok n =>
      rw [hread] at h
      cases h
    | error e' =>
      rw [hread] at h
      obtain rfl : e' = e := Except.error.inj h
      rcases of_magnitude_eq_error hread with rfl | rfl
      · exact ⟨_, rfl⟩
      · exact hoverflow
  unfold parseSigned at h
  split at h
  · exact Except.error.inj h ▸ ⟨_, rfl⟩
  · exact Except.error.inj h ▸ ⟨_, rfl⟩
  · exact Except.error.inj h ▸ ⟨_, rfl⟩
  · exact hdigits ⟨_, rfl⟩ h
  · exact hdigits ⟨_, rfl⟩ h
  · exact hdigits ⟨_, rfl⟩ h

/-- In a radix from two to thirty-six, a text is read as an integer exactly if it is a numeral of
this integer between blanks and 64 bits hold the integer: an optional sign and at least one ASCII
digit or letter, each of a value below the radix, whose value by position the integer has with its
sign. Every other text is refused by the codec for integers. Any other radix is refused as an
argument, whatever the text is. -/
theorem parse_accepts_grammar (text : Text) (radix : Nat) :
    (2 ≤ radix ∧ radix ≤ 36 →
      (∀ value, (parse text radix).mapError Error.toFailure = .ok value ↔
        (∃ before numeral after, text = before ++ numeral ++ after ∧
          (∀ c ∈ before, Text.isBlank c = true) ∧ (∀ c ∈ after, Text.isBlank c = true) ∧
          Denotes radix numeral value) ∧ -2 ^ 63 ≤ value ∧ value < 2 ^ 63) ∧
      ∀ failure, (parse text radix).mapError Error.toFailure = .error failure →
        ∃ message, failure = .codec "int" message) ∧
    (¬(2 ≤ radix ∧ radix ≤ 36) →
      ∃ message, (parse text radix).mapError Error.toFailure =
        .error (.invalidArgument message)) := by
  constructor
  · rintro ⟨hlow, hhigh⟩
    constructor
    · intro value
      rw [Success.mapError_eq_ok_iff, parse_eq_ok_iff hlow hhigh, denotes_trim_iff]
    · intro failure h
      obtain ⟨e, he, rfl⟩ := Success.of_mapError h
      have hradix : isRadix radix = true := by simp [isRadix, hlow, hhigh]
      rw [parse, if_pos hradix] at he
      exact isRefusal_of_parseSigned he
  · intro hother
    have hradix : ¬isRadix radix = true := by simpa [isRadix] using hother
    rw [parse, if_neg hradix]
    exact ⟨_, rfl⟩

/-- The lowest integer is read with zeros in front and between blanks, one of them no ASCII
character, and what is lower still is refused. -/
theorem parse_padded_lowest :
    (parse "\u2003-00800000000000000A\n" 16).mapError Error.toFailure =
        .error (.codec "int" "number too small to fit in target type") ∧
      (parse "\u2003-008000000000000000\n" 16).mapError Error.toFailure =
        .ok (-9223372036854775808) := by
  have hdigit : "008000000000000000".toList.all fun c => c.isAlphanum ∧ place c < 16 := by decide
  have hdigits : IsPositional 16 9223372036854775808 "008000000000000000".toList :=
    ⟨by decide, by simpa only [List.all_eq_true, decide_eq_true_eq] using hdigit, by decide⟩
  have hbefore : ∀ c ∈ ['\u2003'], Text.isBlank c = true :=
    List.forall_mem_singleton.mpr (by decide)
  have hafter : ∀ c ∈ ['\n'], Text.isBlank c = true := List.forall_mem_singleton.mpr (by decide)
  obtain ⟨hreads, -⟩ := (parse_accepts_grammar "\u2003-008000000000000000\n" 16).1 (by decide)
  refine ⟨by decide, (hreads _).mpr ⟨⟨_, _, _, rfl, hbefore, hafter, .minus hdigits⟩, ?_⟩⟩
  decide

end HostKit.Radix
