import HostKit.Codec.Radix
import HostKit.Proofs.Codec.Texts

/-!
# Numerals

The digits of a number in a radix are taken from one row of thirty-six, and their value goes by
position. Reading adds up this value digit by digit and looks at the limit each time, but no digit
makes the value smaller, so only the value at the end counts. Writing gives the only numeral of
the number that has small letters and no zero in front. Hence a 64-bit integer is read back from
its text in the same radix, in small or capital letters and between any blanks, the lowest one
included, whose magnitude is one more than the largest integer.
-/

namespace HostKit.Radix

variable {radix limit read n : Nat} {c : Char} {digits text : Text}

/-! ## Digits -/

/-- The digits of all radices by their values, letters small. -/
def digitRow : Text := "0123456789abcdefghijklmnopqrstuvwxyz"

/-- A digit of the radix, small if it is a letter. -/
def IsSmallDigit (radix : Nat) (c : Char) : Prop := c ∈ digitRow.take radix

/-- A digit of the radix, small or capital. -/
def IsDigit (radix : Nat) (c : Char) : Prop := ∃ value < radix, Text.digitValue? c = some value

/-- The row has the digit of each value at its place. -/
theorem digitRow_eq : digitRow = (List.range 36).map digitChar := by
  decide

/-- The small digits of a radix are those of the values below it. -/
theorem isSmallDigit_iff (h : radix ≤ 36) :
    IsSmallDigit radix c ↔ ∃ value < radix, digitChar value = c := by
  rw [IsSmallDigit, digitRow_eq, ← List.map_take, List.take_range, Nat.min_eq_left h]
  simp only [List.mem_map, List.mem_range]

/-- A digit has its value also as a capital letter, and only the digit of zero is a zero. -/
theorem digitChar_spec {value : Nat} (h : value < 36) :
    Text.digitValue? (digitChar value) = some value ∧
      Text.digitValue? (digitChar value).toUpper = some value ∧
      (digitChar value = '0' → value = 0) := by
  have hall : ∀ value < 36, Text.digitValue? (digitChar value) = some value ∧
      Text.digitValue? (digitChar value).toUpper = some value ∧
      (digitChar value = '0' → value = 0) := by decide
  exact hall value h

/-- A digit is no sign. -/
theorem IsDigit.ne_sign (h : IsDigit radix c) : c ≠ '-' ∧ c ≠ '+' := by
  have hminus : Text.digitValue? '-' = none := by decide
  have hplus : Text.digitValue? '+' = none := by decide
  obtain ⟨value, -, hvalue⟩ := h
  constructor
  · intro hc
    rw [hc, hminus] at hvalue
    cases hvalue
  · intro hc
    rw [hc, hplus] at hvalue
    cases hvalue

/-- A digit is no blank. -/
theorem IsDigit.isBlank_eq (h : IsDigit radix c) : Text.isBlank c = false := by
  obtain ⟨value, -, hvalue⟩ := h
  exact Text.isBlank_of_digitValue? hvalue

/-! ## Values -/

/-- The value by position of digits that stand after others of the value `read`. -/
def valueFrom (radix read : Nat) : Text → Nat
  | [] => read
  | c :: digits => valueFrom radix (read * radix + (Text.digitValue? c).getD 0) digits

/-- The value of more digits goes on from that of the first ones. -/
theorem valueFrom_append (radix read : Nat) (digits later : Text) :
    valueFrom radix read (digits ++ later) =
      valueFrom radix (valueFrom radix read digits) later := by
  induction digits generalizing read with
  | nil => rfl
  | cons c digits ih => exact ih _

/-- One more digit multiplies the value by the radix and adds its own. -/
theorem valueFrom_concat (radix read : Nat) (digits : Text) (c : Char) :
    valueFrom radix read (digits ++ [c]) =
      valueFrom radix read digits * radix + (Text.digitValue? c).getD 0 :=
  valueFrom_append radix read digits [c]

/-- More digits do not make the value smaller. -/
theorem le_valueFrom (h : 0 < radix) (read : Nat) (digits : Text) :
    read ≤ valueFrom radix read digits := by
  induction digits generalizing read with
  | nil => exact Nat.le_refl read
  | cons c digits ih =>
    have hmul : read ≤ read * radix := Nat.le_mul_of_pos_right read h
    exact Nat.le_trans hmul (Nat.le_trans (Nat.le_add_right _ _) (ih _))

/-- Reading gives the value of digits of the radix if it is within the limit, and nothing else. -/
theorem magnitude_eq_ok_iff {overflow : Error} (h : 0 < radix) (hread : read ≤ limit) :
    magnitude radix limit overflow read digits = .ok n ↔
      (∀ c ∈ digits, IsDigit radix c) ∧ valueFrom radix read digits = n ∧ n ≤ limit := by
  induction digits generalizing read with
  | nil =>
    constructor
    · intro heq
      have hn : read = n := Except.ok.inj heq
      exact ⟨fun c hc => absurd hc List.not_mem_nil, hn, hn ▸ hread⟩
    · rintro ⟨-, hn, -⟩
      exact congrArg Except.ok hn
  | cons c digits ih =>
    rw [magnitude, List.forall_mem_cons, valueFrom]
    cases hvalue : Text.digitValue? c with
    | none =>
      have hnot : ¬IsDigit radix c := by
        rintro ⟨value, -, hsome⟩
        rw [hvalue] at hsome
        cases hsome
      simp [hnot]
    | some value =>
      have hdigit : IsDigit radix c ↔ value < radix := by
        simp [IsDigit, hvalue]
      simp only [Option.getD_some]
      by_cases hlt : value < radix
      · rw [if_neg (Nat.not_le_of_lt hlt)]
        by_cases hlimit : read * radix + value ≤ limit
        · rw [if_neg (Nat.not_lt_of_le hlimit), ih hlimit]
          simp [hdigit, hlt]
        · -- The value is past the limit already, and can only grow.
          have hgrows := le_valueFrom h (read * radix + value) digits
          rw [if_pos (Nat.lt_of_not_le hlimit)]
          constructor
          · intro heq
            cases heq
          · rintro ⟨-, hn, hle⟩
            omega
      · rw [if_pos (Nat.le_of_not_lt hlt)]
        simp [hdigit, hlt]

/-! ## The numeral of a number -/

/-- The digits are small, stand for the number, and have no zero in front unless they are a single
zero. -/
structure IsNumeral (radix n : Nat) (digits : Text) : Prop where
  ne_nil : digits ≠ []
  small : ∀ c ∈ digits, IsSmallDigit radix c
  value : valueFrom radix 0 digits = n
  front : digits.head? = some '0' → digits = ['0']

/-- Zero has no digits. -/
theorem digitsOf_zero (radix : Nat) : digitsOf radix 0 = [] := by
  rw [digitsOf, dif_neg fun h => Nat.lt_irrefl 0 h.2]

/-- The last digit of a number that has a digit before the others. -/
theorem digitsOf_of_pos (hlow : 2 ≤ radix) (hn : 0 < n) :
    digitsOf radix n = digitChar (n % radix) :: digitsOf radix (n / radix) := by
  rw [digitsOf, dif_pos ⟨hlow, hn⟩]

/-- The digits of a number, the last one first, are small, have the value of the number, and end
without a zero. -/
theorem digitsOf_spec (hlow : 2 ≤ radix) (hhigh : radix ≤ 36) (n : Nat) :
    (∀ c ∈ digitsOf radix n, IsSmallDigit radix c) ∧
      valueFrom radix 0 (digitsOf radix n).reverse = n ∧
      (digitsOf radix n).getLast? ≠ some '0' := by
  induction n using Nat.strongRecOn with
  | ind n ih =>
    by_cases hn : 0 < n
    · have hdigit : n % radix < radix := Nat.mod_lt n (by omega)
      obtain ⟨hvalue, -, hzero⟩ := digitChar_spec (Nat.lt_of_lt_of_le hdigit hhigh)
      obtain ⟨hsmall, hhigher, hlast⟩ := ih (n / radix) (Nat.div_lt_self hn hlow)
      rw [digitsOf_of_pos hlow hn]
      refine ⟨?_, ?_, ?_⟩
      · rw [List.forall_mem_cons]
        exact ⟨(isSmallDigit_iff hhigh).mpr ⟨n % radix, hdigit, rfl⟩, hsmall⟩
      · rw [List.reverse_cons, valueFrom_concat, hhigher, hvalue, Option.getD_some]
        exact Nat.div_add_mod' n radix
      · intro heq
        by_cases hdiv : n / radix = 0
        · -- A single digit is zero only for the number zero.
          rw [hdiv, digitsOf_zero, List.getLast?_singleton] at heq
          have hmod := hzero (Option.some.inj heq)
          have hsum := Nat.div_add_mod n radix
          rw [hdiv, hmod] at hsum
          omega
        · have hrest := digitsOf_of_pos hlow (Nat.pos_of_ne_zero hdiv)
          rw [hrest, List.getLast?_cons_cons, ← hrest] at heq
          exact hlast heq
    · rw [Nat.eq_zero_of_not_pos hn, digitsOf_zero]
      exact ⟨fun c hc => absurd hc List.not_mem_nil, rfl, by simp⟩

/-- Small digits, the last one first, are the digits of their value if they end without a zero. -/
theorem digitsOf_valueFrom (hlow : 2 ≤ radix) (hhigh : radix ≤ 36)
    (hsmall : ∀ c ∈ digits, IsSmallDigit radix c) (hfront : digits.getLast? ≠ some '0') :
    digitsOf radix (valueFrom radix 0 digits.reverse) = digits := by
  induction digits with
  | nil => exact digitsOf_zero radix
  | cons c digits ih =>
    obtain ⟨hdigit, hhigher⟩ := List.forall_mem_cons.mp hsmall
    obtain ⟨value, hvalue, rfl⟩ := (isSmallDigit_iff hhigh).mp hdigit
    have hlast := (digitChar_spec (Nat.lt_of_lt_of_le hvalue hhigh)).1
    have hrest : digitsOf radix (valueFrom radix 0 digits.reverse) = digits := by
      apply ih hhigher
      intro hzero
      apply hfront
      rw [List.getLast?_cons, hzero]
      rfl
    have hpositive : valueFrom radix 0 digits.reverse * radix + value ≠ 0 := by
      -- If everything before the last digit comes to zero, there is nothing before it.
      intro hnone
      obtain ⟨hmul, rfl⟩ := Nat.add_eq_zero_iff.mp hnone
      have hbefore : valueFrom radix 0 digits.reverse = 0 := by
        rcases Nat.mul_eq_zero.mp hmul with hbefore | hradix
        · exact hbefore
        · omega
      rw [hbefore, digitsOf_zero] at hrest
      apply hfront
      rw [← hrest]
      rfl
    have hmod : (valueFrom radix 0 digits.reverse * radix + value) % radix = value := by
      rw [Nat.mul_add_mod_self_right, Nat.mod_eq_of_lt hvalue]
    have hdiv : (valueFrom radix 0 digits.reverse * radix + value) / radix =
        valueFrom radix 0 digits.reverse := by
      rw [Nat.mul_comm, Nat.mul_add_div (by omega), Nat.div_eq_of_lt hvalue, Nat.add_zero]
    rw [List.reverse_cons, valueFrom_concat, hlast, Option.getD_some,
      digitsOf_of_pos hlow (Nat.pos_of_ne_zero hpositive), hmod, hdiv, hrest]

/-- The text of a number is its only numeral. -/
theorem isNumeral_iff (hlow : 2 ≤ radix) (hhigh : radix ≤ 36) :
    IsNumeral radix n digits ↔ digits = renderNat radix n := by
  have hvalue : valueFrom radix 0 ['0'] = 0 := by
    rw [valueFrom, valueFrom, Nat.zero_mul]
    decide
  constructor
  · rintro ⟨hnil, hsmall, rfl, hfront⟩
    by_cases hhead : digits.head? = some '0'
    · rw [hfront hhead, hvalue]
      rfl
    · have hreverse : ∀ c ∈ digits.reverse, IsSmallDigit radix c :=
        fun c hc => hsmall c (List.mem_reverse.mp hc)
      have hdigits := digitsOf_valueFrom hlow hhigh hreverse (by rwa [List.getLast?_reverse])
      rw [List.reverse_reverse] at hdigits
      have hpositive : valueFrom radix 0 digits ≠ 0 := by
        intro hnone
        rw [hnone, digitsOf_zero] at hdigits
        exact hnil (List.reverse_eq_nil_iff.mp hdigits.symm)
      rw [renderNat, if_neg hpositive, hdigits, List.reverse_reverse]
  · rintro rfl
    by_cases hn : n = 0
    · have hzero : IsSmallDigit radix '0' :=
        (isSmallDigit_iff hhigh).mpr ⟨0, by omega, by decide⟩
      rw [renderNat, if_pos hn, hn]
      exact ⟨List.cons_ne_nil _ _, by simpa using hzero, hvalue, fun _ => rfl⟩
    · obtain ⟨hsmall, hread, hlast⟩ := digitsOf_spec hlow hhigh n
      rw [renderNat, if_neg hn]
      refine ⟨?_, fun c hc => hsmall c (List.mem_reverse.mp hc), hread, ?_⟩
      · intro hnil
        rw [hnil] at hread
        exact hn hread.symm
      · intro hhead
        rw [List.head?_reverse] at hhead
        exact absurd hhead hlast

/-! ## Letters of either case -/

/-- Digits of the radix that stand for the number, with letters of either case and any number of
zeros in front. -/
structure IsRead (radix n : Nat) (digits : Text) : Prop where
  ne_nil : digits ≠ []
  digit : ∀ c ∈ digits, IsDigit radix c
  value : valueFrom radix 0 digits = n

/-- A small digit is a digit, and one of the same value when it is made a capital. -/
theorem IsSmallDigit.cased (hhigh : radix ≤ 36) (h : IsSmallDigit radix c) :
    IsDigit radix c ∧ Text.digitValue? c.toUpper = Text.digitValue? c := by
  obtain ⟨value, hvalue, rfl⟩ := (isSmallDigit_iff hhigh).mp h
  obtain ⟨hsmall, hcapital, -⟩ := digitChar_spec (Nat.lt_of_lt_of_le hvalue hhigh)
  exact ⟨⟨value, hvalue, hsmall⟩, hcapital.trans hsmall.symm⟩

/-- Small digits keep their value when they are made capitals. -/
theorem valueFrom_map_toUpper (hhigh : radix ≤ 36) (h : ∀ c ∈ digits, IsSmallDigit radix c)
    (read : Nat) :
    valueFrom radix read (digits.map Char.toUpper) = valueFrom radix read digits := by
  induction digits generalizing read with
  | nil => rfl
  | cons c digits ih =>
    obtain ⟨hc, hrest⟩ := List.forall_mem_cons.mp h
    rw [List.map_cons, valueFrom, valueFrom, (hc.cased hhigh).2, ih hrest]

/-- A numeral can be read. -/
theorem IsNumeral.isRead (hhigh : radix ≤ 36) (h : IsNumeral radix n digits) :
    IsRead radix n digits where
  ne_nil := h.ne_nil
  digit c hc := ((h.small c hc).cased hhigh).1
  value := h.value

/-- A numeral can be read in capital letters. -/
theorem IsNumeral.isRead_map_toUpper (hhigh : radix ≤ 36) (h : IsNumeral radix n digits) :
    IsRead radix n (digits.map Char.toUpper) where
  ne_nil := by
    intro hnil
    exact h.ne_nil (List.map_eq_nil_iff.mp hnil)
  digit := by
    intro c hc
    obtain ⟨small, hsmall, rfl⟩ := List.mem_map.mp hc
    obtain ⟨⟨value, hvalue, hdigit⟩, hcapital⟩ := (h.small small hsmall).cased hhigh
    exact ⟨value, hvalue, hcapital.trans hdigit⟩
  value := by rw [valueFrom_map_toUpper hhigh h.small, h.value]

/-! ## Integers -/

/-- The text of an integer: its magnitude as a numeral, with a minus sign exactly if it is
negative. -/
def IsText (radix : Nat) (value : Int) (text : Text) : Prop :=
  ∃ digits, IsNumeral radix value.natAbs digits ∧
    text = if value < 0 then '-' :: digits else digits

/-- An integer is written as its only text. -/
theorem render_eq_ok_iff (hlow : 2 ≤ radix) (hhigh : radix ≤ 36) {value : Int} :
    render value radix = .ok text ↔ IsText radix value text := by
  have hradix : isRadix radix = true := by simp [isRadix, hlow, hhigh]
  rw [render, if_pos hradix]
  constructor
  · intro h
    exact ⟨_, (isNumeral_iff hlow hhigh).mpr rfl, (Except.ok.inj h).symm⟩
  · rintro ⟨digits, hdigits, rfl⟩
    rw [(isNumeral_iff hlow hhigh).mp hdigits]

/-- A row of digits does not begin with a minus sign. -/
theorem IsRead.ne_minus (h : IsRead radix n digits) (rest : Text) : digits ≠ '-' :: rest := by
  rintro rfl
  exact (h.digit '-' List.mem_cons_self).ne_sign.1 rfl

/-- A row of digits does not begin with a plus sign. -/
theorem IsRead.ne_plus (h : IsRead radix n digits) (rest : Text) : digits ≠ '+' :: rest := by
  rintro rfl
  exact (h.digit '+' List.mem_cons_self).ne_sign.2 rfl

/-- A text is that of one integer only. -/
theorem IsText.unique (hhigh : radix ≤ 36) {value other : Int} (h : IsText radix value text)
    (hother : IsText radix other text) : other = value := by
  obtain ⟨digits, hdigits, rfl⟩ := h
  obtain ⟨digits', hdigits', heq⟩ := hother
  have hread := hdigits.isRead hhigh
  have hread' := hdigits'.isRead hhigh
  by_cases hnegative : value < 0
  · rw [if_pos hnegative] at heq
    by_cases hnegative' : other < 0
    · rw [if_pos hnegative', List.cons_inj_right] at heq
      have habs : value.natAbs = other.natAbs := by rw [← hread.value, heq, hread'.value]
      omega
    · rw [if_neg hnegative'] at heq
      exact absurd heq.symm (hread'.ne_minus digits)
  · rw [if_neg hnegative] at heq
    by_cases hnegative' : other < 0
    · rw [if_pos hnegative'] at heq
      exact absurd heq (hread.ne_minus digits')
    · rw [if_neg hnegative'] at heq
      have habs : value.natAbs = other.natAbs := by rw [← hread.value, heq, hread'.value]
      omega

/-- Digits after a minus sign are read up to the magnitude of the lowest integer. -/
theorem parseSigned_minus (h : digits ≠ []) :
    parseSigned radix ('-' :: digits) =
      (magnitude radix (Word.size 63) .tooSmall 0 digits).map fun n : Nat => -(n : Int) := by
  cases digits with
  | nil => exact absurd rfl h
  | cons c digits =>
    rw [parseSigned]
    · cases magnitude radix (Word.size 63) .tooSmall 0 (c :: digits) <;> rfl
    · exact List.cons_ne_nil c digits

/-- Digits after a plus sign are read up to the largest integer. -/
theorem parseSigned_plus (h : digits ≠ []) :
    parseSigned radix ('+' :: digits) =
      (magnitude radix (Word.largest 63) .tooLarge 0 digits).map fun n : Nat => (n : Int) := by
  cases digits with
  | nil => exact absurd rfl h
  | cons c digits =>
    rw [parseSigned]
    · cases magnitude radix (Word.largest 63) .tooLarge 0 (c :: digits) <;> rfl
    · exact List.cons_ne_nil c digits

/-- A text that does not begin with a sign is read up to the largest integer. -/
theorem parseSigned_unsigned (hnil : text ≠ []) (hminus : ∀ rest, text ≠ '-' :: rest)
    (hplus : ∀ rest, text ≠ '+' :: rest) :
    parseSigned radix text =
      (magnitude radix (Word.largest 63) .tooLarge 0 text).map fun n : Nat => (n : Int) := by
  rw [parseSigned]
  · cases magnitude radix (Word.largest 63) .tooLarge 0 text <;> rfl
  · exact hnil
  · exact hminus []
  · exact hplus []
  · exact hminus
  · exact hplus

/-- The digits of the magnitude, after a minus sign if the integer is negative, are read as the
integer. -/
theorem parseSigned_of_isRead (hlow : 2 ≤ radix) {value : Int}
    (hvalue : Word.holdsSigned 64 value = true) (h : IsRead radix value.natAbs digits) :
    parseSigned radix (if value < 0 then '-' :: digits else digits) = .ok value := by
  have hradix : 0 < radix := by omega
  obtain ⟨hlowest, hlargest⟩ : -(Word.size 63 : Int) ≤ value ∧ value < Word.size 63 := by
    simpa [Word.holdsSigned] using hvalue
  by_cases hnegative : value < 0
  · have hlimit : value.natAbs ≤ Word.size 63 := by omega
    have hread : magnitude radix (Word.size 63) .tooSmall 0 digits = .ok value.natAbs :=
      (magnitude_eq_ok_iff hradix (Nat.zero_le _)).mpr ⟨h.digit, h.value, hlimit⟩
    have hsigned : -(value.natAbs : Int) = value := by omega
    rw [if_pos hnegative, parseSigned_minus h.ne_nil, hread]
    exact congrArg Except.ok hsigned
  · have hlimit : value.natAbs ≤ Word.largest 63 := by
      rw [Word.largest]
      omega
    have hread : magnitude radix (Word.largest 63) .tooLarge 0 digits = .ok value.natAbs :=
      (magnitude_eq_ok_iff hradix (Nat.zero_le _)).mpr ⟨h.digit, h.value, hlimit⟩
    have hsigned : (value.natAbs : Int) = value := by omega
    rw [if_neg hnegative, parseSigned_unsigned h.ne_nil h.ne_minus h.ne_plus, hread]
    exact congrArg Except.ok hsigned

/-- They are also read so between blanks. -/
theorem parse_of_isRead (hlow : 2 ≤ radix) (hhigh : radix ≤ 36) {value : Int}
    (hvalue : Word.holdsSigned 64 value = true) (h : IsRead radix value.natAbs digits)
    {before after : Text} (hbefore : ∀ c ∈ before, Text.isBlank c = true)
    (hafter : ∀ c ∈ after, Text.isBlank c = true) :
    parse (before ++ (if value < 0 then '-' :: digits else digits) ++ after) radix = .ok value := by
  have hradix : isRadix radix = true := by simp [isRadix, hlow, hhigh]
  have hdigits : ∀ c ∈ digits, Text.isBlank c = false := fun c hc => (h.digit c hc).isBlank_eq
  have htext : ∀ c ∈ if value < 0 then '-' :: digits else digits, Text.isBlank c = false := by
    split
    · exact List.forall_mem_cons.mpr ⟨by decide, hdigits⟩
    · exact hdigits
  rw [parse, if_pos hradix, Text.trim_append hbefore htext hafter,
    parseSigned_of_isRead hlow hvalue h]

/-- Every 64-bit integer has one text in every radix: its digits, small and with no zero in front,
after a minus sign if it is negative. It is read back from this text, also in capital letters and
between blanks, and no other integer has the same text. -/
theorem render_roundTrip (hlow : 2 ≤ radix) (hhigh : radix ≤ 36) {value : Int}
    (hvalue : Word.holdsSigned 64 value = true) :
    ∃ text, render value radix = .ok text ∧ IsText radix value text ∧
      (∀ before after, (∀ c ∈ before, Text.isBlank c = true) →
        (∀ c ∈ after, Text.isBlank c = true) →
          parse (before ++ text ++ after) radix = .ok value ∧
          parse (before ++ text.map Char.toUpper ++ after) radix = .ok value) ∧
      ∀ other, render other radix = .ok text ↔ other = value := by
  have hnumeral : IsNumeral radix value.natAbs (renderNat radix value.natAbs) :=
    (isNumeral_iff hlow hhigh).mpr rfl
  have htext : IsText radix value
      (if value < 0 then '-' :: renderNat radix value.natAbs else renderNat radix value.natAbs) :=
    ⟨_, hnumeral, rfl⟩
  refine ⟨_, (render_eq_ok_iff hlow hhigh).mpr htext, htext, ?_, ?_⟩
  · intro before after hbefore hafter
    have hupper : (if value < 0 then '-' :: renderNat radix value.natAbs
        else renderNat radix value.natAbs).map Char.toUpper =
        if value < 0 then '-' :: (renderNat radix value.natAbs).map Char.toUpper
          else (renderNat radix value.natAbs).map Char.toUpper := by
      split <;> rfl
    rw [hupper]
    exact ⟨parse_of_isRead hlow hhigh hvalue (hnumeral.isRead hhigh) hbefore hafter,
      parse_of_isRead hlow hhigh hvalue (hnumeral.isRead_map_toUpper hhigh) hbefore hafter⟩
  · intro other
    constructor
    · intro hother
      exact htext.unique hhigh ((render_eq_ok_iff hlow hhigh).mp hother)
    · rintro rfl
      exact (render_eq_ok_iff hlow hhigh).mpr htext

/-- The lowest integer is written and read in the largest radix. -/
theorem render_lowest :
    Word.holdsSigned 64 (-9223372036854775808) = true ∧
      render (-9223372036854775808) 36 = .ok "-1y2p0ij32e8e8" ∧
      parse "-1y2p0ij32e8e8" 36 = .ok (-9223372036854775808) ∧
      parse "\t-1Y2P0IJ32E8E8 \n" 36 = .ok (-9223372036854775808) := by
  have hvalue : Word.holdsSigned 64 (-9223372036854775808) = true := by decide
  have hnumeral : IsNumeral 36 9223372036854775808 "1y2p0ij32e8e8".toList := by
    refine ⟨by decide, ?_, by decide, by decide⟩
    have hrow : "1y2p0ij32e8e8".toList.all (digitRow.take 36).contains = true := by decide
    intro c hc
    exact List.contains_iff_mem.mp (List.all_eq_true.mp hrow c hc)
  have hlow : 2 ≤ 36 := by decide
  have hhigh : 36 ≤ 36 := Nat.le_refl 36
  have htext : render (-9223372036854775808) 36 = .ok "-1y2p0ij32e8e8".toList :=
    (render_eq_ok_iff hlow hhigh).mpr ⟨_, hnumeral, by decide⟩
  obtain ⟨text, hrender, -, hparse, -⟩ := render_roundTrip hlow hhigh hvalue
  obtain rfl : text = "-1y2p0ij32e8e8".toList := Except.ok.inj (hrender.symm.trans htext)
  have hplain := (hparse [] [] (by simp) (by simp)).1
  have htab : ∀ c ∈ ['\t'], Text.isBlank c = true := List.forall_mem_singleton.mpr (by decide)
  have hend : ∀ c ∈ [' ', '\n'], Text.isBlank c = true :=
    List.forall_mem_cons.mpr ⟨by decide, List.forall_mem_singleton.mpr (by decide)⟩
  have hcapital := (hparse ['\t'] [' ', '\n'] htab hend).2
  exact ⟨hvalue, htext, hplain, hcapital⟩

end HostKit.Radix
