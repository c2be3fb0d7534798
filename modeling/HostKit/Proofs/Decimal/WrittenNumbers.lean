import HostKit.Decimal.Numeral
import HostKit.Proofs.Decimal.ShortestDigits

/-!
# Numbers as they are written

A finite number is written as a row of digits with a point or a power of ten somewhere, and each of
the layouts stands for the digits and the power of ten that it is made from, with or without a zero
that a whole number gets after its point. So a number is read back from its text.
-/

namespace HostKit.Numeral

open Binary64 (IsNormal minExponent)
open Shortest (Interval Ratio)

/-! ## Digits -/

/-- The number that a row of digits stands for is that of the library. -/
theorem valueOf_eq (digits : Text) : valueOf digits = Nat.ofDigitChars 10 digits 0 := by
  unfold valueOf Nat.ofDigitChars
  congr 1
  funext n c
  rw [Nat.mul_comm]

/-- The digits of a number stand for it. -/
theorem valueOf_toDigits (n : ℕ) : valueOf (Nat.toDigits 10 n) = n := by
  rw [valueOf_eq, Nat.ofDigitChars_ten_toDigits]

/-- The number that a row of digits stands for, before and after a place in it. -/
theorem valueOf_append (digits later : Text) :
    valueOf (digits ++ later) = valueOf digits * 10 ^ later.length + valueOf later := by
  induction later using List.reverseRecOn with
  | nil => simp [valueOf]
  | append_singleton later c ih =>
    have hstep (front : Text) :
        valueOf (front ++ [c]) = valueOf front * 10 + (c.toNat - '0'.toNat) :=
      List.foldl_append
    rw [← List.append_assoc, hstep, hstep, ih, List.length_append, List.length_singleton]
    ring

/-- Zeros stand for nothing. -/
theorem valueOf_zeros (count : ℕ) : valueOf (List.replicate count '0') = 0 := by
  induction count with
  | zero => rfl
  | succ count ih =>
    rw [List.replicate_succ', valueOf_append, ih, Nat.zero_mul]
    rfl

/-- Zeros are digits. -/
theorem isDigit_of_mem_zeros (count : ℕ) : ∀ c ∈ List.replicate count '0', c.isDigit = true := by
  intro c hc
  rw [List.eq_of_mem_replicate hc]
  rfl

/-- The digits of a number are digits. -/
theorem isDigit_of_mem_toDigits {n : ℕ} : ∀ c ∈ Nat.toDigits 10 n, c.isDigit = true :=
  fun _ => Nat.isDigit_of_mem_toDigits (by norm_num) (by norm_num)

/-- All digits at the front are taken. -/
theorem takeDigits_append {digits rest : Text} (h : ∀ c ∈ digits, c.isDigit = true)
    (hrest : ∀ c ∈ rest.head?, c.isDigit = false) :
    takeDigits (digits ++ rest) = (digits, rest) := by
  unfold takeDigits
  rw [List.takeWhile_append_of_pos h, List.dropWhile_append_of_pos h]
  cases rest with
  | nil => simp
  | cons c rest =>
    have hc : c.isDigit = false := hrest c rfl
    simp [hc]

/-- Digits are no signs. -/
theorem ne_sign_of_isDigit {c : Char} (h : c.isDigit = true) : c ≠ '-' ∧ c ≠ '+' := by
  constructor
  · rintro rfl
    exact absurd h (by decide)
  · rintro rfl
    exact absurd h (by decide)

/-- The digits of a positive number have no zero in front. -/
theorem head?_toDigits_ne_zero {n : ℕ} (h : 0 < n) : (Nat.toDigits 10 n).head? ≠ some '0' := by
  induction n using Nat.strong_induction_on with
  | _ n ih =>
    rcases Nat.lt_or_ge n 10 with hlt | hge
    · rw [Nat.toDigits_of_lt_base hlt]
      have hdigit : ∀ k < 10, 0 < k → [Nat.digitChar k].head? ≠ some '0' := by decide
      exact hdigit n hlt h
    · rw [Nat.toDigits_of_base_le (by norm_num) hge,
        List.head?_append_of_ne_nil _ Nat.toDigits_ne_nil]
      exact ih (n / 10) (by omega) (by omega)

/-! ## Numerals in parts -/

/-- A numeral in parts: digits without a zero in front, digits after a point if there is one, and a
power of ten if there is one; a point or a power there is. -/
structure Parts where
  whole : Text
  fraction? : Option Text
  power? : Option ℤ
  whole_ne : whole ≠ []
  isDigit_whole : ∀ c ∈ whole, c.isDigit = true
  isDigit_fraction : ∀ c ∈ fraction?.getD [], c.isDigit = true
  unpadded : whole = ['0'] ∨ whole.head? ≠ some '0'
  marked : fraction?.isSome ∨ power?.isSome

/-- The numeral as a text. -/
def Parts.text (parts : Parts) : Text :=
  parts.whole ++ (parts.fraction?.elim [] fun fraction => '.' :: fraction) ++
    parts.power?.elim [] fun power => 'e' :: Text.ofInt power

/-- All digits of the numeral. -/
def Parts.digits (parts : Parts) : ℕ := valueOf (parts.whole ++ parts.fraction?.getD [])

/-- The power of ten that the digits of the numeral are multiplied by. -/
def Parts.power (parts : Parts) : ℤ := parts.power?.getD 0 - (parts.fraction?.getD []).length

/-- A negative power of ten is read back. -/
theorem readPower?_negative (n : ℕ) :
    readPower? ('e' :: '-' :: Nat.toDigits 10 n) = some (-(n : ℤ)) := by
  have hdigits : (Nat.toDigits 10 n).all Char.isDigit = true :=
    List.all_eq_true.mpr isDigit_of_mem_toDigits
  rw [readPower?, if_pos (.inl rfl), if_pos ⟨Nat.toDigits_ne_nil, hdigits⟩, if_pos rfl,
    valueOf_toDigits]

/-- A power of ten without a sign is read back. -/
theorem readPower?_unsigned (n : ℕ) : readPower? ('e' :: Nat.toDigits 10 n) = some (n : ℤ) := by
  have hdigits : (Nat.toDigits 10 n).all Char.isDigit = true :=
    List.all_eq_true.mpr isDigit_of_mem_toDigits
  have hsign (c : Char) (rest : Text) (heq : Nat.toDigits 10 n = c :: rest) : c ≠ '-' ∧ c ≠ '+' :=
    ne_sign_of_isDigit (isDigit_of_mem_toDigits c (heq ▸ List.mem_cons_self))
  rw [readPower?, if_pos (.inl rfl)]
  · rw [if_pos ⟨Nat.toDigits_ne_nil, hdigits⟩, if_neg Bool.false_ne_true, valueOf_toDigits]
  · exact fun rest heq => (hsign _ _ heq).1 rfl
  · exact fun rest heq => (hsign _ _ heq).2 rfl

/-- The power of ten is read back. -/
theorem readPower?_elim (power? : Option ℤ) :
    readPower? (power?.elim [] fun power => 'e' :: Text.ofInt power) = some (power?.getD 0) := by
  cases power? with
  | none => rfl
  | some power =>
    rw [Option.elim_some, Option.getD_some, Text.ofInt, Text.ofNat]
    split
    · rw [readPower?_negative]
      congr 1
      omega
    · rw [readPower?_unsigned]
      congr 1
      omega

/-- A numeral stands for its digits and the power of ten that its point and its exponent make. -/
theorem readUnsigned?_text (negative : Bool) (parts : Parts) :
    readUnsigned? negative parts.text = some (.ofDecimal negative parts.digits parts.power) := by
  obtain ⟨whole, fraction?, power?, hne, hwhole, hfraction, -, -⟩ := parts
  have hpower := readPower?_elim power?
  have hhead : ∀ c ∈ (power?.elim ([] : Text) fun power => 'e' :: Text.ofInt power).head?,
      c.isDigit = false ∧ c ≠ '.' := by
    intro c hc
    cases power? with
    | none => cases hc
    | some power =>
      obtain rfl : 'e' = c := Option.some.inj hc
      decide
  unfold readUnsigned? Parts.text Parts.digits Parts.power
  dsimp only
  rw [List.append_assoc]
  generalize (power?.elim ([] : Text) fun power => 'e' :: Text.ofInt power) =
    after at hpower hhead ⊢
  cases fraction? with
  | none =>
    have htake := takeDigits_append hwhole fun c hc => (hhead c hc).1
    rw [Option.elim_none, List.nil_append, htake]
    dsimp only
    split
    · next heq => exact absurd rfl (hhead _ rfl).2
    · simp only [hne, false_and, if_false, hpower, Option.map_some, Option.getD_none,
        List.append_nil]
  | some fraction =>
    have hpoint : ∀ c ∈ ('.' :: fraction ++ after).head?, c.isDigit = false := by
      intro c hc
      obtain rfl : '.' = c := Option.some.inj hc
      decide
    have htake := takeDigits_append hwhole hpoint
    have htake' := takeDigits_append hfraction fun c hc => (hhead c hc).1
    rw [Option.elim_some, htake]
    dsimp only [List.cons_append, Option.getD_some] at htake' ⊢
    simp only [htake', hne, false_and, if_false, hpower, Option.map_some]

/-- The numeral starts with a digit. -/
theorem Parts.exists_cons (parts : Parts) :
    ∃ c rest, parts.text = c :: rest ∧ c.isDigit = true := by
  obtain ⟨c, rest, hwhole⟩ := List.exists_cons_of_ne_nil parts.whole_ne
  have hc := parts.isDigit_whole c (hwhole ▸ List.mem_cons_self)
  rw [Parts.text, hwhole, List.append_assoc, List.cons_append]
  exact ⟨c, _, rfl, hc⟩

/-- A numeral with its sign stands for the number with the sign. -/
theorem read?_sign_text (negative : Bool) (parts : Parts) :
    read? (sign negative ++ parts.text) =
      some (.ofDecimal negative parts.digits parts.power) := by
  cases negative with
  | true => exact readUnsigned?_text true parts
  | false =>
    obtain ⟨c, rest, htext, hc⟩ := parts.exists_cons
    obtain ⟨hminus, hplus⟩ := ne_sign_of_isDigit hc
    have hread := readUnsigned?_text false parts
    rw [htext] at hread ⊢
    change read? (c :: rest) = _
    rw [read?, hread]
    · exact fun _ heq => hminus (List.cons.inj heq).1
    · exact fun _ heq => hplus (List.cons.inj heq).1

/-! ## Layouts -/

/-- A row of digits without a zero in front. -/
structure IsRow (digits : Text) : Prop where
  ne : digits ≠ []
  isDigit : ∀ c ∈ digits, c.isDigit = true
  unpadded : digits.head? ≠ some '0'

/-- Digits after a point, and zeros that stand for nothing between the point and them. -/
theorem exists_parts_small {digits : Text} (h : IsRow digits) {point : ℤ} (hsmall : point ≤ 0) :
    ∃ parts : Parts, parts.text = "0.".toList ++ List.replicate (-point).toNat '0' ++ digits ∧
      (Ratio.ofDecimal parts.digits parts.power).value =
        (Ratio.ofDecimal (valueOf digits) (point - digits.length)).value := by
  refine ⟨⟨['0'], some (List.replicate (-point).toNat '0' ++ digits), none, by simp,
    isDigit_of_mem_zeros 1, ?_, .inl rfl, .inl (by simp)⟩, by simp [Parts.text], ?_⟩
  · simp only [Option.getD_some, List.mem_append]
    rintro c (hc | hc)
    · exact isDigit_of_mem_zeros _ c hc
    · exact h.isDigit c hc
  · congr 2
    · simp only [Parts.digits, Option.getD_some, ← List.append_assoc, valueOf_append _ digits,
        valueOf_append ['0'], valueOf_zeros]
      simp [valueOf]
    · simp only [Parts.power, Option.getD_some, Option.getD_none, List.length_append,
        List.length_replicate]
      omega

/-- Digits before a point, and zeros that are a power of ten between them and the point. -/
theorem exists_parts_large {digits : Text} (h : IsRow digits) {point : ℤ}
    (hfits : digits.length ≤ point.toNat) (hpoint : 0 < point) :
    ∃ parts : Parts, parts.text =
        digits ++ List.replicate (point.toNat - digits.length) '0' ++ ".0".toList ∧
      (Ratio.ofDecimal parts.digits parts.power).value =
        (Ratio.ofDecimal (valueOf digits) (point - digits.length)).value := by
  refine ⟨⟨digits ++ List.replicate (point.toNat - digits.length) '0', some ['0'], none, ?_, ?_,
    isDigit_of_mem_zeros 1, .inr ?_, .inl (by simp)⟩, by simp [Parts.text], ?_⟩
  · exact List.append_ne_nil_of_left_ne_nil h.ne _
  · simp only [List.mem_append]
    rintro c (hc | hc)
    · exact h.isDigit c hc
    · exact isDigit_of_mem_zeros _ c hc
  · rw [List.head?_append_of_ne_nil _ h.ne]
    exact h.unpadded
  · have hdigits :
        valueOf ((digits ++ List.replicate (point.toNat - digits.length) '0') ++ ['0']) =
          valueOf digits * 10 ^ (point.toNat - digits.length + 1) := by
      rw [List.append_assoc, ← List.replicate_succ', valueOf_append, valueOf_zeros,
        List.length_replicate, Nat.add_zero]
    rw [Ratio.value_ofDecimal, Ratio.value_ofDecimal, Parts.digits, Option.getD_some, hdigits,
      Nat.cast_mul, mul_assoc, Nat.cast_pow, Nat.cast_ofNat, ← zpow_natCast,
      ← zpow_add₀ (by norm_num)]
    congr 2
    simp only [Parts.power, Option.getD_some, Option.getD_none, List.length_singleton]
    omega

/-- Digits with a point between them. -/
theorem exists_parts_between {digits : Text} (h : IsRow digits) {point : ℤ} (hpoint : 0 < point)
    (hfits : ¬digits.length ≤ point.toNat) :
    ∃ parts : Parts, parts.text = digits.take point.toNat ++ ['.'] ++ digits.drop point.toNat ∧
      (Ratio.ofDecimal parts.digits parts.power).value =
        (Ratio.ofDecimal (valueOf digits) (point - digits.length)).value := by
  refine ⟨⟨digits.take point.toNat, some (digits.drop point.toNat), none, ?_, ?_, ?_, .inr ?_,
    .inl (by simp)⟩, by simp [Parts.text], ?_⟩
  · rw [Ne, List.take_eq_nil_iff]
    rintro (hzero | hnil)
    · omega
    · exact h.ne hnil
  · exact fun c hc => h.isDigit c (List.mem_of_mem_take hc)
  · exact fun c hc => h.isDigit c (List.mem_of_mem_drop hc)
  · rw [List.head?_take, if_neg (by omega)]
    exact h.unpadded
  · congr 2
    · exact congrArg valueOf (List.take_append_drop _ _)
    · simp only [Parts.power, Option.getD_some, Option.getD_none, List.length_drop]
      omega

/-- The digits around a point that stands somewhere before, in or after them. -/
theorem exists_parts_positional {digits : Text} (h : IsRow digits) (point : ℤ) :
    ∃ parts : Parts, parts.text = positional digits point ∧
      (Ratio.ofDecimal parts.digits parts.power).value =
        (Ratio.ofDecimal (valueOf digits) (point - digits.length)).value := by
  unfold positional
  split
  · next hsmall => exact exists_parts_small h hsmall
  split
  · next hlarge hfits => exact exists_parts_large h hfits (not_le.mp hlarge)
  · next hlarge hfits => exact exists_parts_between h (not_le.mp hlarge) hfits

/-- The digits with a power of ten. -/
theorem exists_parts_scientific {digits : Text} (h : IsRow digits) (point : ℤ) :
    ∃ parts : Parts, parts.text = scientific digits point ∧
      (Ratio.ofDecimal parts.digits parts.power).value =
        (Ratio.ofDecimal (valueOf digits) (point - digits.length)).value := by
  obtain ⟨hne, hdigits, hunpadded⟩ := h
  match digits, hne with
  | [first], _ =>
    refine ⟨⟨[first], none, some (point - 1), by simp, hdigits, by simp, .inr hunpadded, .inr rfl⟩,
      by simp [Parts.text, scientific], ?_⟩
    congr 2
    simp [Parts.power]
  | first :: second :: rest, _ =>
    refine ⟨⟨[first], some (second :: rest), some (point - 1), by simp, ?_, ?_, .inr hunpadded,
      .inr rfl⟩, by simp [Parts.text, scientific], ?_⟩
    · exact fun c hc => hdigits c (by simp_all)
    · exact fun c hc => hdigits c (List.mem_cons_of_mem _ hc)
    · congr 2
      simp only [Parts.power, Option.getD_some, List.length_cons]
      omega

/-- A positive number is written as a numeral that lies in its interval. -/
theorem exists_parts_compact (negative : Bool) {significand : ℕ} {exponent : ℤ}
    (hnormal : IsNormal significand exponent) (hpos : 0 < significand) :
    ∃ parts : Parts, compact negative significand exponent = sign negative ++ parts.text ∧
      (Interval.of significand exponent).contains (.ofDecimal parts.digits parts.power) = true := by
  have hcontains := Shortest.contains_decimal hnormal hpos
  unfold compact layOut
  rw [if_neg hpos.ne']
  dsimp only
  generalize (Shortest.decimal significand exponent).1 = digits at hcontains ⊢
  generalize (Shortest.decimal significand exponent).2 = power at hcontains ⊢
  have hdigits : 0 < digits :=
    Nat.pos_of_mul_pos_right
      (Shortest.num_pos_of_contains hpos (Ratio.den_ofDecimal_pos _ _) hcontains)
  have hrow : IsRow (Nat.toDigits 10 digits) :=
    ⟨Nat.toDigits_ne_nil, isDigit_of_mem_toDigits, head?_toDigits_ne_zero hdigits⟩
  have hlayout (point : ℤ) : ∃ parts : Parts,
      parts.text = compactLayout (Nat.toDigits 10 digits) point ∧
      (Ratio.ofDecimal parts.digits parts.power).value =
        (Ratio.ofDecimal (valueOf (Nat.toDigits 10 digits))
          (point - (Nat.toDigits 10 digits).length)).value := by
    unfold compactLayout
    split
    · exact exists_parts_positional hrow point
    · exact exists_parts_scientific hrow point
  obtain ⟨parts, htext, hvalue⟩ := hlayout (power + (Nat.toDigits 10 digits).length)
  rw [valueOf_toDigits, add_sub_cancel_right] at hvalue
  refine ⟨parts, by rw [htext], ?_⟩
  rw [Shortest.contains_congr hpos (Ratio.den_ofDecimal_pos _ _)
    (Ratio.den_ofDecimal_pos _ _) hvalue]
  exact hcontains

/-- The numeral of zero. -/
def Parts.zero : Parts :=
  ⟨['0'], some ['0'], none, by simp, isDigit_of_mem_zeros 1, isDigit_of_mem_zeros 1, .inl rfl,
    .inl (by simp)⟩

/-- A number in the form that it has only once is written as a numeral that stands for it. -/
theorem compact_eq (negative : Bool) {significand : ℕ} {exponent : ℤ}
    (hnormal : IsNormal significand exponent) :
    ∃ parts : Parts, compact negative significand exponent = sign negative ++ parts.text ∧
      Binary64.ofDecimal negative parts.digits parts.power =
        .finite negative significand exponent := by
  rcases Nat.eq_zero_or_pos significand with rfl | hpos
  · have hexponent : exponent = minExponent := hnormal.full.resolve_left (by norm_num)
    refine ⟨.zero, rfl, ?_⟩
    rw [hexponent]
    rfl
  · obtain ⟨parts, htext, hcontains⟩ := exists_parts_compact negative hnormal hpos
    exact ⟨parts, htext, Shortest.ofDecimal_of_contains negative hnormal hpos hcontains⟩

/-- A number in the form that it has only once is read back from its text. -/
theorem read?_compact (negative : Bool) {significand : ℕ} {exponent : ℤ}
    (hnormal : IsNormal significand exponent) :
    read? (compact negative significand exponent) =
        some (.finite negative significand exponent) := by
  obtain ⟨parts, htext, hvalue⟩ := compact_eq negative hnormal
  rw [htext, read?_sign_text, hvalue]

/-- What a numeral stands for is in the form that a number has only once. -/
theorem isCanonical_of_read? {text : Text} {x : Binary64} (h : read? text = some x) :
    x.IsCanonical := by
  have hrounded {negative : Bool} {whole fraction rest : Text}
      (h : (if whole = [] ∧ fraction = [] then none
        else (readPower? rest).map fun power => Binary64.ofDecimal negative
          (valueOf (whole ++ fraction)) (power - fraction.length)) = some x) : x.IsCanonical := by
    split at h
    · cases h
    · obtain ⟨power, -, rfl⟩ := Option.map_eq_some_iff.mp h
      exact Binary64.isCanonical_ofDecimal _ _ _
  have hunsigned {negative : Bool} {text : Text} (h : readUnsigned? negative text = some x) :
      x.IsCanonical := by
    unfold readUnsigned? at h
    dsimp only at h
    split at h
    · exact hrounded h
    · exact hrounded h
  unfold read? at h
  split at h
  · exact hunsigned h
  · exact hunsigned h
  · exact hunsigned h

end HostKit.Numeral
