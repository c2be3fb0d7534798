import HostKit.Proofs.Decimal.WrittenNumbers
import HostKit.Yaml.Print

/-!
# Scalars as they are written and read

A plain scalar is read as the first kind of value that it fits: a word, an integer, a float, and
else a string. Integers and floats are written so that they fit no kind before their own: the first
character is that of no word, and a float has a point or a power of ten, which no integer has. A
string is written plainly only if it fits no other kind. What a plain scalar is read as is a scalar
again, an integer of at most 64 bits and a float in the form that a number has only once.
-/

namespace HostKit.Yaml

open Numeral (Parts)

/-! ## Digits -/

/-- A digit has its value in every radix. -/
theorem digitValue?_of_isDigit {c : Char} (h : c.isDigit = true) :
    Text.digitValue? c = some (c.toNat - '0'.toNat) ∧ c.toNat - '0'.toNat < 10 := by
  rw [Char.isDigit, Bool.and_eq_true, decide_eq_true_iff, decide_eq_true_iff] at h
  have hlow : 48 ≤ c.toNat := h.1
  have hhigh : c.toNat ≤ 57 := h.2
  refine ⟨if_pos h, ?_⟩
  change c.toNat - 48 < 10
  omega

/-- A row of decimal digits stands for its value. -/
theorem numberIn?_of_isDigit {digits : Text} (hne : digits ≠ [])
    (h : ∀ c ∈ digits, c.isDigit = true) : numberIn? 10 digits = some (Numeral.valueOf digits) := by
  rw [numberIn?, if_neg hne, Numeral.valueOf]
  generalize 0 = start
  clear hne
  induction digits generalizing start with
  | nil => rfl
  | cons c rest ih =>
    obtain ⟨hvalue, hlt⟩ := digitValue?_of_isDigit (h c List.mem_cons_self)
    rw [List.foldlM_cons, hvalue]
    simp only [if_pos hlt]
    exact ih (fun d hd => h d (List.mem_cons_of_mem _ hd)) _

/-- A row with another character is no number. -/
theorem numberIn?_eq_none {digits : Text} {c : Char} (hc : c ∈ digits)
    (h : ∀ value, Text.digitValue? c = some value → 10 ≤ value) : numberIn? 10 digits = none := by
  have hne : digits ≠ [] := List.ne_nil_of_mem hc
  rw [numberIn?, if_neg hne]
  generalize 0 = start
  clear hne
  induction digits generalizing start with
  | nil => exact absurd hc List.not_mem_nil
  | cons d rest ih =>
    rw [List.foldlM_cons]
    rcases List.mem_cons.mp hc with rfl | hrest
    · cases hvalue : Text.digitValue? c with
      | none => rfl
      | some value =>
        have hge := h value hvalue
        simp only [if_neg (not_lt.mpr hge)]
        rfl
    · cases Text.digitValue? d with
      | none => rfl
      | some value =>
        dsimp only
        split
        · exact ih hrest _
        · rfl

/-- A text whose second character is no letter has no mark of a radix. -/
theorem markedNumber?_eq_none {text : Text} (h : ∀ c d rest, text = c :: d :: rest →
    d ≠ 'x' ∧ d ≠ 'o' ∧ d ≠ 'b') : markedNumber? text = none := by
  unfold markedNumber?
  split
  · exact absurd rfl (h _ _ _ rfl).1
  · exact absurd rfl (h _ _ _ rfl).2.1
  · exact absurd rfl (h _ _ _ rfl).2.2
  · rfl

/-- Decimal digits are no letters. -/
theorem ne_letter_of_isDigit {c : Char} (h : c.isDigit = true) : c ≠ 'x' ∧ c ≠ 'o' ∧ c ≠ 'b' := by
  refine ⟨?_, ?_, ?_⟩ <;>
  · rintro rfl
    exact absurd h (by decide)

/-! ## Integers -/

/-- The digits of a number stand for it. -/
theorem unsigned?_toDigits (n : ℕ) : unsigned? (Nat.toDigits 10 n) = some n := by
  have hdigit : ∀ c ∈ Nat.toDigits 10 n, c.isDigit = true := Numeral.isDigit_of_mem_toDigits
  have hmarked : markedNumber? (Nat.toDigits 10 n) = none := by
    apply markedNumber?_eq_none
    intro c d rest heq
    exact ne_letter_of_isDigit (hdigit d (heq ▸ by simp))
  have hpadded : isZeroPadded (Nat.toDigits 10 n) = false := by
    rcases Nat.eq_zero_or_pos n with rfl | hpos
    · rfl
    · obtain ⟨c, rest, heq⟩ := List.exists_cons_of_ne_nil (Nat.toDigits_ne_nil (b := 10) (n := n))
      have hhead := Numeral.head?_toDigits_ne_zero hpos
      obtain ⟨hminus, hplus⟩ := Numeral.ne_sign_of_isDigit (hdigit c (heq ▸ List.mem_cons_self))
      rw [heq, List.head?_cons, Ne, Option.some.injEq] at hhead
      rw [isZeroPadded, heq, dropSign]
      · split
        · next heq => exact absurd (List.cons.inj heq).1 hhead
        · rfl
      · exact fun _ heq => hplus (List.cons.inj heq).1
      · exact fun _ heq => hminus (List.cons.inj heq).1
  rw [unsigned?, hmarked, hpadded]
  exact (numberIn?_of_isDigit Nat.toDigits_ne_nil hdigit).trans
    (congrArg some (Numeral.valueOf_toDigits n))

/-- An integer is read back from its text. -/
theorem integer?_ofInt (n : ℤ) : integer? (Text.ofInt n) = some n := by
  have hread := unsigned?_toDigits n.natAbs
  rw [Text.ofInt, Text.ofNat]
  split
  · rw [integer?, hread]
    change some (-(n.natAbs : ℤ)) = some n
    congr 1
    omega
  · obtain ⟨c, rest, heq⟩ :=
      List.exists_cons_of_ne_nil (Nat.toDigits_ne_nil (b := 10) (n := n.natAbs))
    have hdigit : c.isDigit = true :=
      Numeral.isDigit_of_mem_toDigits c (heq ▸ List.mem_cons_self)
    obtain ⟨hminus, hplus⟩ := Numeral.ne_sign_of_isDigit hdigit
    rw [heq] at hread ⊢
    rw [integer?, hread]
    · change some (n.natAbs : ℤ) = some n
      congr 1
      omega
    · exact fun _ heq => hminus (List.cons.inj heq).1
    · exact fun _ heq => hplus (List.cons.inj heq).1

/-! ## Words -/

/-- The characters that the words for nothing and for truth values start with. -/
def wordStarts : List Char := ['n', 'N', '~', 't', 'T', 'f', 'F']

/-- A text that starts like no word is none. -/
theorem not_word {c : Char} {rest : Text} (h : c ∉ wordStarts) :
    isNull (c :: rest) = false ∧ bool? (c :: rest) = none := by
  have hne (words : List Text) (hwords : ∀ word ∈ words, ∃ d ∈ wordStarts, word.head? = some d) :
      Text.isOneOf (c :: rest) words = false := by
    rw [Text.isOneOf, List.any_eq_false]
    intro word hword heq
    obtain ⟨d, hd, hhead⟩ := hwords word hword
    rw [← of_decide_eq_true heq] at hhead
    exact h ((Option.some.inj hhead) ▸ hd)
  constructor
  · exact hne _ (by simp [wordStarts])
  · rw [bool?, hne _ (by simp [wordStarts]), hne _ (by simp [wordStarts])]
    rfl

/-- A text that starts like no word is read as a number if it is one, and else as a string. -/
theorem resolve_of_not_word {c : Char} {rest : Text} (h : c ∉ wordStarts) :
    resolve (c :: rest) =
      match integerValue? (c :: rest) with
      | some result => result
      | none =>
        if isZeroPadded (c :: rest) then .ok (.string (c :: rest))
        else
          match float? (c :: rest) with
          | some x => .ok (.float x)
          | none => .ok (.string (c :: rest)) := by
  obtain ⟨hnull, hbool⟩ := @not_word c rest h
  have hnot : ¬(c :: rest = [] ∨ isNull (c :: rest) = true) := by
    rw [hnull]
    simp
  rewrite [resolve, if_neg hnot, hbool]
  rfl

/-- Digits and signs start no word. -/
theorem not_mem_wordStarts {c : Char} (h : c.isDigit = true ∨ c = '-') : c ∉ wordStarts := by
  have hwords : ∀ d ∈ wordStarts, d.isDigit = false ∧ d ≠ '-' := by
    simp [wordStarts, Char.isDigit]
  intro hc
  obtain ⟨hdigit, hminus⟩ := hwords c hc
  rcases h with hc | hc
  · exact Bool.false_ne_true (hdigit.symm.trans hc)
  · exact hminus hc

/-- An integer that fits is read back. -/
theorem resolve_ofInt {n : ℤ} (h : Magnitude.of n = .fits) :
    resolve (Text.ofInt n) = .ok (.int n) := by
  obtain ⟨c, rest, heq, hc⟩ : ∃ c rest, Text.ofInt n = c :: rest ∧ c ∉ wordStarts := by
    rw [Text.ofInt, Text.ofNat]
    split
    · exact ⟨_, _, rfl, by decide⟩
    · obtain ⟨c, rest, heq⟩ :=
        List.exists_cons_of_ne_nil (Nat.toDigits_ne_nil (b := 10) (n := n.natAbs))
      have hdigit : c.isDigit = true :=
        Numeral.isDigit_of_mem_toDigits c (heq ▸ List.mem_cons_self)
      exact ⟨c, rest, heq, not_mem_wordStarts (.inl hdigit)⟩
  have hinteger : integerValue? (Text.ofInt n) = some (.ok (.int n)) := by
    rw [integerValue?, integer?_ofInt]
    simp only [h]
  rw [heq] at hinteger ⊢
  rw [resolve_of_not_word hc, hinteger]

/-! ## Floats -/

variable (parts : Parts)

/-- The mark of a numeral: a point or the letter before a power of ten. -/
theorem Parts.exists_mark : ∃ mark rest, parts.text = parts.whole ++ mark :: rest ∧
    (mark = '.' ∨ mark = 'e') := by
  obtain ⟨whole, fraction?, power?, -, -, -, -, hmarked⟩ := parts
  unfold Parts.text
  cases fraction? with
  | some fraction => exact ⟨'.', _, List.append_assoc _ _ _, .inl rfl⟩
  | none =>
    cases power? with
    | some power => exact ⟨'e', _, List.append_assoc _ _ _, .inr rfl⟩
    | none => simp at hmarked

/-- A numeral is no integer. -/
theorem unsigned?_text : unsigned? parts.text = none := by
  obtain ⟨mark, rest, htext, hmark⟩ := Parts.exists_mark parts
  have hvalue : ∀ value, Text.digitValue? mark = some value → 10 ≤ value := by
    rcases hmark with rfl | rfl
    · intro value h
      have hnone : Text.digitValue? '.' = none := rfl
      cases hnone.symm.trans h
    · intro value h
      obtain rfl : 14 = value := Option.some.inj h
      decide
  have hmarked : markedNumber? parts.text = none := by
    apply markedNumber?_eq_none
    intro c d later heq
    obtain ⟨first, others, hwhole⟩ := List.exists_cons_of_ne_nil parts.whole_ne
    rw [htext, hwhole, List.cons_append, List.cons.injEq] at heq
    cases others with
    | nil =>
      obtain rfl : mark = d := (List.cons.inj heq.2).1
      rcases hmark with rfl | rfl <;> decide
    | cons second others =>
      obtain rfl : second = d := (List.cons.inj heq.2).1
      exact ne_letter_of_isDigit (parts.isDigit_whole second (hwhole ▸ by simp))
  rw [unsigned?, hmarked]
  dsimp only
  split
  · rfl
  · exact numberIn?_eq_none (htext ▸ List.mem_append_right _ List.mem_cons_self) hvalue

/-- A numeral is no row of digits with a zero in front. -/
theorem isZeroPadded_text (negative : Bool) :
    isZeroPadded (Numeral.sign negative ++ parts.text) = false := by
  obtain ⟨first, others, hwhole⟩ := List.exists_cons_of_ne_nil parts.whole_ne
  obtain ⟨mark, rest, htext, hmark⟩ := Parts.exists_mark parts
  have hdigit := parts.isDigit_whole first (hwhole ▸ List.mem_cons_self)
  obtain ⟨hminus, hplus⟩ := Numeral.ne_sign_of_isDigit hdigit
  rw [hwhole, List.cons_append] at htext
  have hsign : dropSign (Numeral.sign negative ++ parts.text) =
      first :: (others ++ mark :: rest) := by
    cases negative with
    | true =>
      rw [htext]
      rfl
    | false =>
      rw [htext]
      change dropSign (first :: _) = _
      rw [dropSign]
      · exact fun _ heq => hplus (List.cons.inj heq).1
      · exact fun _ heq => hminus (List.cons.inj heq).1
  have hnotDigit : mark.isDigit = false := by rcases hmark with rfl | rfl <;> rfl
  rw [isZeroPadded, hsign]
  split
  · next c later heq =>
    rw [← (List.cons.inj heq).2, List.all_eq_false]
    exact ⟨mark, by simp, by simp [hnotDigit]⟩
  · rfl

/-- A numeral with its sign is no integer. -/
theorem integer?_sign_text (negative : Bool) :
    integer? (Numeral.sign negative ++ parts.text) = none := by
  have hnone := unsigned?_text parts
  cases negative with
  | true =>
    change integer? ('-' :: parts.text) = none
    rw [integer?, hnone]
    rfl
  | false =>
    obtain ⟨c, rest, htext, hc⟩ := parts.exists_cons
    obtain ⟨hminus, hplus⟩ := Numeral.ne_sign_of_isDigit hc
    change integer? parts.text = none
    rw [htext] at hnone ⊢
    rw [integer?, hnone]
    · rfl
    · exact fun _ heq => hminus (List.cons.inj heq).1
    · exact fun _ heq => hplus (List.cons.inj heq).1

/-- A text that starts with a digit is no word for a number. -/
theorem isOneOf_eq_false {c : Char} {rest : Text} (h : c.isDigit = true) {words : List Text}
    (hwords : ∀ word ∈ words, word.head? = some '.') : Text.isOneOf (c :: rest) words = false := by
  rw [Text.isOneOf, List.any_eq_false]
  intro word hword heq
  have hhead := hwords word hword
  rw [← of_decide_eq_true heq, List.head?_cons, Option.some.injEq] at hhead
  rw [hhead] at h
  exact absurd h (by decide)

/-- A numeral with its sign is read as a number. -/
theorem float?_sign_text (negative : Bool) :
    float? (Numeral.sign negative ++ parts.text) =
      finite? (Numeral.sign negative ++ parts.text) := by
  obtain ⟨c, rest, htext, hc⟩ := parts.exists_cons
  obtain ⟨hminus, hplus⟩ := Numeral.ne_sign_of_isDigit hc
  rw [htext]
  cases negative with
  | true =>
    change float? ('-' :: c :: rest) = finite? ('-' :: c :: rest)
    have hinfinite : Text.isOneOf (c :: rest)
        [".inf".toList, ".Inf".toList, ".INF".toList] = false :=
      isOneOf_eq_false hc (by simp)
    unfold float?
    simp only [hinfinite]
    rfl
  | false =>
    change float? (c :: rest) = finite? (c :: rest)
    have hnan : Text.isOneOf (c :: rest) [".nan".toList, ".NaN".toList, ".NAN".toList] = false :=
      isOneOf_eq_false hc (by simp)
    have hinfinite : Text.isOneOf (c :: rest)
        [".inf".toList, ".Inf".toList, ".INF".toList] = false :=
      isOneOf_eq_false hc (by simp)
    unfold float?
    simp only [hnan, hinfinite, Bool.false_eq_true, if_false]
    split
    · next heq => exact absurd (List.cons.inj heq).1 hplus
    · next heq => exact absurd (List.cons.inj heq).1 hplus
    · next heq => exact absurd (List.cons.inj heq).1 hplus
    · next heq => exact absurd (List.cons.inj heq).1 hminus
    · rfl

/-- A float in the form that a number has only once is read back. -/
theorem resolve_printFloat {x : Binary64} (h : x.IsCanonical) :
    resolve (printFloat x) = .ok (.float x) := by
  match x, h with
  | .nan, _ => rfl
  | .infinite true, _ => rfl
  | .infinite false, _ => rfl
  | .finite negative significand exponent, hnormal =>
    obtain ⟨parts, htext, -⟩ := Numeral.compact_eq negative hnormal
    have hread := Numeral.read?_compact negative hnormal
    have hinteger := integer?_sign_text parts negative
    have hpadded := isZeroPadded_text parts negative
    have hfloat := float?_sign_text parts negative
    rw [← htext] at hinteger hpadded hfloat
    obtain ⟨c, rest, hcons, hc⟩ : ∃ c rest,
        Numeral.compact negative significand exponent = c :: rest ∧ c ∉ wordStarts := by
      cases negative with
      | true => exact ⟨_, _, htext, by simp [wordStarts]⟩
      | false =>
        obtain ⟨c, rest, hcons, hdigit⟩ := parts.exists_cons
        exact ⟨c, rest, htext.trans hcons, not_mem_wordStarts (.inl hdigit)⟩
    rw [printFloat]
    rw [hcons] at hread hinteger hpadded hfloat ⊢
    rw [resolve_of_not_word hc, integerValue?, hinteger, hpadded, hfloat, finite?, hread]
    rfl

/-! ## What scalars are read as -/

/-- A scalar as it can be read: an integer has at most 64 bits, and a float is in the form that a
number has only once. -/
inductive Value.IsScalar : Value → Prop
  | null : IsScalar .null
  | bool (b : Bool) : IsScalar (.bool b)
  | int {n : ℤ} (fits : Magnitude.of n = .fits) : IsScalar (.int n)
  | float {x : Binary64} (canonical : x.IsCanonical) : IsScalar (.float x)
  | string (text : Text) : IsScalar (.string text)

/-- A number as it is read is in the form that it has only once. -/
theorem isCanonical_of_float? {text : Text} {x : Binary64} (h : float? text = some x) :
    x.IsCanonical := by
  have hfinite {text : Text} (h : finite? text = some x) : x.IsCanonical := by
    unfold finite? at h
    split at h
    · next y hread =>
      split at h
      · obtain rfl := Option.some.inj h
        exact Numeral.isCanonical_of_read? hread
      · cases h
    · cases h
  have hword {words : List Text} {text number : Text} {negative : Bool}
      (h : (if Text.isOneOf text words = true then some (.infinite negative) else finite? number) =
        some x) : x.IsCanonical := by
    split at h
    · obtain rfl := Option.some.inj h
      trivial
    · exact hfinite h
  unfold float? at h
  dsimp only at h
  split at h
  · obtain rfl := Option.some.inj h
    trivial
  split at h
  · cases h
  · cases h
  · exact hword h
  · exact hword h
  · exact hword h

/-- An integer as it is read fits. -/
theorem isScalar_of_integerValue? {text : Text} {result : Except Error Value} {value : Value}
    (h : integerValue? text = some result) (hresult : result = .ok value) : value.IsScalar := by
  unfold integerValue? at h
  split at h
  · cases h
  · next n _ =>
    split at h
    · next hfits =>
      obtain rfl := Option.some.inj h
      obtain rfl := Except.ok.inj hresult
      exact .int hfits
    · obtain rfl := Option.some.inj h
      cases hresult
    · cases h

/-- A plain scalar is read as a scalar. -/
theorem isScalar_of_resolve {text : Text} {value : Value} (h : resolve text = .ok value) :
    value.IsScalar := by
  unfold resolve at h
  split at h
  · obtain rfl := Except.ok.inj h
    exact .null
  split at h
  · next b _ =>
    obtain rfl := Except.ok.inj h
    exact .bool b
  split at h
  · next result hresult => exact isScalar_of_integerValue? hresult h
  split at h
  · obtain rfl := Except.ok.inj h
    exact .string text
  split at h
  · next x hfloat =>
    obtain rfl := Except.ok.inj h
    exact .float (isCanonical_of_float? hfloat)
  · obtain rfl := Except.ok.inj h
    exact .string text

/-- A plain scalar that is read as a string is read as itself. -/
theorem resolve_of_isPlainString {text : Text} (h : isPlainString text = true) :
    resolve text = .ok (.string text) := by
  rw [isPlainString, Bool.and_eq_true] at h
  obtain ⟨-, h⟩ := h
  have hself {other : Text} (h : resolve text = .ok (.string other)) : text = other := by
    unfold resolve at h
    split at h
    · cases h
    split at h
    · cases h
    split at h
    · next result hresult =>
      have hscalar := isScalar_of_integerValue? hresult h
      unfold integerValue? at hresult
      split at hresult
      · cases hresult
      · split at hresult
        · obtain rfl := Option.some.inj hresult
          cases h
        · obtain rfl := Option.some.inj hresult
          cases h
        · cases hresult
    split at h
    · exact Value.string.inj (Except.ok.inj h)
    split at h
    · cases h
    · exact Value.string.inj (Except.ok.inj h)
  split at h
  · next other hresolve =>
    rw [hresolve, ← hself hresolve]
  · cases h

end HostKit.Yaml
