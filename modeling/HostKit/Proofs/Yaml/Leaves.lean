import HostKit.Proofs.Yaml.LiteralScalars
import HostKit.Proofs.Yaml.Resolution
import HostKit.Proofs.Yaml.WrittenTags

/-!
# Values without parts in a document

A scalar is written plainly, in quotes or as a literal scalar, and a collection without parts as a
pair of brackets. Each of these is one row of tokens: at the end of a line whatever the next line
is, as long as it does not belong to the scalar, and before a colon if it is short and stands on one
line.
-/

namespace HostKit.Yaml

/-! ## Plain numbers -/

/-- The characters of numbers. -/
def IsNumeric (c : Char) : Prop := c.isDigit = true ∨ c ∈ ['.', 'e', '-']

theorem isDigit_iff {c : Char} : c.isDigit = true ↔ 48 ≤ c.toNat ∧ c.toNat ≤ 57 := by
  have hval : c.val.toNat = c.toNat := rfl
  simp only [Char.isDigit, Bool.and_eq_true, decide_eq_true_eq, ge_iff_le,
    UInt32.le_iff_toNat_le, hval]
  rfl

theorem IsNumeric.isInLine {c : Char} (h : IsNumeric c) : IsInLine c := by
  rcases h with h | h
  · rw [isDigit_iff] at h
    exact isInLine_of_ascii (by omega) (by omega)
  · have hall : ∀ d ∈ ['.', 'e', '-'], 32 ≤ d.toNat ∧ d.toNat ≤ 126 := by simp
    exact isInLine_of_ascii (hall c h).1 (hall c h).2

/-- Numbers have no spaces and none of the characters that end a plain scalar. -/
theorem IsNumeric.not_mem {c : Char} (h : IsNumeric c) : c ∉ [' ', ':', '#'] := by
  intro hc
  simp only [List.mem_cons, List.not_mem_nil, or_false] at hc
  rcases h with h | h
  · rw [isDigit_iff] at h
    rcases hc with rfl | rfl | rfl <;> simp at h
  · rcases hc with rfl | rfl | rfl <;> simp at h

theorem hasPair_of_not_first {first second : Char → Bool} {text : Text}
    (h : ∀ c ∈ text, first c = false) : hasPair first second text = false := by
  induction text with
  | nil => rfl
  | cons c text ih =>
    obtain ⟨hc, htext⟩ := List.forall_mem_cons.mp h
    cases text with
    | nil => rfl
    | cons d text => rw [hasPair, hc, ih htext]; rfl

theorem hasPair_of_not_second {first second : Char → Bool} {text : Text}
    (h : ∀ c ∈ text, second c = false) : hasPair first second text = false := by
  induction text with
  | nil => rfl
  | cons c text ih =>
    obtain ⟨-, htext⟩ := List.forall_mem_cons.mp h
    cases text with
    | nil => rfl
    | cons d text => rw [hasPair, htext d List.mem_cons_self, ih htext, Bool.and_false]; rfl

theorem endsWith_of_not {test : Char → Bool} {text : Text} (h : ∀ c ∈ text, test c = false) :
    endsWith test text = false := by
  unfold endsWith
  cases hlast : text.getLast? with
  | none => rfl
  | some c => exact h c (List.mem_of_getLast? hlast)

@[simp] theorem endsWith_append_singleton (test : Char → Bool) (text : Text) (c : Char) :
    endsWith test (text ++ [c]) = test c := by
  simp [endsWith]

/-- A digit is no indicator and stands in a word. -/
theorem not_isIndicator_of_isDigit {c : Char} (h : c.isDigit = true) :
    isIndicator c = false ∧ isGap c = false ∧ c ∉ ['?', ':', '-'] := by
  have hdigit := isDigit_iff.mp h
  have hall : ∀ d ∈ [',', '[', ']', '\x7b', '\x7d', '#', '&', '*', '!', '|', '>', '\'', '"', '%',
      '@', '\x60', ' ', '\t', '?', ':', '-'], d.toNat < 48 ∨ 57 < d.toNat := by simp
  have hne : ∀ d ∈ [',', '[', ']', '\x7b', '\x7d', '#', '&', '*', '!', '|', '>', '\'', '"', '%',
      '@', '\x60', ' ', '\t', '?', ':', '-'], c ≠ d := by
    intro d hd heq
    have hd := hall d hd
    rw [← heq] at hd
    omega
  have hbreak := (isInLine_of_ascii (c := c) (by omega) (by omega)).2
  simp only [List.forall_mem_cons] at hne
  simp [isIndicator, isFlowIndicator, isGap, isSpace, hbreak, hne]

/-- A number is written plainly: a sign if it is negative, a digit, and further characters of
numbers. -/
theorem isPlain_number (negative : Bool) {c : Char} (hc : c.isDigit = true) {rest : Text}
    (hrest : ∀ d ∈ rest, IsNumeric d) : IsPlain (Numeral.sign negative ++ c :: rest) := by
  have hall : ∀ d ∈ Numeral.sign negative ++ c :: rest, IsNumeric d := by
    intro d hd
    rw [List.mem_append, List.mem_cons] at hd
    rcases hd with hd | rfl | hd
    · cases negative with
      | false => cases hd
      | true =>
        obtain rfl := List.mem_singleton.mp hd
        exact .inr (by simp)
    · exact .inl hc
    · exact hrest d hd
  have hne (e : Char) (he : e ∈ [' ', ':', '#']) :
      ∀ d ∈ Numeral.sign negative ++ c :: rest, d ≠ e :=
    fun d hd heq => (hall d hd).not_mem (heq ▸ he)
  obtain ⟨hindicator, hgap, hword⟩ := not_isIndicator_of_isDigit hc
  have hdash : '-' ≠ c := fun heq => hword (by simp [← heq])
  have hpoint : '.' ≠ c := by
    intro heq
    rw [← heq] at hc
    exact absurd hc (by decide)
  refine ⟨fun d hd => (hall d hd).isInLine.1, fun d hd => (hall d hd).isInLine.2,
    ?_, ?_, ?_, ?_, ?_, ?_, ?_⟩
  · intro hhead
    exact hne ' ' (by simp) ' ' (List.mem_of_head? hhead) rfl
  · exact endsWith_of_not fun d hd => decide_eq_false (hne ' ' (by simp) d hd)
  · cases negative with
    | false =>
      change (isIndicator c || (c ∈ ['?', ':', '-'] && rest.head?.all isGap)) = false
      simp [hindicator, hword]
    | true =>
      change (isIndicator '-' || ('-' ∈ ['?', ':', '-'] && isGap c)) = false
      rw [hgap]
      decide
  · cases negative with
    | false => simp [startsLikeMark, Numeral.sign, List.isPrefixOf, hdash, hpoint]
    | true => simp [startsLikeMark, Numeral.sign, List.isPrefixOf, hdash]
  · exact endsWith_of_not fun d hd => decide_eq_false (hne ':' (by simp) d hd)
  · exact hasPair_of_not_first fun d hd => decide_eq_false (hne ':' (by simp) d hd)
  · exact hasPair_of_not_second fun d hd => decide_eq_false (hne '#' (by simp) d hd)

/-- An integer is written plainly. -/
theorem isPlain_ofInt (n : Int) : IsPlain (Text.ofInt n) ∧ Text.ofInt n ≠ [] := by
  obtain ⟨c, rest, hdigits⟩ :=
    List.exists_cons_of_ne_nil (Nat.toDigits_ne_nil (b := 10) (n := n.natAbs))
  have hdigit : ∀ d ∈ c :: rest, d.isDigit = true := hdigits ▸ Numeral.isDigit_of_mem_toDigits
  have hplain (negative : Bool) := isPlain_number negative (hdigit c List.mem_cons_self)
    fun d hd => .inl (hdigit d (List.mem_cons_of_mem _ hd))
  rw [Text.ofInt, Text.ofNat, hdigits]
  split
  · exact ⟨hplain true, by simp⟩
  · exact ⟨hplain false, by simp⟩

/-- The characters of a numeral. -/
theorem isNumeric_of_mem_text (parts : Numeral.Parts) : ∀ c ∈ parts.text, IsNumeric c := by
  have hint (n : Int) : ∀ c ∈ Text.ofInt n, IsNumeric c := by
    have hdigits : ∀ c ∈ Text.ofNat n.natAbs, IsNumeric c :=
      fun c hc => .inl (Numeral.isDigit_of_mem_toDigits c hc)
    unfold Text.ofInt
    split
    · exact List.forall_mem_cons.mpr ⟨.inr (by simp), hdigits⟩
    · exact hdigits
  obtain ⟨whole, fraction?, power?, -, hwhole, hfraction, -, -⟩ := parts
  intro c hc
  simp only [Numeral.Parts.text, List.mem_append] at hc
  rcases hc with (hc | hc) | hc
  · exact .inl (hwhole c hc)
  · cases fraction? with
    | none => cases hc
    | some fraction =>
      rcases List.mem_cons.mp hc with rfl | hc
      · exact .inr (by simp)
      · exact .inl (hfraction c hc)
  · cases power? with
    | none => cases hc
    | some power =>
      rcases List.mem_cons.mp hc with rfl | hc
      · exact .inr (by simp)
      · exact hint power c hc

/-- A float in the form that a number has only once is written plainly. -/
theorem isPlain_printFloat {x : Binary64} (h : x.IsCanonical) :
    IsPlain (printFloat x) ∧ printFloat x ≠ [] := by
  match x, h with
  | .nan, _ => exact ⟨isPlain_of_isPlainable rfl, by simp [printFloat]⟩
  | .infinite true, _ => exact ⟨isPlain_of_isPlainable rfl, by simp [printFloat]⟩
  | .infinite false, _ => exact ⟨isPlain_of_isPlainable rfl, by simp [printFloat]⟩
  | .finite negative significand exponent, hnormal =>
    obtain ⟨parts, htext, -⟩ := Numeral.compact_eq negative hnormal
    obtain ⟨c, rest, hcons, hc⟩ := parts.exists_cons
    rw [printFloat, htext, hcons]
    refine ⟨isPlain_number negative hc fun d hd => ?_, by simp⟩
    exact isNumeric_of_mem_text parts d (hcons ▸ List.mem_cons_of_mem _ hd)

/-! ## Values without parts -/

/-- A scalar as it can be read, or a collection without parts. -/
inductive Value.IsLeaf : Value → Prop
  | scalar {value : Value} (h : value.IsScalar) : IsLeaf value
  | noItems : IsLeaf (.sequence [])
  | noEntries : IsLeaf (.mapping [])

/-- The tokens of a value without parts. -/
def leafTokens : Value → List Token
  | .string text => [.scalar (Style.ofString text) text]
  | .sequence _ => [.openBracket, .closeBracket]
  | .mapping _ => [.openBrace, .closeBrace]
  | value => [.scalar .plain (printLeaf 0 value)]

/-- A text in quotes or brackets, which is the same row of tokens whatever comes after it. -/
structure IsClosed (text : Text) (found : List Token) : Prop where
  written : IsWritten text
  ended : endsWith isBreak text = false
  start : ∃ c ∈ text.head?, isStart c = true
  reads : ∀ {stage : Stage} {spot : Spot} {key : Option PossibleKey} {keyAllowed : Bool},
    (keyAllowed = true → IsFree key) → stage.inner ≤ spot.column + 1 →
      ∀ rest : Text, rest.head? ≠ some '\'' →
      ∃ c, (Lexer.on stage spot (text ++ rest) key keyAllowed).Reads
        (Lexer.on (stage.emit found) (spot.after text) rest
          (Lexer.noted stage (spot.placed c) key keyAllowed) false)

/-- The lines of an indented text consist of spaces and the characters of the text. -/
theorem mem_indentLines {indent : Nat} {atStart : Bool} {text : Text} {c : Char}
    (h : c ∈ indentLines indent atStart text) : c = ' ' ∨ c ∈ text := by
  induction text generalizing atStart with
  | nil => cases h
  | cons d text ih =>
    rw [indentLines] at h
    split at h
    · rcases List.mem_cons.mp h with rfl | h
      · exact .inr List.mem_cons_self
      · exact (ih h).imp_right (List.mem_cons_of_mem _)
    · rcases List.mem_append.mp h with h | h
      · cases atStart with
        | false => cases h
        | true => exact .inl (List.eq_of_mem_replicate h)
      · rcases List.mem_cons.mp h with rfl | h
        · exact .inr List.mem_cons_self
        · exact (ih h).imp_right (List.mem_cons_of_mem _)

/-- A scalar in single quotes consists of quotes, spaces and the characters of the text. -/
theorem mem_singleQuoted {indent : Nat} {text : Text} {c : Char}
    (h : c ∈ singleQuoted indent text) :
    c = '\'' ∨ c = ' ' ∨ c ∈ text := by
  have hspaces : c ∈ (if endsWith isBreak text then spaces indent else []) → c = ' ' := by
    split
    · exact List.eq_of_mem_replicate
    · exact fun h => absurd h List.not_mem_nil
  simp only [singleQuoted, List.mem_append] at h
  rcases h with ((h | h) | h) | h
  · exact .inl (List.mem_singleton.mp h)
  · rcases mem_indentLines h with h | h
    · exact .inr (.inl h)
    · obtain ⟨d, hd, hc⟩ := List.mem_flatMap.mp h
      split at hc
      · exact .inl (by simpa using hc)
      · obtain rfl := List.mem_singleton.mp hc
        exact .inr (.inr hd)
  · exact .inr (.inl (hspaces h))
  · exact .inl (List.mem_singleton.mp h)

/-- A text in single quotes. -/
theorem isClosed_singleQuoted {text : Text} (h : isSingleQuotable text = true) (hfeed : '\n' ∉ text)
    {indent : Nat} (hindent : (∃ c ∈ text, isBreak c = true) → indent ≠ 0) :
    IsClosed (singleQuoted indent text) [.scalar .singleQuoted text] := by
  have hwritten : IsWritten text := by
    rw [isSingleQuotable, needsEscape, Bool.not_eq_true'] at h
    simp only [Bool.or_eq_false_iff, Bool.not_eq_false'] at h
    exact List.all_eq_true.mp h.1.1
  refine ⟨?_, ?_, ?_, ?_⟩
  · intro c hc
    rcases mem_singleQuoted hc with rfl | rfl | hc
    · decide
    · decide
    · exact hwritten c hc
  · exact endsWith_append_singleton _ _ '\''
  · exact ⟨'\'', by rw [singleQuoted_eq]; rfl, by decide⟩
  · intro stage spot key keyAllowed hkey hinner rest hrest
    rw [singleQuoted_eq]
    exact ⟨'\'', Lexer.reads_single hkey hinner
      (Quoted.readSingle_singleQuoted h hfeed hindent spot hrest)⟩

/-- A scalar in double quotes stands in a line. -/
theorem isInLine_doubleQuoted (text : Text) : ∀ c ∈ doubleQuoted text, IsInLine c := by
  rw [doubleQuoted_eq]
  simp only [List.forall_mem_cons, List.forall_mem_append, List.forall_mem_flatMap]
  exact ⟨isInLine_of_ascii (by decide) (by decide), fun c _ => isInLine_inQuotes c,
    isInLine_of_ascii (by decide) (by decide), by simp⟩

/-- A text in double quotes. -/
theorem isClosed_doubleQuoted (text : Text) :
    IsClosed (doubleQuoted text) [.scalar .doubleQuoted text] := by
  have hwritten : IsWritten (doubleQuoted text) := fun c hc => (isInLine_doubleQuoted text c hc).1
  rw [doubleQuoted_eq] at hwritten ⊢
  refine ⟨hwritten, ?_, ⟨'"', rfl, by decide⟩, ?_⟩
  · rw [← List.cons_append, endsWith_append_singleton]
    decide
  · intro stage spot key keyAllowed hkey hinner rest _
    exact ⟨'"', Lexer.reads_double hkey hinner (Quoted.readDouble_doubleQuoted text spot rest)⟩

/-- A pair of square brackets. -/
theorem isClosed_brackets : IsClosed ['[', ']'] [.openBracket, .closeBracket] := by
  refine ⟨by decide, by decide, by simp; decide, ?_⟩
  intro stage spot key keyAllowed hkey hinner rest _
  exact ⟨'[', Lexer.reads_noItems rest hkey hinner⟩

/-- A pair of braces. -/
theorem isClosed_braces : IsClosed ['\x7b', '\x7d'] [.openBrace, .closeBrace] := by
  refine ⟨by decide, by decide, by simp; decide, ?_⟩
  intro stage spot key keyAllowed hkey hinner rest _
  exact ⟨'\x7b', Lexer.reads_noEntries rest hkey hinner⟩

/-- A string is written in one of four ways. -/
theorem Style.ofString_cases (text : Text) :
    Style.ofString text = .literal ∧ '\n' ∈ text ∧ isLiteralable text = true ∨
      Style.ofString text = .doubleQuoted ∨
      Style.ofString text = .plain ∧ isPlainString text = true ∧ isPlainable text = true ∨
      Style.ofString text = .singleQuoted ∧ '\n' ∉ text ∧ isSingleQuotable text = true := by
  unfold Style.ofString
  by_cases hfeed : '\n' ∈ text
  · cases isLiteralable text with
    | true => simp [hfeed]
    | false => simp [hfeed]
  · by_cases hplain : (isPlainString text && isPlainable text) = true
    · simp [hfeed, Bool.and_eq_true_iff.mp hplain]
    · cases isSingleQuotable text with
      | true => simp [hfeed, hplain]
      | false => simp [hfeed, hplain]

/-- The three forms of a value without parts: a plain scalar, something in quotes or brackets, and a
literal scalar. -/
inductive LeafForm (indent : Nat) (value : Value) : Prop
  | plain (text : IsPlain (printLeaf indent value)) (ne_nil : printLeaf indent value ≠ [])
      (found : leafTokens value = [.scalar .plain (printLeaf indent value)])
  | closed (text : IsClosed (printLeaf indent value) (leafTokens value))
      (noBreak : (∀ text, value = .string text → ∀ c ∈ text, isBreak c = false) →
        ∀ c ∈ printLeaf indent value, isBreak c = false)
  | literal {text : Text} (eq : value = .string text) (feed : '\n' ∈ text)
    (literalable : isLiteralable text = true)
      (print : printLeaf indent value = Yaml.literal indent text)
      (found : leafTokens value = [.scalar .literal text])

/-- The form of a value without parts. Further lines in single quotes are indented. -/
theorem Value.IsLeaf.form {value : Value} (h : value.IsLeaf) {indent : Nat}
    (hindent : ∀ text, value = .string text → (∃ c ∈ text, isBreak c = true) → indent ≠ 0) :
    LeafForm indent value := by
  have hword (word : Text) (hplain : isPlainable word = true) (hne : word ≠ [])
      (hprint : printLeaf indent value = word)
      (hfound : leafTokens value = [.scalar .plain (printLeaf indent value)]) :
      LeafForm indent value :=
    .plain (hprint ▸ isPlain_of_isPlainable hplain) (hprint ▸ hne) hfound
  cases h with
  | noItems =>
    have hbreak : ∀ c ∈ ['[', ']'], isBreak c = false := by simp [isBreak]
    exact .closed isClosed_brackets fun _ => hbreak
  | noEntries =>
    have hbreak : ∀ c ∈ ['\x7b', '\x7d'], isBreak c = false := by simp [isBreak]
    exact .closed isClosed_braces fun _ => hbreak
  | scalar h =>
    cases h with
    | null => exact hword "null" rfl (by simp) rfl rfl
    | bool b =>
      cases b with
      | true => exact hword "true" rfl (by simp) rfl rfl
      | false => exact hword "false" rfl (by simp) rfl rfl
    | int => exact .plain (isPlain_ofInt _).1 (isPlain_ofInt _).2 rfl
    | float canonical =>
      exact .plain (isPlain_printFloat canonical).1 (isPlain_printFloat canonical).2 rfl
    | string text =>
      have hleaf : printLeaf indent (.string text) = printString indent text := rfl
      have hfound : leafTokens (.string text) = [.scalar (Style.ofString text) text] := rfl
      obtain ⟨hstyle, hfeed, hliteral⟩ | hstyle | ⟨hstyle, hplain, hplainable⟩ |
        ⟨hstyle, hfeed, hsingle⟩ := Style.ofString_cases text
      · exact .literal rfl hfeed hliteral (by rw [hleaf, printString, hstyle])
          (by rw [hfound, hstyle])
      · have hprint : printLeaf indent (.string text) = doubleQuoted text := by
          rw [hleaf, printString, hstyle]
        refine .closed ?_ fun _ => ?_
        · rw [hprint, hfound, hstyle]
          exact isClosed_doubleQuoted text
        · rw [hprint]
          exact fun c hc => (isInLine_doubleQuoted text c hc).2
      · have hprint : printLeaf indent (.string text) = text := by rw [hleaf, printString, hstyle]
        refine hword _ hplainable ?_ hprint (by rw [hprint, hfound, hstyle])
        rintro rfl
        exact absurd hplain (by decide)
      · have hprint : printLeaf indent (.string text) = singleQuoted indent text := by
          rw [hleaf, printString, hstyle]
        refine .closed ?_ fun hlines => ?_
        · rw [hprint, hfound, hstyle]
          exact isClosed_singleQuoted hsingle hfeed (hindent text rfl)
        · rw [hprint]
          intro c hc
          rcases mem_singleQuoted hc with rfl | rfl | hc
          · decide
          · decide
          · exact hlines text rfl c hc

/-! ## At the end of a line -/

theorem endLine_of_not {text : Text} (h : endsWith isBreak text = false) :
    endLine text = text ++ ['\n'] :=
  if_neg (by rw [h]; exact Bool.false_ne_true)

/-- A line end is written as it is. -/
theorem isWritten_endLine {text : Text} (h : IsWritten text) : IsWritten (endLine text) := by
  unfold endLine
  split
  · exact h
  · exact List.forall_mem_append.mpr ⟨h, by simp; decide⟩

/-- A literal scalar is written as it is. -/
theorem isWritten_literal {text : Text} (h : isLiteralable text = true) (indent : Nat) :
    IsWritten (literal indent text) := by
  rw [isLiteralable, needsEscape, Bool.not_eq_true'] at h
  simp only [Bool.or_eq_false_iff, Bool.not_eq_false'] at h
  have hsign : IsWritten (chompingSign text) := by
    unfold chompingSign
    split
    · decide
    · split
      · decide
      · split
        · decide
        · decide
  have hbar : IsWritten "|".toList := by decide
  have hfeed : IsWritten "\n".toList := by decide
  have hdepth : IsWritten (Text.ofNat indentStep) := by decide
  simp only [literal, IsWritten, List.forall_mem_append]
  refine ⟨⟨⟨⟨hbar, ?_⟩, hsign⟩, hfeed⟩, ?_⟩
  · split
    · exact hdepth
    · exact fun c hc => absurd hc List.not_mem_nil
  · intro c hc
    rcases mem_indentLines hc with rfl | hc
    · decide
    · exact List.all_eq_true.mp h.1.1 c hc

/-- The line of a value without parts is written as it is. -/
theorem LeafForm.isWritten {indent : Nat} {value : Value} (h : LeafForm indent value) :
    IsWritten (endLine (printLeaf indent value)) := by
  apply isWritten_endLine
  cases h with
  | plain text => exact text.written
  | closed text => exact text.written
  | literal _ _ hliteral hprint => exact hprint ▸ isWritten_literal hliteral indent

section runs

variable {stage : Stage} {spot : Spot} {key : Option PossibleKey} {keyAllowed : Bool} {rest : Text}

/-- After its line a part of a node is a key of an earlier line. -/
theorem isPast_noted (text : Text) (c : Char) (hkey : IsHere spot key)
    (hinner : stage.inner ≤ spot.column) : IsPast (spot.after (text ++ ['\n']))
      (Lexer.noted stage (spot.placed c) key keyAllowed) :=
  (Lexer.isHere_noted hkey fun _ => hinner).isPast
    (Spot.after_append_break spot text (by decide)).2

/-- The line of a value without parts is its row of tokens. -/
theorem LeafForm.leads {indent : Nat} {value : Value} (h : LeafForm indent value)
    (hindent : indent = stage.inner - 1 + indentStep) (hkey : IsHere spot key)
    (hinner : stage.inner ≤ spot.column) (hrest : IsOutside stage.inner rest) :
    Lexer.Leads True (Lexer.on stage spot (endLine (printLeaf indent value) ++ rest) key keyAllowed)
      (stage.emit (leafTokens value)) (spot.after (endLine (printLeaf indent value))) rest := by
  have hinner' : stage.inner ≤ spot.column + 1 := Nat.le_succ_of_le hinner
  cases h with
  | plain text hne hfound =>
    have hended := endsWith_of_not text.noBreak
    obtain ⟨c, hreads⟩ := text.reads_line hne (fun _ => hkey.isFree) hinner' hrest
    rw [endLine_of_not hended, hfound, List.append_assoc]
    exact .of_reads (isPast_noted _ c hkey hinner) hreads
  | closed text =>
    obtain ⟨c, hreads⟩ := text.reads (fun _ => hkey.isFree) hinner' ('\n' :: rest) (by simp)
    have hbreak := Lexer.reads_break (stage.emit (leafTokens value))
      (spot.after (printLeaf indent value)) rest (Lexer.noted stage (spot.placed c) key keyAllowed)
      false (show isBreak '\n' = true by decide)
    have hpast : IsPast (spot.after (printLeaf indent value ++ ['\n']))
      (Lexer.noted stage (spot.placed c) key keyAllowed) := isPast_noted _ c hkey hinner
    rw [Spot.after_append] at hpast
    rw [endLine_of_not text.ended, List.append_assoc, Spot.after_append]
    exact .of_reads hpast (hreads.trans hbreak)
  | @literal text _ hfeed hliteral hprint hfound =>
    have hne : text ≠ [] := List.ne_nil_of_mem hfeed
    obtain ⟨left, hread, hleft⟩ := Block.read_afterBar hliteral hne hindent spot hrest
    rw [hprint, Block.endLine_literal indent hne, hfound]
    exact .of_reads (isPast_none _) (Lexer.reads_literal hkey.isFree hinner' hread hleft)

end runs

end HostKit.Yaml
