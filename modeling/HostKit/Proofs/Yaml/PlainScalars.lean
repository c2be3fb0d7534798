import HostKit.Proofs.Yaml.TokenRules

/-!
# Plain scalars as they are written

A text that can be written plainly is read as one plain scalar: no character of it ends the scalar,
its gaps are spaces between words, and what comes after it does: a colon before a gap, or the end of
the line if the next one does not belong to the scalar.
-/

namespace HostKit.Yaml

/-! ## Neighbours and ends -/

theorem hasPair_cons {first second : Char → Bool} {c : Char} {rest : Text}
    (h : hasPair first second (c :: rest) = false) :
    hasPair first second rest = false ∧ ∀ d ∈ rest.head?, first c = true → second d = false := by
  cases rest with
  | nil => exact ⟨rfl, by simp⟩
  | cons d rest =>
    rw [hasPair, Bool.or_eq_false_iff, Bool.and_eq_false_iff] at h
    refine ⟨h.2, ?_⟩
    intro e he hc
    obtain rfl := Option.some.inj he
    exact h.1.resolve_left (by simp [hc])

theorem endsWith_cons {test : Char → Bool} {c d : Char} {rest : Text} :
    endsWith test (c :: d :: rest) = endsWith test (d :: rest) := by
  simp [endsWith]

/-! ## What plain texts are like -/

/-- A text that can be written as a plain scalar. -/
structure IsPlain (text : Text) : Prop where
  written : IsWritten text
  noBreak : ∀ c ∈ text, isBreak c = false
  noSpaceFirst : text.head? ≠ some ' '
  noSpaceLast : endsWith isBlankSpace text = false
  noIndicator : startsLikeIndicator text = false
  noMark : startsLikeMark text = false
  noColonLast : endsWith (· = ':') text = false
  noColonBefore : hasPair (· = ':') isGap text = false
  noComment : hasPair isGap (· = '#') text = false

theorem isPlain_of_isPlainable {text : Text} (h : isPlainable text = true) : IsPlain text := by
  rw [isPlainable, Bool.not_eq_true'] at h
  simp only [needsEscape, endsInside, Bool.or_eq_false_iff, Bool.not_eq_false'] at h
  obtain ⟨⟨⟨⟨⟨⟨⟨hwritten, -⟩, hbreak⟩, hfirst⟩, hlast⟩, hindicator⟩, hmark⟩, ⟨hcolon, hbefore⟩,
    hcomment⟩ := h
  refine ⟨List.all_eq_true.mp hwritten, ?_, ?_, hlast, hindicator, hmark, hcolon, hbefore, hcomment⟩
  · intro c hc
    exact Bool.not_eq_true _ ▸ List.any_eq_false.mp hbreak c hc
  · intro heq
    rw [heq] at hfirst
    exact absurd hfirst (by decide)

/-- The gaps of a plain text are spaces. -/
theorem IsPlain.eq_space {text : Text} (h : IsPlain text) :
    ∀ c ∈ text, isGap c = true → c = ' ' := by
  intro c hc hgap
  rw [isGap, h.noBreak c hc, Bool.or_false, isSpace, Bool.or_eq_true, decide_eq_true_iff,
    decide_eq_true_iff] at hgap
  exact hgap.resolve_right (ne_of_written (h.written c hc) (by decide))

/-- The rest of a plain text, whatever it starts with: its gaps are spaces between words, and none
of its characters ends a scalar. -/
structure IsPlainRest (text : Text) : Prop where
  gaps : ∀ c ∈ text, isGap c = true → c = ' '
  noSpaceLast : endsWith isBlankSpace text = false
  noColonLast : endsWith (· = ':') text = false
  noColonBefore : hasPair (· = ':') isGap text = false
  noComment : hasPair isGap (· = '#') text = false

theorem IsPlain.isRest {text : Text} (h : IsPlain text) : IsPlainRest text :=
  ⟨h.eq_space, h.noSpaceLast, h.noColonLast, h.noColonBefore, h.noComment⟩

theorem IsPlainRest.tail {c d : Char} {rest : Text} (h : IsPlainRest (c :: d :: rest)) :
    IsPlainRest (d :: rest) where
  gaps e he := h.gaps e (List.mem_cons_of_mem c he)
  noSpaceLast := endsWith_cons ▸ h.noSpaceLast
  noColonLast := endsWith_cons ▸ h.noColonLast
  noColonBefore := (hasPair_cons h.noColonBefore).1
  noComment := (hasPair_cons h.noComment).1

/-- A plain text starts with a character that starts a plain scalar. -/
theorem IsPlain.head {c : Char} {rest : Text} (h : IsPlain (c :: rest)) :
    isStart c = true ∧ isIndicator c = false ∧
    (c = '-' ∨ c = '?' ∨ c = ':' → ∀ (spot : Spot) (later : Text),
      Source.atGap (spot.source (rest ++ later)) = false) := by
  have hgap : isGap c = false := by
    apply Bool.eq_false_iff.mpr
    intro hgap
    exact h.noSpaceFirst (congrArg some (h.eq_space c List.mem_cons_self hgap))
  have hnot := h.noIndicator
  rw [startsLikeIndicator, Bool.or_eq_false_iff] at hnot
  obtain ⟨hindicator, hword⟩ := hnot
  have hcomment : c ≠ '#' := by
    intro heq
    rw [heq] at hindicator
    exact absurd hindicator (by decide)
  have hmark : c ≠ '\ufeff' := ne_of_written (h.written c List.mem_cons_self) (by decide)
  refine ⟨by simp [isStart, hgap, hcomment, hmark], hindicator, ?_⟩
  intro hc
  have hmem : c ∈ "?:-".toList := by
    obtain rfl | rfl | rfl := hc <;> decide
  have hnext : rest.head?.all isGap = false := by
    rw [decide_eq_true hmem] at hword
    exact hword
  cases rest with
  | nil => exact absurd hnext (by decide)
  | cons d rest => exact fun spot later => hnext

/-- The mark of a document consists of three hyphens or three points. -/
theorem exists_mark_of_atMark {spot : Spot} {text : Text}
    (h : Source.atMark (spot.source text) = true) :
    ∃ mark more, text = mark ++ more ∧ (mark = "---".toList ∨ mark = "...".toList) := by
  match text, h with
  | c :: d :: e :: more, h =>
    simp only [Spot.source_cons, Source.atMark, Bool.and_eq_true, Bool.or_eq_true, Spot.placed_char,
      decide_eq_true_eq] at h
    obtain ⟨⟨⟨⟨-, hc⟩, hd⟩, he⟩, -⟩ := h
    have hd : d = c := of_decide_eq_true hd
    have he : e = c := of_decide_eq_true he
    rw [hd, he]
    rcases hc with hc | hc
    · have hc : c = '-' := of_decide_eq_true hc
      exact ⟨_, more, by rw [hc]; rfl, .inl rfl⟩
    · have hc : c = '.' := of_decide_eq_true hc
      exact ⟨_, more, by rw [hc]; rfl, .inr rfl⟩

/-- A plain text before another character is no mark of a document. -/
theorem IsPlain.not_atMark {text : Text} (h : IsPlain text) {e : Char} (he : e ≠ '-' ∧ e ≠ '.')
    (spot : Spot) (rest : Text) : Source.atMark (spot.source (text ++ e :: rest)) = false := by
  have hmark := h.noMark
  rw [startsLikeMark, Bool.or_eq_false_iff] at hmark
  apply Bool.eq_false_iff.mpr
  intro hat
  obtain ⟨mark, more, heq, hthree⟩ := exists_mark_of_atMark hat
  have hprefix : ¬mark <+: text := by
    rw [← List.isPrefixOf_iff_prefix]
    rcases hthree with rfl | rfl
    · exact Bool.eq_false_iff.mp hmark.1
    · exact Bool.eq_false_iff.mp hmark.2
  have hchars : ∀ d ∈ mark, d = '-' ∨ d = '.' := by
    rcases hthree with rfl | rfl
    · simp
    · simp
  rcases List.append_eq_append_iff.mp heq with ⟨later, rfl, hlater⟩ | ⟨later, rfl, -⟩
  · cases later with
    | nil => exact hprefix (by simp)
    | cons d later =>
      obtain rfl : e = d := (List.cons.inj hlater).1
      rcases hchars e (by simp) with h | h
      · exact he.1 h
      · exact he.2 h
  · exact hprefix (List.prefix_append _ _)

/-! ## Reading -/

namespace Plain

variable {inner : Nat}

/-- A scalar does not stop inside a plain text. -/
theorem not_stops {gap : Gap} {p : Placed} {rest : Source}
    (hgap : gap ≠ .empty → inner ≤ p.column ∧ p.column ≠ 0 ∧ p.char ≠ '#')
    (hcolon : p.char = ':' → Source.atGap rest = false) : stops false inner gap p rest = false := by
  have hmark : p.column ≠ 0 → Source.atMark (p :: rest) = false := Lexer.not_atMark_of_column rest
  by_cases hempty : gap = .empty
  · by_cases heq : p.char = ':'
    · simp [stops, hempty, hcolon heq]
    · simp [stops, hempty, heq]
  · obtain ⟨hinner, hcolumn, hcomment⟩ := hgap hempty
    by_cases heq : p.char = ':'
    · simp [stops, hmark hcolumn, hinner, hcomment, hcolon heq]
    · simp [stops, hmark hcolumn, hinner, hcomment, heq]

/-- A plain text is read to its end, after blanks on its line. -/
theorem readFrom_text {text : Text} (h : IsPlainRest text) (hne : text ≠ []) {blanks : Text}
    (hblanks : blanks ≠ [] → text.head? ≠ some '#') {spot : Spot} (hinner : inner ≤ spot.column + 1)
    (hcolumn : blanks ≠ [] → inner ≤ spot.column ∧ spot.column ≠ 0) (done : Text) (rest : Source) :
    readFrom false inner (.blanks blanks) done (spot.source text ++ rest) =
      readFrom false inner .empty (text.reverse ++ blanks.reverse ++ done) rest := by
  induction text generalizing blanks spot done with
  | nil => exact absurd rfl hne
  | cons c text ih =>
    cases hgap : isGap c with
    | true =>
      obtain rfl := h.gaps c List.mem_cons_self hgap
      have hspot : spot.next ' ' = ⟨spot.index + 1, spot.line, spot.column + 1⟩ :=
        Spot.next_of_not_break spot (by decide)
      cases text with
      | nil => exact absurd h.noSpaceLast (by decide)
      | cons d text =>
        have hnext : d ≠ '#' := by
          have hd := (hasPair_cons h.noComment).2 d rfl hgap
          simpa using hd
        have hpush : (Gap.blanks blanks).push ' ' = .blanks (blanks ++ [' ']) := by
          simp [Gap.push, isBreak]
        rw [Spot.source_cons, List.cons_append, readFrom, Spot.placed_char, hgap, if_pos rfl,
          if_neg (by simp), hpush, ih h.tail (List.cons_ne_nil _ _)]
        · simp
        · simpa using hnext
        · rw [hspot]
          dsimp only
          omega
        · rw [hspot]
          intro _
          dsimp only
          omega
    | false =>
      have hstops : stops false inner (.blanks blanks) (spot.placed c)
          ((spot.next c).source text ++ rest) = false := by
        apply not_stops
        · intro hempty
          have hne : blanks ≠ [] := fun h => hempty (congrArg Gap.blanks h)
          refine ⟨(hcolumn hne).1, (hcolumn hne).2, ?_⟩
          have hhead := hblanks hne
          simpa using hhead
        · intro heq
          have heq : c = ':' := heq
          cases text with
          | nil => exact absurd h.noColonLast (by simp [endsWith, heq])
          | cons d text => exact (hasPair_cons h.noColonBefore).2 d rfl (by simp [heq])
      rw [Spot.source_cons, List.cons_append, readFrom, Spot.placed_char, hgap,
        if_neg Bool.false_ne_true, hstops, if_neg Bool.false_ne_true, if_neg (by simp), Gap.text]
      cases text with
      | nil => simp
      | cons d text =>
        have hnext : spot.next c = ⟨spot.index + 1, spot.line, spot.column + 1⟩ :=
          Spot.next_of_not_break spot (not_isBreak_of_not_isGap hgap)
        rw [Gap.empty, ih h.tail (List.cons_ne_nil _ _) (by simp) _ (by simp)]
        · simp [Gap.empty]
        · rw [hnext]
          dsimp only
          omega

/-- The spaces before a line are no part of a scalar. -/
theorem readFrom_spaces (first : Option Char) (more done : Text) (spot : Spot) (count : Nat)
    (rest : Text) :
    readFrom false inner (.lines first more) done (spot.source (spaces count ++ rest)) =
      readFrom false inner (.lines first more) done ((spot.after (spaces count)).source rest) := by
  induction count generalizing spot with
  | zero => rfl
  | succ count ih =>
    have hpush : (Gap.lines first more).push ' ' = .lines first more := by simp [Gap.push, isBreak]
    have hgap : isGap ' ' = true := by decide
    simp only [spaces, List.replicate_succ, List.cons_append, Spot.source_cons, Spot.after_cons]
    rw [← spaces, ← ih (spot.next ' '), readFrom, Spot.placed_char, if_pos hgap,
      if_neg (by simp), hpush]

/-- A scalar ends with its line if the next line does not belong to it. -/
theorem readFrom_lineEnd {rest : Text} (h : IsOutside inner rest) (done : Text) (spot : Spot) :
    ∃ left, readFrom false inner .empty done (spot.source ('\n' :: rest)) =
      .ok ⟨done.reverse, true, left⟩ ∧
      Lexer.skipFrom false false true left =
        Lexer.skipFrom false false true ((spot.next '\n').source rest) := by
  have hbreak : isBreak '\n' = true := by decide
  have hgap : isGap '\n' = true := by decide
  have hpush : Gap.empty.push '\n' = .lines (some '\n') [] := by decide
  rw [Spot.source_cons, readFrom, Spot.placed_char, if_pos hgap, if_neg (by simp), hpush]
  obtain rfl | ⟨column, c, more, rfl, hstart, hlt⟩ := h
  · exact ⟨[], rfl, rfl⟩
  · have hstops : stops false inner (.lines (some '\n') [])
        (((spot.next '\n').after (spaces column)).placed c)
        ((((spot.next '\n').after (spaces column)).next c).source more) = true := by
      have hcolumn : ((spot.next '\n').after (spaces column)).column = column := by
        rw [Spot.after_spaces, Spot.next_of_break spot hbreak]
        exact Nat.zero_add column
      simp [stops, Gap.empty, hcolumn, hlt]
    refine ⟨((spot.next '\n').after (spaces column)).source (c :: more), ?_, ?_⟩
    · rw [readFrom_spaces, Spot.source_cons, readFrom, Spot.placed_char,
        not_isGap_of_isStart hstart,
        if_neg Bool.false_ne_true, hstops, if_pos rfl]
      rfl
    · rw [Lexer.skipFrom_spaces]

/-- A scalar ends before a colon that stands before a gap. -/
theorem readFrom_colon {p : Placed} {rest : Source} (hp : p.char = ':')
    (hrest : Source.atGap rest = true) (done : Text) :
    readFrom false inner .empty done (p :: rest) = .ok ⟨done.reverse, false, p :: rest⟩ := by
  have hgap : isGap ':' = false := by decide
  have hstops : stops false inner .empty p rest = true := by simp [stops, hp, hrest]
  rw [readFrom, hp, hgap, if_neg Bool.false_ne_true, hstops, if_pos rfl]
  rfl

end Plain

/-! ## Runs -/

section runs

variable {stage : Stage} {spot : Spot} {key : Option PossibleKey} {keyAllowed : Bool}

/-- A plain text is read to its end. -/
theorem IsPlain.read {text : Text} (h : IsPlain text) (hne : text ≠ []) {inner : Nat}
    (hinner : inner ≤ spot.column + 1) (rest : Text) :
    Plain.read false inner (spot.source (text ++ rest)) =
      Plain.readFrom false inner .empty text.reverse ((spot.after text).source rest) := by
  have hnone : ([] : Text) ≠ [] → text.head? ≠ some '#' := fun h => absurd rfl h
  have hread := Plain.readFrom_text h.isRest hne hnone hinner (by simp) []
    ((spot.after text).source rest)
  rw [Spot.source_append]
  simpa [Plain.read, Gap.empty] using hread

/-- A plain text that ends its line is a token. -/
theorem IsPlain.reads_line {text : Text} (h : IsPlain text) (hne : text ≠ [])
    (hkey : keyAllowed = true → IsFree key) (hinner : stage.inner ≤ spot.column + 1) {rest : Text}
    (hrest : IsOutside stage.inner rest) :
    ∃ c, (Lexer.on stage spot (text ++ '\n' :: rest) key keyAllowed).Reads
      (Lexer.on (stage.emit [.scalar .plain text]) (spot.after (text ++ ['\n'])) rest
        (Lexer.noted stage (spot.placed c) key keyAllowed) true) := by
  obtain ⟨c, tail, rfl⟩ := List.exists_cons_of_ne_nil hne
  obtain ⟨hstart, hindicator, hword⟩ := h.head
  obtain ⟨left, hend, hskip⟩ := Plain.readFrom_lineEnd hrest (c :: tail).reverse
    (spot.after (c :: tail))
  rw [List.reverse_reverse, ← h.read hne hinner] at hend
  refine ⟨c, Lexer.reads_plain hkey hinner hstart hindicator ?_ ?_ hend ?_ ?_⟩
  · exact fun hc => hword hc _ _
  · exact h.not_atMark (by decide) spot rest
  · rw [hskip, Spot.after_append]
    rfl
  · simp
    omega

/-- A plain text before a colon is a token. -/
theorem IsPlain.reads_key {text : Text} (h : IsPlain text) (hne : text ≠ [])
    (hkey : keyAllowed = true → IsFree key) (hinner : stage.inner ≤ spot.column + 1) {rest : Text}
    (hrest : Source.atGap (((spot.after text).next ':').source rest) = true) :
    ∃ c, (Lexer.on stage spot (text ++ ':' :: rest) key keyAllowed).Reads
      (Lexer.on (stage.emit [.scalar .plain text]) (spot.after text) (':' :: rest)
        (Lexer.noted stage (spot.placed c) key keyAllowed) false) := by
  obtain ⟨c, tail, rfl⟩ := List.exists_cons_of_ne_nil hne
  obtain ⟨hstart, hindicator, hword⟩ := h.head
  have hend : Plain.readFrom false stage.inner .empty (c :: tail).reverse
      ((spot.after (c :: tail)).source (':' :: rest)) = _ := Plain.readFrom_colon rfl hrest _
  rw [List.reverse_reverse, ← h.read hne hinner] at hend
  refine ⟨c, Lexer.reads_plain hkey hinner hstart hindicator ?_ ?_ hend rfl ?_⟩
  · exact fun hc => hword hc _ _
  · exact h.not_atMark (by decide) spot rest
  · simp

end runs

end HostKit.Yaml
