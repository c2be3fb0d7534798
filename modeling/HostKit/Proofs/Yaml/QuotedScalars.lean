import HostKit.Proofs.Yaml.PlainScalars
import Mathlib

/-!
# Quoted scalars as they are written

In single quotes a text stands as it is but for its quotes, and only a separator of Unicode can end
one of its lines. Such a line end is kept, and the spaces that are written after it are dropped with
the gap that they belong to. In double quotes no line ends at all: what does not stand for itself is
written as an escape, and every escape is read back.
-/

namespace HostKit.Yaml

/-! ## Single quotes -/

/-- A text in single quotes, before its spaces are put in. -/
def doubleQuotes (text : Text) :
    Text := text.flatMap fun c => if c = '\'' then ['\'', '\''] else [c]

/-- Whether a line starts after the text. -/
def startsLine (atStart : Bool) (text : Text) : Bool := text.getLast?.elim atStart isBreak

theorem startsLine_cons (atStart : Bool) (c : Char) (rest : Text) :
    startsLine atStart (c :: rest) = startsLine (isBreak c) rest := by
  cases rest with
  | nil => rfl
  | cons d rest => simp [startsLine, List.getLast?_cons]

/-- The text after the opening quote. -/
def afterQuote (indent : Nat) (atStart : Bool) (text : Text) : Text :=
  indentLines indent atStart (doubleQuotes text) ++
    ((if startsLine atStart text then spaces indent else []) ++ ['\''])

theorem singleQuoted_eq (indent : Nat) (text : Text) :
    singleQuoted indent text = '\'' :: afterQuote indent false text := by
  have hlast : endsWith isBreak text = startsLine false text := by
    cases hlast : text.getLast? with
    | none => simp [endsWith, startsLine, hlast]
    | some c => simp [endsWith, startsLine, hlast]
  simp only [singleQuoted, afterQuote, doubleQuotes, hlast, List.append_assoc]
  rfl

/-- A line end starts a line without spaces. -/
theorem afterQuote_break (indent : Nat) (atStart : Bool) {c : Char} (rest : Text)
    (h : isBreak c = true) :
    afterQuote indent atStart (c :: rest) = c :: afterQuote indent true rest := by
  have hquote : c ≠ '\'' := by
    intro heq
    rw [heq] at h
    exact absurd h (by decide)
  simp [afterQuote, doubleQuotes, hquote, indentLines, h, startsLine_cons]

/-- Another character has spaces before it if it starts a line, and a quote stands there twice. -/
theorem afterQuote_cons (indent : Nat) (atStart : Bool) {c : Char} (rest : Text)
    (h : isBreak c = false) : afterQuote indent atStart (c :: rest) =
      (if atStart then spaces indent else []) ++
        ((if c = '\'' then ['\'', '\''] else [c]) ++ afterQuote indent false rest) := by
  by_cases hquote : c = '\''
  · have hbreak : isBreak '\'' = false := by decide
    simp [afterQuote, doubleQuotes, hquote, indentLines, hbreak, startsLine_cons]
  · simp [afterQuote, doubleQuotes, hquote, indentLines, h, startsLine_cons]

namespace Quoted

/-- The spaces before a line are no part of a scalar. -/
theorem singleFrom_spaces (first : Option Char) (more done : Text) (spot : Spot) (count : Nat)
    (rest : Text) :
    singleFrom (.lines first more) done (spot.source (spaces count ++ rest)) =
      singleFrom (.lines first more) done ((spot.after (spaces count)).source rest) := by
  induction count generalizing spot with
  | zero => rfl
  | succ count ih =>
    have hpush : (Gap.lines first more).push ' ' = .lines first more := by simp [Gap.push, isBreak]
    have hgap : isGap ' ' = true := by decide
    simp only [spaces, List.replicate_succ, List.cons_append, Spot.source_cons, Spot.after_cons]
    rw [← spaces, ← ih (spot.next ' '), singleFrom, Spot.placed_char, if_pos hgap, hpush]

/-- The quote that closes a scalar. -/
theorem singleFrom_quote (gap : Gap) (done : Text) (spot : Spot) {rest : Text}
    (hrest : rest.head? ≠ some '\'') :
    singleFrom gap done (spot.source ('\'' :: rest)) =
      .ok (done.reverse ++ gap.text, (spot.next '\'').source rest) := by
  have hgap : isGap '\'' = false := by decide
  have hmark := Lexer.not_atMark (p := spot.placed '\'') ((spot.next '\'').source rest)
    (show '\'' ≠ '-' by decide) (show '\'' ≠ '.' by decide)
  rw [Spot.source_cons, singleFrom.eq_def]
  simp only [Spot.placed_char, hgap, hmark]
  cases rest with
  | nil => simp
  | cons c rest =>
    have hc : c ≠ '\'' := fun heq => hrest (congrArg some heq)
    simp [hc]

/-- A character of a word, or two quotes. -/
theorem singleFrom_word (gap : Gap) (done : Text) (spot : Spot) {c : Char} (rest : Text)
    (hgap : isGap c = false) (hcolumn : spot.column ≠ 0) :
    singleFrom gap done (spot.source ((if c = '\'' then ['\'', '\''] else [c]) ++ rest)) =
      singleFrom .empty (c :: (gap.text.reverse ++ done))
        ((spot.after (if c = '\'' then ['\'', '\''] else [c])).source rest) := by
  have hmark (q : Char) (rest : Source) : Source.atMark (spot.placed q :: rest) = false :=
    Lexer.not_atMark_of_column rest hcolumn
  by_cases hquote : c = '\''
  · rw [hquote] at hgap ⊢
    simp only [if_true, List.cons_append, List.nil_append, Spot.source_cons, Spot.after_cons,
      Spot.after_nil]
    rw [singleFrom.eq_def]
    simp [hgap, hmark]
  · simp only [hquote, if_false, List.cons_append, List.nil_append, Spot.source_cons,
      Spot.after_cons, Spot.after_nil]
    rw [singleFrom.eq_def]
    simp [hgap, hmark, hquote]

/-- What a scalar in single quotes may hold: its gaps are spaces and separators, and no space stands
next to a separator. -/
structure IsSingle (text : Text) : Prop where
  gaps : ∀ c ∈ text, isGap c = true → c = ' ' ∨ isBreak c = true
  noFeed : '\n' ∉ text
  noSpaceBefore : hasPair isBlankSpace isBreak text = false
  noSpaceAfter : hasPair isBreak isBlankSpace text = false

/-- What has been read since the last word fits the place: spaces on a line, or line ends before the
start of one, of which the first one is kept. -/
def FitsGap (gap : Gap) (atStart : Bool) (spot : Spot) (text : Text) : Prop :=
  if atStart then
    ∃ first more, gap = .lines (some first) more ∧ first ≠ '\n' ∧ text.head? ≠ some ' '
  else ∃ blanks, gap = .blanks blanks ∧ spot.column ≠ 0 ∧
    (blanks ≠ [] → ∀ c ∈ text.head?, isBreak c = false)

theorem IsSingle.tail {c : Char} {rest : Text} (h : IsSingle (c :: rest)) : IsSingle rest :=
  ⟨fun d hd => h.gaps d (List.mem_cons_of_mem _ hd), fun hd => h.noFeed (List.mem_cons_of_mem _ hd),
    (hasPair_cons h.noSpaceBefore).1, (hasPair_cons h.noSpaceAfter).1⟩

/-- The spaces at the start of a line are dropped. -/
theorem FitsGap.singleFrom_indent {gap : Gap} {atStart : Bool} {spot : Spot} {text : Text}
    (h : FitsGap gap atStart spot text) (indent : Nat) (done rest : Text) :
    singleFrom gap done (spot.source ((if atStart then spaces indent else []) ++ rest)) =
      singleFrom gap done ((spot.after (if atStart then spaces indent else [])).source rest) := by
  cases atStart with
  | false => rfl
  | true =>
    obtain ⟨first, more, rfl, -, -⟩ := h
    exact singleFrom_spaces _ _ _ _ _ _

/-- A line end is kept with the gap. -/
theorem FitsGap.push_break {gap : Gap} {atStart : Bool} {spot : Spot} {c : Char} {rest : Text}
    (h : FitsGap gap atStart spot (c :: rest)) (hsingle : IsSingle (c :: rest))
    (hc : isBreak c = true) :
    FitsGap (gap.push c) true (spot.next c) rest ∧ (gap.push c).text = gap.text ++ [c] := by
  have hfeed : c ≠ '\n' := fun heq => hsingle.noFeed (heq ▸ List.mem_cons_self)
  have hhead : rest.head? ≠ some ' ' := by
    intro hhead
    exact absurd ((hasPair_cons hsingle.noSpaceAfter).2 ' ' hhead hc) (by decide)
  cases atStart with
  | true =>
    obtain ⟨first, more, rfl, hfirst, -⟩ := h
    simp only [Gap.push, hc, if_true]
    exact ⟨⟨first, more ++ [c], rfl, hfirst, hhead⟩, by simp [Gap.text, hfirst]⟩
  | false =>
    obtain ⟨blanks, rfl, -, hblanks⟩ := h
    cases blanks with
    | nil =>
      simp only [Gap.push, hc, if_true]
      exact ⟨⟨c, [], rfl, hfeed, hhead⟩, by simp [Gap.text, hfeed]⟩
    | cons d blanks =>
      have hnot := hblanks (by simp) c rfl
      exact absurd (hc.symm.trans hnot) (by decide)

/-- A space between two words is kept with the gap. -/
theorem FitsGap.push_space {gap : Gap} {spot : Spot} {rest : Text}
    (h : FitsGap gap false spot (' ' :: rest)) (hsingle : IsSingle (' ' :: rest)) :
    FitsGap (gap.push ' ') false (spot.next ' ') rest ∧
      (gap.push ' ').text = gap.text ++ [' '] := by
  obtain ⟨blanks, rfl, -, -⟩ := h
  have hpush : (Gap.blanks blanks).push ' ' = .blanks (blanks ++ [' ']) := by
    simp [Gap.push, isBreak]
  have hspot : spot.next ' ' = ⟨spot.index + 1, spot.line, spot.column + 1⟩ :=
    Spot.next_of_not_break spot (by decide)
  rw [hpush]
  refine ⟨⟨_, rfl, by simp [hspot], fun _ c hc => ?_⟩, rfl⟩
  exact (hasPair_cons hsingle.noSpaceBefore).2 c hc (by decide)

/-- A word does not stand at the start of a line, and there is no gap after it. -/
theorem FitsGap.word {gap : Gap} {atStart : Bool} {spot : Spot} {c : Char} {rest : Text}
    (h : FitsGap gap atStart spot (c :: rest)) (hc : isBreak c = false) {indent : Nat}
    (hindent : atStart = true → indent ≠ 0) :
    (spot.after (if atStart then spaces indent else [])).column ≠ 0 ∧
      FitsGap .empty false ((spot.after (if atStart then spaces indent else [])).after
        (if c = '\'' then ['\'', '\''] else [c])) rest := by
  have hcolumn : (spot.after (if atStart then spaces indent else [])).column ≠ 0 := by
    cases atStart with
    | true =>
      have hpos := hindent rfl
      rw [if_pos rfl, Spot.after_spaces]
      dsimp only
      omega
    | false =>
      obtain ⟨-, -, hcolumn, -⟩ := h
      exact hcolumn
  have hword : ∀ d ∈ (if c = '\'' then ['\'', '\''] else [c]), isBreak d = false := by
    split
    · simp [isBreak]
    · simpa using hc
  refine ⟨hcolumn, [], rfl, ?_, fun hne => absurd rfl hne⟩
  rw [Spot.after_of_not_break _ hword]
  dsimp only
  omega

/-- A scalar in single quotes is read to its end. -/
theorem singleFrom_afterQuote {indent : Nat} {text : Text} (h : IsSingle text) {atStart : Bool}
    (hindent : (atStart = true ∨ ∃ c ∈ text, isBreak c = true) → indent ≠ 0) {gap : Gap}
    {spot : Spot} (hgap : FitsGap gap atStart spot text) (done : Text) {rest : Text}
    (hrest : rest.head? ≠ some '\'') :
    singleFrom gap done (spot.source (afterQuote indent atStart text ++ rest)) =
      .ok (done.reverse ++ gap.text ++ text,
        (spot.after (afterQuote indent atStart text)).source rest) := by
  induction text generalizing atStart gap spot done with
  | nil =>
    have hclose : afterQuote indent atStart [] =
        (if atStart then spaces indent else []) ++ ['\''] := rfl
    rw [hclose, List.append_assoc, hgap.singleFrom_indent, List.singleton_append,
      singleFrom_quote _ _ _ hrest, Spot.after_append, List.append_nil]
    rfl
  | cons c text ih =>
    have hindent' : (∃ d ∈ text, isBreak d = true) → indent ≠ 0 := by
      intro ⟨d, hd, hbreak⟩
      exact hindent (.inr ⟨d, List.mem_cons_of_mem _ hd, hbreak⟩)
    cases hbreak : isBreak c with
    | true =>
      have hc : isGap c = true := by rw [isGap, hbreak, Bool.or_true]
      have hpos := hindent (.inr ⟨c, List.mem_cons_self, hbreak⟩)
      obtain ⟨hnext, htext⟩ := hgap.push_break h hbreak
      rw [afterQuote_break indent atStart text hbreak, List.cons_append, Spot.source_cons,
        singleFrom.eq_def]
      simp only [Spot.placed_char, hc, if_true]
      rw [ih h.tail (fun _ => hpos) hnext done, htext]
      simp
    | false =>
      rw [afterQuote_cons indent atStart text hbreak, List.append_assoc, hgap.singleFrom_indent]
      cases hc : isGap c with
      | true =>
        obtain rfl : c = ' ' := (h.gaps c List.mem_cons_self hc).resolve_right (by simp [hbreak])
        cases atStart with
        | true =>
          obtain ⟨-, -, -, -, hhead⟩ := hgap
          exact absurd rfl hhead
        | false =>
          obtain ⟨hnext, htext⟩ := hgap.push_space h
          have hquote : (if ' ' = '\'' then ['\'', '\''] else [' ']) = [' '] := rfl
          simp only [Bool.false_eq_true, if_false, Spot.after_nil, hquote, List.nil_append,
            List.cons_append, Spot.source_cons, Spot.after_cons]
          rw [singleFrom.eq_def]
          simp only [Spot.placed_char, hc, if_true]
          rw [ih h.tail (by simpa using hindent') hnext done, htext]
          simp
      | false =>
        obtain ⟨hcolumn, hnext⟩ := hgap.word hbreak fun hstart => hindent (.inl hstart)
        rw [List.append_assoc, singleFrom_word _ _ _ _ hc hcolumn,
          ih h.tail (by simpa using hindent') hnext, Spot.after_append, Spot.after_append]
        simp [Gap.empty, Gap.text]

/-- A text that can be written in single quotes is read from them. -/
theorem readSingle_singleQuoted {text : Text} (h : isSingleQuotable text = true)
    (hfeed : '\n' ∉ text) {indent : Nat}
    (hindent : (∃ c ∈ text, isBreak c = true) → indent ≠ 0) (spot : Spot)
    {rest : Text} (hrest : rest.head? ≠ some '\'') :
    readSingle ((spot.next '\'').source (afterQuote indent false text ++ rest)) =
      .ok (text, (spot.after ('\'' :: afterQuote indent false text)).source rest) := by
  rw [isSingleQuotable, needsEscape, Bool.not_eq_true'] at h
  simp only [Bool.or_eq_false_iff, Bool.not_eq_false'] at h
  obtain ⟨⟨hwritten, hbefore⟩, hafter⟩ := h
  have hsingle : IsSingle text := by
    refine ⟨?_, hfeed, hbefore, hafter⟩
    intro c hc hgap
    rw [isGap, isSpace, Bool.or_eq_true, Bool.or_eq_true, decide_eq_true_iff,
      decide_eq_true_iff] at hgap
    rcases hgap with (hspace | htab) | hbreak
    · exact .inl hspace
    · exact absurd htab (ne_of_written (List.all_eq_true.mp hwritten c hc) (by decide))
    · exact .inr hbreak
  have hfits : FitsGap .empty false (spot.next '\'') text := by
    refine ⟨[], rfl, ?_, fun hne => absurd rfl hne⟩
    rw [Spot.next_of_not_break spot (by decide)]
    simp
  exact singleFrom_afterQuote hsingle (by simpa using hindent) hfits [] hrest

end Quoted

/-! ## Escapes -/

namespace Escape

/-- A capital hexadecimal digit has the value that it is written for. -/
theorem digitValue?_hexDigit (n : Nat) :
    Text.digitValue? (Text.hexDigit n).toUpper = some (n % 16) := by
  have hall : ∀ m < 16, Text.digitValue? (Text.hexDigit m).toUpper = some m := by decide
  have hmod : Text.hexDigit n = Text.hexDigit (n % 16) := by
    rw [Text.hexDigit, Text.hexDigit, Nat.mod_mod]
  rw [hmod]
  exact hall _ (Nat.mod_lt n (by decide))

/-- Digits stand in a line. -/
theorem isInLine_digits (count n : Nat) : ∀ c ∈ digits count n, IsInLine c := by
  have hall : ∀ m < 16, isWrittenPlainly (Text.hexDigit m).toUpper = true ∧
      isBreak (Text.hexDigit m).toUpper = false := by decide
  induction count generalizing n with
  | zero => simp [digits]
  | succ count ih =>
    intro c hc
    rw [digits, List.mem_append, List.mem_singleton] at hc
    rcases hc with hc | rfl
    · exact ih _ c hc
    · have hmod : Text.hexDigit n = Text.hexDigit (n % 16) := by
        rw [Text.hexDigit, Text.hexDigit, Nat.mod_mod]
      rw [hmod]
      exact hall _ (Nat.mod_lt n (by decide))

theorem length_digits (count n : Nat) : (digits count n).length = count := by
  induction count generalizing n with
  | zero => rfl
  | succ count ih => rw [digits, List.length_append, ih]; rfl

/-- So many digits stand for each number that is small enough. -/
theorem number?_digits {count n : Nat} (h : n < 16 ^ count) :
    number? (digits count n) = some n := by
  unfold number?
  induction count generalizing n with
  | zero =>
    obtain rfl : n = 0 := by omega
    rfl
  | succ count ih =>
    have hhigh : n / 16 < 16 ^ count := by
      rw [Nat.pow_succ] at h
      omega
    have hlow : n % 16 < 16 := Nat.mod_lt n (by decide)
    have hsum : n / 16 * 16 + n % 16 = n := by omega
    rw [digits, List.foldlM_append, ih hhigh]
    simp [digitValue?_hexDigit, hlow, hsum]

/-- A number after a letter that says how many digits it has. -/
theorem read?_digits {letter : Char} (hname : (named ++ readOnly).lookup letter = none)
    (hcount : digitCount letter ≠ 0) {c : Char} (h : c.toNat < 16 ^ digitCount letter) (spot : Spot)
    (rest : Text) :
    read? letter (spot.source (digits (digitCount letter) c.toNat ++ rest)) =
      some (c, digitCount letter) := by
  have htake : ((spot.source (digits (digitCount letter) c.toNat ++ rest)).take
      (digitCount letter)).map (·.char) = digits (digitCount letter) c.toNat := by
    have hlength : (spot.source (digits (digitCount letter) c.toNat)).length =
        digitCount letter := by
      rw [Spot.length_source, length_digits]
    rw [Spot.source_append, List.take_left' hlength, Spot.map_char_source]
  have hchar : Char.ofNat c.toNat = c := Char.ofNat_toNat c
  have hvalid : c.toNat.isValidChar := c.valid
  rw [read?, hname]
  simp only [htake, length_digits, number?_digits h, hcount, Nat.lt_irrefl, or_self, if_false,
    if_pos hvalid, hchar]

/-- The escape of a character stands in a line and is read back. -/
theorem exists_write (c : Char) : ∃ letter digits, write c = '\\' :: letter :: digits ∧
    (∀ d ∈ letter :: digits, IsInLine d) ∧ ∀ (spot : Spot) (rest : Text),
      read? letter (spot.source (digits ++ rest)) = some (c, digits.length) := by
  have hall : ∀ entry ∈ named, (named ++ readOnly).lookup entry.1 = some entry.2 ∧
      isWrittenPlainly entry.1 = true ∧ isBreak entry.1 = false := by decide
  have hnumber (letter : Char) (hname : (named ++ readOnly).lookup letter = none)
      (hcount : digitCount letter ≠ 0) (hletter : IsInLine letter)
      (hc : c.toNat < 16 ^ digitCount letter) :
      ∃ letter' digits', '\\' :: letter :: digits (digitCount letter) c.toNat =
          '\\' :: letter' :: digits' ∧ (∀ d ∈ letter' :: digits', IsInLine d) ∧
        ∀ (spot : Spot) (rest : Text),
          read? letter' (spot.source (digits' ++ rest)) = some (c, digits'.length) := by
    refine ⟨letter, _, rfl, ?_, ?_⟩
    · exact List.forall_mem_cons.mpr ⟨hletter, isInLine_digits _ _⟩
    · intro spot rest
      rw [length_digits]
      exact read?_digits hname hcount hc spot rest
  unfold write
  split
  · next letter named hfind =>
    obtain ⟨hlookup, hletter⟩ := hall _ (List.mem_of_find?_eq_some hfind)
    have hname := List.find?_some hfind
    obtain rfl : named = c := by simpa using hname
    refine ⟨letter, [], rfl, List.forall_mem_cons.mpr ⟨hletter, by simp⟩, ?_⟩
    intro spot rest
    rw [read?, hlookup]
    rfl
  split
  · next hle =>
    exact hnumber 'x' (by decide) (by decide) ⟨by decide, by decide⟩ (Nat.lt_succ_of_le hle)
  split
  · next hle =>
    exact hnumber 'u' (by decide) (by decide) ⟨by decide, by decide⟩ (Nat.lt_succ_of_le hle)
  · exact hnumber 'U' (by decide) (by decide) ⟨by decide, by decide⟩ c.val.toNat_lt

end Escape

/-! ## Double quotes -/

/-- A character in double quotes. -/
def inQuotes (c : Char) : Text := if standsInQuotes c then [c] else Escape.write c

theorem doubleQuoted_eq (text : Text) :
    doubleQuoted text = '"' :: (text.flatMap inQuotes ++ ['"']) :=
  rfl

/-- What stands in double quotes stands in a line. -/
theorem isInLine_inQuotes (c : Char) : ∀ d ∈ inQuotes c, IsInLine d := by
  unfold inQuotes
  split
  · next h =>
    simp only [standsInQuotes, Bool.and_eq_true, Bool.not_eq_true'] at h
    simpa [IsInLine] using h.1.1
  · obtain ⟨letter, digits, hwrite, hline, -⟩ := Escape.exists_write c
    rw [hwrite]
    exact List.forall_mem_cons.mpr ⟨⟨by decide, by decide⟩, hline⟩

namespace Quoted

/-- The characters of an escape are passed over. -/
theorem doubleFrom_skipped (digits : Text) (gap : Gap) (done : Text) (spot : Spot) (rest : Text) :
    doubleFrom digits.length gap done (spot.source (digits ++ rest)) =
      doubleFrom 0 gap done ((spot.after digits).source rest) := by
  induction digits generalizing spot with
  | nil => rfl
  | cons c digits ih => exact ih (spot.next c)

/-- A scalar in double quotes is read to its end. -/
theorem doubleFrom_inQuotes (text blanks done rest : Text) {spot : Spot}
    (hcolumn : spot.column ≠ 0) :
    doubleFrom 0 (.blanks blanks) done (spot.source (text.flatMap inQuotes ++ '"' :: rest)) =
      .ok (done.reverse ++ blanks ++ text,
        ((spot.after (text.flatMap inQuotes)).next '"').source rest) := by
  have hmark (q : Char) {spot : Spot} (hcolumn : spot.column ≠ 0) (rest : Source) :
      Source.atMark (spot.placed q :: rest) = false := Lexer.not_atMark_of_column rest hcolumn
  induction text generalizing blanks done spot with
  | nil =>
    have hgap : isGap '"' = false := by decide
    rw [List.flatMap_nil, List.nil_append, Spot.source_cons, doubleFrom.eq_def]
    simp [hgap, hmark _ hcolumn, Gap.text]
  | cons c text ih =>
    have hline := isInLine_inQuotes c
    have hnext : (spot.after (inQuotes c)).column ≠ 0 := by
      rw [Spot.after_of_not_break _ fun d hd => (hline d hd).2]
      dsimp only
      omega
    rw [List.flatMap_cons, Spot.after_append]
    by_cases hstands : standsInQuotes c = true
    · have hquoted : inQuotes c = [c] := if_pos hstands
      rw [hquoted] at hnext ⊢
      simp only [standsInQuotes, Bool.and_eq_true, Bool.not_eq_true', decide_eq_true_eq] at hstands
      obtain ⟨⟨⟨hwritten, hbreak⟩, hquote⟩, hslash⟩ := hstands
      simp only [List.cons_append, List.nil_append, Spot.source_cons, Spot.after_cons,
        Spot.after_nil] at hnext ⊢
      rw [doubleFrom.eq_def]
      cases hgap : isGap c with
      | true =>
        have hpush : (Gap.blanks blanks).push c = .blanks (blanks ++ [c]) := by
          simp [Gap.push, hbreak]
        simp only [Spot.placed_char, hgap, if_true, hpush]
        rw [ih _ _ hnext]
        simp
      | false =>
        simp only [Spot.placed_char, hgap, hmark _ hcolumn, hquote, hslash, Bool.false_eq_true,
          if_false]
        rw [Gap.empty, ih _ _ hnext]
        simp [Gap.text]
    · have hquoted : inQuotes c = Escape.write c := if_neg hstands
      obtain ⟨letter, digits, hwrite, hline, hread⟩ := Escape.exists_write c
      have hletter := (hline letter List.mem_cons_self).2
      have hgap : isGap '\\' = false := by decide
      rw [hquoted, hwrite] at hnext ⊢
      simp only [List.cons_append, List.append_assoc, Spot.source_cons, Spot.after_cons] at hnext ⊢
      rw [doubleFrom.eq_def]
      simp only [Spot.placed_char, hgap, hmark _ hcolumn, hletter, Bool.false_eq_true, if_false]
      simp only [hread, if_true, if_false, Char.reduceEq]
      rw [doubleFrom_skipped, Gap.empty, ih _ _ hnext]
      simp [Gap.text]

/-- A text in double quotes is read from them. -/
theorem readDouble_doubleQuoted (text : Text) (spot : Spot) (rest : Text) :
    readDouble ((spot.next '"').source (text.flatMap inQuotes ++ ['"'] ++ rest)) =
      .ok (text, (spot.after ('"' :: (text.flatMap inQuotes ++ ['"']))).source rest) := by
  have hcolumn : (spot.next '"').column ≠ 0 := by
    rw [Spot.next_of_not_break spot (by decide)]
    simp
  have hread := doubleFrom_inQuotes text [] [] rest hcolumn
  simpa [readDouble, Gap.empty, Spot.after_append] using hread

end Quoted
end HostKit.Yaml
