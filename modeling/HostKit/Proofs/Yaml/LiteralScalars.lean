import HostKit.Proofs.Yaml.PlainScalars

/-!
# Literal scalars as they are written

A literal scalar keeps its text as it stands after the indentation. The indentation is told by a
digit if the text itself starts with a blank or an empty line, and by its first line otherwise; what
is done to the line ends at its end is told by a sign. The text read so far is always there in three
parts: the lines that are complete but for the end of the last one, that line end, and the empty
lines after it.
-/

namespace HostKit.Yaml

namespace Block

/-! ## Lines of text -/

/-- A literal scalar after another character of its text. -/
def Progress.add (progress : Progress) (c : Char) : Progress :=
  if progress.inLine then
    if isBreak c then { progress with lineEnd := some c, inLine := false }
    else { progress with done := c :: progress.done }
  else if isBreak c then { progress with emptyLines := progress.emptyLines ++ [c] }
  else
    ⟨c :: ((between true progress (isSpace c)).reverse ++ progress.done), none, [], isSpace c, true⟩

/-- Before any text is read. -/
def Progress.start : Progress := ⟨[], none, [], false, false⟩

/-- Only a line end ends a line. -/
theorem Progress.inLine_add (progress : Progress) (c : Char) :
    (progress.add c).inLine = !isBreak c := by
  unfold add
  split
  · split
    · next h => rw [h]; rfl
    · next hline h => simp [hline, h]
  · split
    · next hline h => simp [hline, h]
    · next h => simp [h]

/-- What has been read is a text. -/
structure Progress.Holds (progress : Progress) (text : Text) : Prop where
  whole : progress.done.reverse ++ (progress.lineEnd.toList ++ progress.emptyLines) = text
  inLine : progress.inLine = true → progress.lineEnd = none ∧ progress.emptyLines = []

theorem Progress.Holds.add {progress : Progress} {text : Text} (h : progress.Holds text)
    (c : Char) :
    (progress.add c).Holds (text ++ [c]) := by
  obtain ⟨hwhole, hline⟩ := h
  unfold Progress.add
  split
  · next hin =>
    obtain ⟨hend, hempty⟩ := hline hin
    rw [hend, hempty] at hwhole
    split
    · refine ⟨?_, fun h => Bool.noConfusion h⟩
      simpa [hempty] using hwhole
    · refine ⟨?_, fun _ => ⟨hend, hempty⟩⟩
      simpa [hend, hempty] using hwhole
  · next hin =>
    split
    · refine ⟨?_, fun h => absurd h hin⟩
      simpa using congrArg (· ++ [c]) hwhole
    · refine ⟨?_, fun _ => ⟨rfl, rfl⟩⟩
      simpa [between] using congrArg (· ++ [c]) hwhole

/-- A text that is read character by character is there in its parts. -/
theorem Progress.Holds.foldl {progress : Progress} {before : Text} (h : progress.Holds before)
    (text : Text) : (text.foldl Progress.add progress).Holds (before ++ text) := by
  induction text generalizing progress before with
  | nil => simpa using h
  | cons c text ih => simpa using ih (h.add c)

theorem Progress.holds_start : Progress.start.Holds [] := ⟨rfl, fun h => Bool.noConfusion h⟩

/-- A line ends with each line end. -/
theorem Progress.not_inLine_foldl (progress : Progress) {text : Text}
    (h : endsWith isBreak text = true) :
    (text.foldl Progress.add progress).inLine = false := by
  induction text generalizing progress with
  | nil => exact absurd h (by decide)
  | cons c text ih =>
    cases text with
    | nil =>
      have hc : isBreak c = true := by simpa [endsWith] using h
      rw [List.foldl_cons, List.foldl_nil, inLine_add, hc]
      rfl
    | cons d text => exact ih (progress.add c) (by simpa [endsWith, List.getLast?_cons] using h)

/-! ## Reading lines -/

variable {indent : Nat}

/-- The spaces of the indentation are dropped. -/
theorem readFrom_spaces {progress : Progress} (hline : progress.inLine = false) (spot : Spot)
    (count : Nat) (hcount : spot.column + count ≤ indent) (rest : Text) :
    readFrom true indent progress (spot.source (spaces count ++ rest)) =
      readFrom true indent progress ((spot.after (spaces count)).source rest) := by
  induction count generalizing spot with
  | zero => rfl
  | succ count ih =>
    have hcolumn : spot.column < indent := by omega
    have hnext : spot.next ' ' = ⟨spot.index + 1, spot.line, spot.column + 1⟩ :=
      Spot.next_of_not_break spot (by decide)
    have hrest := ih (spot.next ' ') (by rw [hnext]; dsimp only; omega)
    simp only [spaces, List.replicate_succ, List.cons_append, Spot.source_cons, Spot.after_cons]
    rw [← spaces, ← hrest, readFrom, hline]
    simp [hcolumn]

/-- A character of the text, after the indentation if it starts a line. -/
theorem readFrom_add (progress : Progress) {spot : Spot} {c : Char} (hc : c ≠ '\t')
    (hspot : progress.inLine = false → spot.column = 0) (text rest : Text) :
    readFrom true indent progress
      (spot.source (indentLines indent (!progress.inLine) (c :: text) ++ rest)) =
      readFrom true indent (progress.add c)
        ((spot.after (indentLines indent (!progress.inLine) [c])).source
          (indentLines indent (!(progress.add c).inLine) text ++ rest)) := by
  rw [Progress.inLine_add, Bool.not_not]
  cases hbreak : isBreak c with
  | true =>
    simp only [indentLines, hbreak, if_true, List.cons_append, Spot.source_cons, Spot.after_cons,
      Spot.after_nil]
    have hspace : c ≠ ' ' := by
      intro heq
      rw [heq] at hbreak
      exact absurd hbreak (by decide)
    rw [readFrom]
    cases hline : progress.inLine with
    | true => simp [Progress.add, hline, hbreak]
    | false => simp [Progress.add, hline, hbreak, hspace, hc]
  | false =>
    cases hline : progress.inLine with
    | true =>
      simp only [indentLines, hbreak, Bool.not_true, Bool.false_eq_true, if_false, List.nil_append,
        List.cons_append, Spot.source_cons, Spot.after_cons, Spot.after_nil]
      rw [readFrom]
      simp [Progress.add, hline, hbreak]
    | false =>
      have hcolumn := hspot hline
      simp only [indentLines, hbreak, Bool.not_false, Bool.false_eq_true, if_false, if_true,
        List.append_assoc, List.cons_append, Spot.after_append]
      rw [readFrom_spaces hline spot indent (by omega), Spot.source_cons, readFrom, hline]
      have hindent : (spot.after (spaces indent)).column = indent := by
        rw [Spot.after_spaces, hcolumn, Nat.zero_add]
      simp [Progress.add, hline, hbreak, hindent, hc]

/-- A text is indented line by line. -/
theorem indentLines_cons (atStart : Bool) (c : Char) (text : Text) :
    indentLines indent atStart (c :: text) =
      indentLines indent atStart [c] ++ indentLines indent (isBreak c) text := by
  cases hbreak : isBreak c with
  | true => simp [indentLines, hbreak]
  | false => simp [indentLines, hbreak]

/-- A text is read line by line. -/
theorem readFrom_indentLines {text : Text} (htab : '\t' ∉ text) (progress : Progress) {spot : Spot}
    (hspot : progress.inLine = false → spot.column = 0) (rest : Text) :
    readFrom true indent progress
      (spot.source (indentLines indent (!progress.inLine) text ++ rest)) =
      readFrom true indent (text.foldl Progress.add progress)
        ((spot.after (indentLines indent (!progress.inLine) text)).source rest) := by
  induction text generalizing progress spot with
  | nil => rfl
  | cons c text ih =>
    have hc : c ≠ '\t' := fun heq => htab (heq ▸ List.mem_cons_self)
    have hinLine := Progress.inLine_add progress c
    have hnext : (progress.add c).inLine = false →
        (spot.after (indentLines indent (!progress.inLine) [c])).column = 0 := by
      intro hline
      have hbreak : isBreak c = true := by simpa [hinLine] using hline
      simp [indentLines, hbreak, Spot.next_of_break spot hbreak]
    rw [readFrom_add progress hc hspot,
      ih (fun h => htab (List.mem_cons_of_mem _ h)) (progress.add c) hnext, hinLine, Bool.not_not,
      ← Spot.after_append, ← indentLines_cons, List.foldl_cons]

/-- The text ends before a line that is not indented deeply enough. -/
theorem readFrom_outside {inner : Nat} {rest : Text} (h : IsOutside inner rest)
    (hindent : inner ≤ indent) {progress : Progress} (hline : progress.inLine = false) {spot : Spot}
    (hspot : spot.column = 0) :
    ∃ left, readFrom true indent progress (spot.source rest) = .ok (progress, left) ∧
      Lexer.skipFrom false false true left =
          Lexer.skipFrom false false true (spot.source rest) := by
  obtain rfl | ⟨column, c, more, rfl, hstart, hlt⟩ := h
  · exact ⟨[], rfl, rfl⟩
  · have hgap := not_isGap_of_isStart hstart
    refine ⟨(spot.after (spaces column)).source (c :: more), ?_, ?_⟩
    · have hcolumn : (spot.after (spaces column)).column ≠ indent := by
        rw [Spot.after_spaces]
        dsimp only
        omega
      rw [readFrom_spaces hline spot column (by omega), Spot.source_cons, readFrom, hline]
      simp [ne_space_of_not_isGap hgap, ne_tab_of_not_isGap hgap, not_isBreak_of_not_isGap hgap,
        hcolumn]
    · rw [Lexer.skipFrom_spaces]

/-! ## The first line -/

/-- The sign after the mark and what it asks for. -/
def Signs (sign : Text) (chomping : Chomping) : Prop :=
  sign = [] ∧ chomping = .clip ∨ sign = ['-'] ∧ chomping = .strip ∨ sign = ['+'] ∧ chomping = .keep

/-- The line ends at the end of a text are those that the sign asks for. -/
theorem exists_chomping {text : Text} (hne : text ≠ []) :
    ∃ chomping, Signs (chompingSign text) chomping ∧
    ((endLine text).foldl Progress.add .start).text chomping = text := by
  obtain ⟨last, before, hreverse⟩ :=
    List.exists_cons_of_ne_nil (fun h => hne (List.reverse_eq_nil_iff.mp h))
  have htext : text = before.reverse ++ [last] := by
    rw [← List.reverse_reverse text, hreverse, List.reverse_cons]
  have hholds := Progress.holds_start.foldl text
  have hlast : text.foldl Progress.add .start =
      (before.reverse.foldl Progress.add .start).add last := by
    rw [htext, List.foldl_append]
    rfl
  have hends : endsWith isBreak text = isBreak last := by simp [endsWith, htext]
  rw [List.nil_append] at hholds
  unfold chompingSign endLine
  rw [hreverse, hends]
  dsimp only
  cases hbreak : isBreak last with
  | false =>
    refine ⟨.strip, .inr (.inl ⟨rfl, rfl⟩), ?_⟩
    have hline : (text.foldl Progress.add .start).inLine = true := by
      rw [hlast, Progress.inLine_add, hbreak]
      rfl
    obtain ⟨hend, hempty⟩ := hholds.inLine hline
    have hwhole := hholds.whole
    rw [hend, hempty] at hwhole
    have hfeed : isBreak '\n' = true := by decide
    simpa [Progress.text, Progress.add, hline, hfeed] using hwhole
  | true =>
    cases hall : before.head?.all isBreak with
    | true => exact ⟨.keep, .inr (.inr ⟨rfl, rfl⟩), hholds.whole⟩
    | false =>
      refine ⟨.clip, .inl ⟨rfl, rfl⟩, ?_⟩
      cases before with
      | nil => exact absurd hall (by decide)
      | cons d before =>
        have hd : isBreak d = false := hall
        have hline : ((d :: before).reverse.foldl Progress.add .start).inLine = true := by
          rw [List.reverse_cons, List.foldl_append, List.foldl_cons, List.foldl_nil,
            Progress.inLine_add, hd]
          rfl
        obtain ⟨-, hempty⟩ := (Progress.holds_start.foldl (d :: before).reverse).inLine hline
        have hnone : (text.foldl Progress.add .start).emptyLines = [] := by
          rw [hlast, Progress.add, if_pos hline, if_pos hbreak, hempty]
        have hwhole := hholds.whole
        rw [hnone, List.append_nil] at hwhole
        exact hwhole

/-- The marks on the first line are read back. -/
theorem splitHeader_source {sign : Text} {chomping : Chomping} (h : Signs sign chomping)
    (deep : Bool) (spot : Spot) (rest : Text) :
    splitHeader (spot.source
      ((if deep then Text.ofNat indentStep else []) ++ (sign ++ '\n' :: rest))) =
      (⟨chomping, if deep then some indentStep else none⟩,
        (spot.after ((if deep then Text.ofNat indentStep else []) ++ sign)).source
        ('\n' :: rest)) := by
  have hdepth : Text.ofNat indentStep = ['2'] := rfl
  rw [hdepth]
  obtain ⟨rfl, rfl⟩ | ⟨rfl, rfl⟩ | ⟨rfl, rfl⟩ := h
  · cases deep with
    | true => rfl
    | false => rfl
  · cases deep with
    | true => rfl
    | false => rfl
  · cases deep with
    | true => rfl
    | false => rfl

/-- The first line with text on it tells the indentation. -/
theorem deepest_spaces {column : Nat} {spot : Spot} (hcolumn : spot.column ≤ column) (count : Nat)
    {c : Char} (hc : c ≠ '\t' ∧ c ≠ ' ' ∧ isBreak c = false) (rest : Text) :
    deepest column (spot.source (spaces count ++ c :: rest)) =
      .ok (max column (spot.column + count)) := by
  induction count generalizing column spot with
  | zero =>
    have hmax : max column spot.column = column := Nat.max_eq_left hcolumn
    simp [spaces, deepest, hc.1, hc.2.1, hc.2.2, hmax]
  | succ count ih =>
    have hnext : spot.next ' ' = ⟨spot.index + 1, spot.line, spot.column + 1⟩ :=
      Spot.next_of_not_break spot (by decide)
    have hle : (spot.next ' ').column ≤ max column (spot.column + 1) := by
      rw [hnext]
      exact Nat.le_max_right _ _
    have hrest := ih hle
    rw [hnext] at hrest
    simp only [spaces, List.replicate_succ, List.cons_append, Spot.source_cons]
    rw [← spaces, deepest]
    simp only [Spot.placed_char, Spot.placed_column, if_true, Char.reduceEq, if_false, hnext, hrest,
      Except.ok.injEq]
    omega

/-- Whether the text itself starts with a blank or an empty line. -/
def startsDeep (text : Text) : Bool := text.head?.any fun c => c = ' ' || isBreak c

/-- The document from a literal scalar on, without its mark. -/
def afterBar (indent : Nat) (text : Text) : Text :=
  (if startsDeep text then Text.ofNat indentStep else []) ++
    (chompingSign text ++ '\n' :: indentLines indent true (endLine text))

/-- A line end is written without spaces. -/
theorem indentLines_append_break (atStart : Bool) (text : Text) {c : Char} (hc : isBreak c = true) :
    indentLines indent atStart (text ++ [c]) = indentLines indent atStart text ++ [c] := by
  induction text generalizing atStart with
  | nil => simp [indentLines, hc]
  | cons d text ih =>
    rw [List.cons_append, indentLines_cons, ih, indentLines_cons atStart d text, List.append_assoc]

/-- The lines end as the text does. -/
theorem getLast?_indentLines (atStart : Bool) (text : Text) :
    (indentLines indent atStart text).getLast? = text.getLast? := by
  induction text generalizing atStart with
  | nil => rfl
  | cons c text ih =>
    have hlast : (indentLines indent atStart [c]).getLast? = some c := by
      cases hc : isBreak c with
      | true => simp [indentLines, hc]
      | false => simp [indentLines, hc]
    rw [indentLines_cons, List.getLast?_append, ih, hlast, List.getLast?_cons]
    cases text.getLast? with
    | none => rfl
    | some d => rfl

theorem endLine_literal (indent : Nat) {text : Text} (hne : text ≠ []) :
    endLine (literal indent text) = '|' :: afterBar indent text := by
  have hliteral : literal indent text = '|' ::
      ((if startsDeep text then Text.ofNat indentStep else []) ++
        (chompingSign text ++ '\n' :: indentLines indent true text)) := by
    simp only [literal, startsDeep, List.append_assoc]
    rfl
  have hends : endsWith isBreak (literal indent text) = endsWith isBreak text := by
    obtain ⟨d, hlast⟩ : ∃ d, text.getLast? = some d :=
      ⟨_, List.getLast?_eq_some_getLast hne⟩
    have hlines := (@getLast?_indentLines indent true text).trans hlast
    simp [endsWith, hliteral, List.getLast?_cons, List.getLast?_append, hlines, hlast]
  have hfeed : isBreak '\n' = true := by decide
  rw [afterBar, endLine, endLine, hends]
  split
  · exact hliteral
  · rw [hliteral, indentLines_append_break true text hfeed]
    simp

/-- The indentation is told by the first line if there is no digit. -/
theorem deepest_endLine {text : Text} (hne : text ≠ []) (htab : '\t' ∉ text)
    (hdeep : startsDeep text = false) {inner : Nat} (hindent : indent = inner - 1 + indentStep)
    {first : Spot} (hfirst : first.column = 0) (rest : Text) :
    (deepest 0 (first.source (indentLines indent true (endLine text) ++ rest))).map
      (fun column => max column (max inner 1)) = .ok indent := by
  obtain ⟨c, more, rfl⟩ := List.exists_cons_of_ne_nil hne
  have hc : c ≠ '\t' ∧ c ≠ ' ' ∧ isBreak c = false := by
    refine ⟨fun heq => htab (heq ▸ List.mem_cons_self), ?_⟩
    simpa [startsDeep] using hdeep
  obtain ⟨later, hlater⟩ : ∃ later, endLine (c :: more) = c :: later := by
    unfold endLine
    split
    · exact ⟨_, rfl⟩
    · exact ⟨_, rfl⟩
  have hlines : indentLines indent true (c :: later) ++ rest =
      spaces indent ++ c :: (indentLines indent false later ++ rest) := by
    simp [indentLines, hc.2.2]
  have hmax : max (max 0 (0 + indent)) (max inner 1) = indent := by
    rw [hindent, indentStep]
    omega
  rw [hlater, hlines, deepest_spaces (Nat.le_of_eq hfirst) indent hc, hfirst]
  exact congrArg Except.ok hmax

/-- A text that can be written as a literal scalar is read from it. -/
theorem read_afterBar {text : Text} (h : isLiteralable text = true) (hne : text ≠ []) {inner : Nat}
    (hindent : indent = inner - 1 + indentStep) (spot : Spot) {rest : Text}
    (hrest : IsOutside inner rest) :
    ∃ left, Block.read true inner ((spot.next '|').source (afterBar indent text ++ rest)) =
      .ok (text, left) ∧
      Lexer.skipFrom false false true left = Lexer.skipFrom false false true
        ((spot.after ('|' :: afterBar indent text)).source rest) := by
  rw [isLiteralable, needsEscape, Bool.not_eq_true'] at h
  simp only [Bool.or_eq_false_iff, Bool.not_eq_false'] at h
  obtain ⟨⟨hwritten, -⟩, -⟩ := h
  have htab : '\t' ∉ text := fun h => absurd (List.all_eq_true.mp hwritten _ h) (by decide)
  have htab' : '\t' ∉ endLine text := by
    unfold endLine
    split
    · exact htab
    · simpa using htab
  obtain ⟨chomping, hsigns, htext⟩ := exists_chomping hne
  let header := (if startsDeep text then Text.ofNat indentStep else []) ++ chompingSign text
  let first := ((spot.next '|').after header).next '\n'
  have hfirst : first.column = 0 := congrArg Spot.column (Spot.next_of_break _ (by decide))
  have hsplit := splitHeader_source hsigns (startsDeep text) (spot.next '|')
    (indentLines indent true (endLine text) ++ rest)
  have hafter : spot.after ('|' :: afterBar indent text) =
      first.after (indentLines indent true (endLine text)) := by
    simp only [afterBar, Spot.after_cons, Spot.after_append, first, header]
  have hends : endsWith isBreak (indentLines indent true (endLine text)) = true := by
    rw [endsWith, getLast?_indentLines]
    exact endsWith_endLine text
  have hread := @readFrom_indentLines indent _ htab' .start _ (fun _ => hfirst) rest
  have hle : inner ≤ indent := by
    rw [hindent, indentStep]
    omega
  obtain ⟨left, hleft, hskip⟩ := readFrom_outside hrest hle
    (Progress.not_inLine_foldl .start (endsWith_endLine text)) (first.after_of_endsWith hends).1
  refine ⟨left, ?_, by rw [hafter, hskip]⟩
  have hline : Source.afterLine? (((spot.next '|').after header).source
      ('\n' :: (indentLines indent true (endLine text) ++ rest))) =
        some (first.source (indentLines indent true (endLine text) ++ rest)) := rfl
  have hresult : (readFrom true indent .start
      (first.source (indentLines indent true (endLine text) ++ rest)) >>= fun read =>
        .ok (read.1.text chomping, read.2)) = .ok (text, left) := by
    have hread' : readFrom true indent .start
        (first.source (indentLines indent true (endLine text) ++ rest)) = _ := hread.trans hleft
    rw [hread']
    exact congrArg (fun text => Except.ok (text, left)) htext
  rw [Block.read]
  simp only [afterBar, List.append_assoc, List.cons_append, hsplit]
  rw [hline]
  cases hdeep : startsDeep text with
  | true =>
    subst hindent
    exact hresult
  | false =>
    have hdeepest := deepest_endLine hne htab hdeep hindent hfirst rest
    simp only [Bool.false_eq_true, if_false, hdeepest]
    exact hresult

end Block
end HostKit.Yaml
