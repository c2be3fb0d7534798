import HostKit.Yaml.Character
import HostKit.Yaml.Source

/-!
# Places in written documents

The characters that are written as they are end lines in three ways only, and each of these is one
character that stays itself. So in a written document the place of a character is found by going
from one character to the next, and the source of two texts is the source of the first one followed
by that of the second one from the place where the first one ends.
-/

namespace HostKit.Yaml

/-! ## Written characters -/

/-- Each character of the text is written as it is. -/
def IsWritten (text : Text) : Prop := ∀ c ∈ text, isWrittenPlainly c = true

instance (text : Text) : Decidable (IsWritten text) :=
  List.decidableBAll _ text

/-- A character lies in one of the ranges exactly if its number lies in one. -/
theorem inRanges_iff {ranges : List (Nat × Nat)} {c : Char} :
    Text.inRanges ranges c = true ↔ ∃ range ∈ ranges, range.1 ≤ c.toNat ∧ c.toNat ≤ range.2 := by
  simp [Text.inRanges]

/-- The numbers of the characters that are written as they are. -/
theorem isWrittenPlainly_iff {c : Char} :
    isWrittenPlainly c = true ↔ c.toNat = 0xa ∨ 0x20 ≤ c.toNat ∧ c.toNat ≤ 0x7e ∨
      0xa0 ≤ c.toNat ∧ c.toNat ≤ 0xd7ff ∨ 0xe000 ≤ c.toNat ∧ c.toNat ≤ 0xfefe ∨
      0xff00 ≤ c.toNat ∧ c.toNat ≤ 0xfffd ∨ 0x10000 ≤ c.toNat ∧ c.toNat ≤ 0x10ffff := by
  simp only [isWrittenPlainly, inRanges_iff, plainRanges, List.mem_cons, List.not_mem_nil, or_false,
    exists_eq_or_imp, exists_eq_left]
  omega

/-- Every document may hold the characters that are written as they are. -/
theorem isDocumentCharacter_of_written {c : Char} (h : isWrittenPlainly c = true) :
    isDocumentCharacter c = true := by
  rw [isWrittenPlainly_iff] at h
  simp only [isDocumentCharacter, inRanges_iff, documentRanges, List.mem_cons, List.not_mem_nil,
    or_false, exists_eq_or_imp, exists_eq_left]
  omega

/-- A character with another number is another character. -/
theorem ne_of_written {c d : Char} (h : isWrittenPlainly c = true)
    (hd : isWrittenPlainly d = false) : c ≠ d := by
  rintro rfl
  exact Bool.false_ne_true (hd.symm.trans h)

/-- Line ends among the characters that are written as they are stay themselves. -/
theorem lineEnd_of_written {c : Char} (h : isWrittenPlainly c = true) (hbreak : isBreak c = true) :
    Source.lineEnd c = c := by
  have hreturn : c ≠ '\r' := ne_of_written h (by decide)
  have hnext : c ≠ '\u0085' := ne_of_written h (by decide)
  unfold Source.lineEnd
  split
  · rfl
  · next hseparator =>
    simp only [isBreak, Bool.or_eq_true, decide_eq_true_iff] at hbreak
    simp only [not_or] at hseparator
    rcases hbreak with (((hfeed | hreturn') | hnext') | hline) | hparagraph
    · exact hfeed.symm
    · exact absurd hreturn' hreturn
    · exact absurd hnext' hnext
    · exact absurd hline hseparator.1
    · exact absurd hparagraph hseparator.2

/-- A character that is written as it is and does not end a line. -/
def IsInLine (c : Char) : Prop := isWrittenPlainly c = true ∧ isBreak c = false

/-- The printable ASCII characters stand in a line. -/
theorem isInLine_of_ascii {c : Char} (hlow : 32 ≤ c.toNat) (hhigh : c.toNat ≤ 126) :
    IsInLine c := by
  refine ⟨isWrittenPlainly_iff.mpr (by omega), ?_⟩
  apply Bool.eq_false_iff.mpr
  intro hbreak
  simp only [isBreak, Bool.or_eq_true, decide_eq_true_iff] at hbreak
  have hall : ∀ d ∈ ['\n', '\r', '\u0085', '\u2028', '\u2029'], d.toNat < 32 ∨ 126 < d.toNat := by
    simp
  have hc := hall c (by simpa [or_assoc] using hbreak)
  omega

/-! ## Places -/

/-- A place between characters: how many characters and lines are before it, and how many characters
on its line. -/
structure Spot where
  index : Nat
  line : Nat
  column : Nat

namespace Spot

/-- The start of a document. -/
def start : Spot := ⟨0, 0, 0⟩

/-- The character at a place. -/
def placed (spot : Spot) (c : Char) : Placed := ⟨c, spot.index, spot.line, spot.column⟩

@[simp] theorem placed_char (spot : Spot) (c : Char) : (spot.placed c).char = c := rfl

@[simp] theorem placed_column (spot : Spot) (c : Char) : (spot.placed c).column = spot.column := rfl

/-- The place after a character. -/
def next (spot : Spot) (c : Char) : Spot :=
  if isBreak c then ⟨spot.index + 1, spot.line + 1, 0⟩
  else ⟨spot.index + 1, spot.line, spot.column + 1⟩

/-- The place after a text. -/
def after (spot : Spot) (text : Text) : Spot := text.foldl next spot

/-- A text with the places of its characters. -/
def source (spot : Spot) : Text → Source
  | [] => []
  | c :: rest => spot.placed c :: (spot.next c).source rest

@[simp] theorem source_nil (spot : Spot) : spot.source [] = [] := rfl

@[simp] theorem source_cons (spot : Spot) (c : Char) (rest : Text) :
    spot.source (c :: rest) = spot.placed c :: (spot.next c).source rest := rfl

@[simp] theorem after_nil (spot : Spot) : spot.after [] = spot := rfl

@[simp] theorem after_cons (spot : Spot) (c : Char) (rest : Text) :
    spot.after (c :: rest) = (spot.next c).after rest := rfl

theorem after_append (spot : Spot) (text later : Text) :
    spot.after (text ++ later) = (spot.after text).after later := List.foldl_append

theorem next_of_break {c : Char} (spot : Spot) (h : isBreak c = true) :
    spot.next c = ⟨spot.index + 1, spot.line + 1, 0⟩ := if_pos h

theorem next_of_not_break {c : Char} (spot : Spot) (h : isBreak c = false) :
    spot.next c = ⟨spot.index + 1, spot.line, spot.column + 1⟩ :=
  if_neg (by rw [h]; exact Bool.false_ne_true)

/-- The source of two texts. -/
theorem source_append (spot : Spot) (text later : Text) :
    spot.source (text ++ later) = spot.source text ++ (spot.after text).source later := by
  induction text generalizing spot with
  | nil => rfl
  | cons c rest ih => rw [List.cons_append, source_cons, ih]; rfl

/-- The source of a text is as long as the text. -/
@[simp] theorem length_source (spot : Spot) (text : Text) :
    (spot.source text).length = text.length := by
  induction text generalizing spot with
  | nil => rfl
  | cons c rest ih => rw [source_cons, List.length_cons, ih, List.length_cons]

/-- The source of a text consists of its characters. -/
@[simp] theorem map_char_source (spot : Spot) (text : Text) :
    (spot.source text).map (·.char) = text := by
  induction text generalizing spot with
  | nil => rfl
  | cons c rest ih => rw [source_cons, List.map_cons, ih, placed_char]

/-- A text without line ends leads on along its line. -/
theorem after_of_not_break {text : Text} (spot : Spot) (h : ∀ c ∈ text, isBreak c = false) :
    spot.after text = ⟨spot.index + text.length, spot.line, spot.column + text.length⟩ := by
  induction text generalizing spot with
  | nil => rfl
  | cons c rest ih =>
    rw [after_cons, ih _ fun d hd => h d (List.mem_cons_of_mem _ hd),
      next_of_not_break spot (h c List.mem_cons_self), List.length_cons]
    simp only [Spot.mk.injEq, true_and]
    omega

/-- No text leads back to an earlier line. -/
theorem line_le_after (spot : Spot) (text : Text) : spot.line ≤ (spot.after text).line := by
  induction text generalizing spot with
  | nil => exact Nat.le_refl _
  | cons c rest ih =>
    apply Nat.le_trans _ (ih _)
    unfold next
    split
    · exact Nat.le_succ _
    · exact Nat.le_refl _

/-- A text that ends a line leads to the start of a later line. -/
theorem after_append_break {c : Char} (spot : Spot) (text : Text) (h : isBreak c = true) :
    (spot.after (text ++ [c])).column = 0 ∧ spot.line < (spot.after (text ++ [c])).line := by
  rw [after_append, after_cons, after_nil, next_of_break _ h]
  exact ⟨rfl, Nat.lt_succ_of_le (line_le_after spot text)⟩

end Spot

/-- Characters that are written as they are stand where one comes to from the one before. -/
theorem Source.place_eq_source {text : Text} (h : IsWritten text) (spot : Spot) :
    Source.place spot.index spot.line spot.column text = spot.source text := by
  induction text generalizing spot with
  | nil => rfl
  | cons c rest ih =>
    have hc : isWrittenPlainly c = true := h c List.mem_cons_self
    have hreturn : c ≠ '\r' := ne_of_written hc (by decide)
    have hrest := ih fun d hd => h d (List.mem_cons_of_mem _ hd)
    rw [Source.place, Spot.source_cons]
    · split
      · next hbreak =>
        rw [← hrest, Spot.next_of_break spot hbreak, lineEnd_of_written hc hbreak]
        rfl
      · next hbreak =>
        rw [← hrest, Spot.next_of_not_break spot (Bool.not_eq_true _ ▸ hbreak)]
        rfl
    · exact fun _ hreturn' => absurd hreturn' hreturn

/-- The source of a written document. -/
theorem Source.ofText_eq {text : Text} (h : IsWritten text) :
    Source.ofText text = Spot.start.source text := by
  unfold Source.ofText
  split
  · exact absurd (h '\ufeff' List.mem_cons_self) (by decide)
  · exact Source.place_eq_source h Spot.start

end HostKit.Yaml
