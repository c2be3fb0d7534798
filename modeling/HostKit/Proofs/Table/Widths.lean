import HostKit.Proofs.Text.Pieces
import HostKit.Table

/-!
# Widths of tables

No cell is longer than its column is wide, and a title that is written into the top rule leaves
both corners alone. So padding a cell never takes more than there is, and all lines of a table
have one length.
-/

namespace HostKit.Table

variable {rows : List (List Text)} {row : List Text} {widths : List Nat} {title : Text}

/-- A cell is not longer than its column is wide. -/
theorem length_getD_le_columnWidth (h : row ∈ rows) (column : Nat) :
    (row.getD column []).length ≤ columnWidth rows column := by
  induction rows with
  | nil => cases h
  | cons first rows ih =>
    have hwidth : columnWidth (first :: rows) column =
        max (first.getD column []).length (columnWidth rows column) := rfl
    rw [hwidth]
    rcases List.mem_cons.mp h with rfl | hmem
    · exact Nat.le_max_left _ _
    · exact Nat.le_trans (ih hmem) (Nat.le_max_right _ _)

/-- A cell that fits takes the width of its column and two blanks. -/
theorem length_cell {content : Text} {width : Nat} (h : content.length ≤ width) :
    (cell content width).length = width + 2 := by
  simp only [cell, List.length_cons, List.length_append, List.length_replicate, List.length_nil]
  omega

/-- The cells of a row that fits are as long as the segments of a rule. -/
theorem map_length_cells (h : ∀ i < widths.length, (row.getD i []).length ≤ widths.getD i 0) :
    (cells widths row).map List.length = widths.map (· + 2) := by
  induction widths generalizing row with
  | nil => rfl
  | cons width widths ih =>
    have hhead : (row.getD 0 []).length ≤ width := h 0 (Nat.zero_lt_succ _)
    cases row with
    | nil =>
      have htail := @ih [] fun i hi => Nat.zero_le _
      rw [cells, List.map_cons, List.map_cons, htail, length_cell (Nat.zero_le width)]
    | cons content row =>
      have hfits : content.length ≤ width := hhead
      have htail := @ih row fun i hi => h (i + 1) (Nat.succ_lt_succ hi)
      rw [cells, List.map_cons, List.map_cons, htail, length_cell hfits]

/-- The cells of a row of the table are as long as the segments of a rule. -/
theorem map_length_cells_columnWidths (h : row ∈ rows) :
    (cells (columnWidths rows) row).map List.length = (columnWidths rows).map (· + 2) := by
  refine map_length_cells fun i hi => ?_
  have hwidth : (columnWidths rows).getD i 0 = columnWidth rows i := by
    have hlt : i < columnCount rows := by simpa [columnWidths] using hi
    simp [columnWidths, hlt]
  rw [hwidth]
  exact length_getD_le_columnWidth h i

/-- Joined pieces are as long as others of the same lengths. -/
theorem length_join_eq {a b : Char} {pieces others : List Text}
    (h : pieces.map List.length = others.map List.length) :
    (Text.join [a] pieces).length = (Text.join [b] others).length := by
  induction pieces generalizing others with
  | nil =>
    obtain rfl : others = [] := by simpa using h.symm
    rfl
  | cons piece pieces ih =>
    cases others with
    | nil => simp at h
    | cons other others =>
      obtain ⟨hfirst, hrest⟩ := List.cons.inj h
      have hlength := ih hrest
      by_cases hnil : pieces = []
      · subst hnil
        obtain rfl : others = [] := by simpa using hrest.symm
        simpa [Text.join] using hfirst
      · have hnil' : others ≠ [] := by
          rintro rfl
          exact hnil (by simpa using hrest)
        rw [Text.join_cons _ hnil, Text.join_cons _ hnil', List.length_append, List.length_append,
          List.length_cons, List.length_cons, hfirst, hlength]

/-- All rules over the same columns have one length. -/
theorem length_rule_eq (horizontal horizontal' : Char) (ends ends' : Ends) (widths : List Nat) :
    (rule horizontal ends widths).length = (rule horizontal' ends' widths).length := by
  have hjoin : (Text.join [ends.junction]
      (widths.map fun width => List.replicate (width + 2) horizontal)).length =
      (Text.join [ends'.junction]
        (widths.map fun width => List.replicate (width + 2) horizontal')).length :=
    length_join_eq (by simp)
  simp only [rule, List.length_append, List.length_cons, List.length_nil, hjoin]

/-- A row of the table is as long as a rule. -/
theorem length_rowLine_eq (vertical horizontal : Char) (ends : Ends) (h : row ∈ rows) :
    (rowLine vertical (columnWidths rows) row).length =
      (rule horizontal ends (columnWidths rows)).length := by
  have hjoin : (Text.join [vertical] (cells (columnWidths rows) row)).length =
      (Text.join [ends.junction]
        ((columnWidths rows).map fun width => List.replicate (width + 2) horizontal)).length := by
    refine length_join_eq ?_
    rw [map_length_cells_columnWidths h]
    simp
  simp only [rowLine, rule, List.length_append, List.length_cons, List.length_nil, hjoin]

/-- The first segment of a rule lies between its corners. -/
theorem firstSegment_add_two_le (horizontal : Char) (ends : Ends) (widths : List Nat) :
    firstSegment widths + 2 ≤ (rule horizontal ends widths).length := by
  cases widths with
  | nil => simp [firstSegment, rule, Text.join]
  | cons width widths =>
    by_cases hnil : widths = []
    · subst hnil
      simp [firstSegment, rule, Text.join]
    · have hnil' : widths.map (fun width => List.replicate (width + 2) horizontal) ≠ [] := by
        simpa using hnil
      simp only [firstSegment, rule, List.map_cons, Text.join_cons _ hnil', List.length_append,
        List.length_cons, List.length_replicate, List.length_nil]
      omega

/-- A title does not change the length of the top rule. -/
theorem length_embedTitle (title : Text) (horizontal : Char) (ends : Ends) (widths : List Nat) :
    (embedTitle title (rule horizontal ends widths) (firstSegment widths)).length =
      (rule horizontal ends widths).length := by
  have hsegment := firstSegment_add_two_le horizontal ends widths
  unfold embedTitle
  split
  · rfl
  · simp only [List.length_append, List.length_take, List.length_drop]
    omega

/-- Between the rules at the top and the bottom are the rows and the rule after the header. -/
theorem of_mem_body {border : Border} {line : Text} (h : line ∈ body border widths rows) :
    (∃ row ∈ rows, line = rowLine border.vertical widths row) ∨
      line = rule border.horizontal border.middle widths := by
  unfold body at h
  split at h
  · cases h
  · next header =>
    exact .inl ⟨header, List.mem_singleton_self header, List.mem_singleton.mp h⟩
  · next header others _ =>
    rcases List.mem_cons.mp h with rfl | h
    · exact .inl ⟨header, List.mem_cons_self, rfl⟩
    rcases List.mem_cons.mp h with rfl | h
    · exact .inr rfl
    · obtain ⟨row, hrow, rfl⟩ := List.mem_map.mp h
      exact .inl ⟨row, List.mem_cons_of_mem _ hrow, rfl⟩

/-- All lines of a table are as long as its bottom rule. -/
theorem length_of_mem_blocks {title? : Option Text} {style : Style} {line : Text}
    (h : line ∈ blocks title? rows style) :
    line.length =
      (rule style.border.horizontal style.border.bottom (columnWidths rows)).length := by
  unfold blocks at h
  rcases List.mem_append.mp h with h | h
  · rcases List.mem_cons.mp h with rfl | h
    · cases title? with
      | none => exact length_rule_eq _ _ _ _ _
      | some title => exact (length_embedTitle _ _ _ _).trans (length_rule_eq _ _ _ _ _)
    · rcases of_mem_body h with ⟨row, hrow, rfl⟩ | rfl
      · exact length_rowLine_eq _ _ _ hrow
      · exact length_rule_eq _ _ _ _ _
  · rw [List.mem_singleton.mp h]

end HostKit.Table
