import HostKit.Proofs.Table.Layout

/-!
# Titles of tables

A title is written over the start of the top rule or left out. What it covers lies behind the left
corner and before the next boundary, since it is left out unless the first column has room for it.
So a table with a title and the same table without one differ there and nowhere else: the two are
compared character by character, and no boundary is ever among the characters that differ.
-/

namespace HostKit.Table

variable {rows : List (List Text)} {widths : List Nat} {title block : Text} {j p : Nat}

/-! ## The room for a title -/

/-- How long a title may be: as long as the segment over the first column, whose width is that of
the longest cell in it. Where no row has a cell there is no column and no room. -/
def room (rows : List (List Text)) : Nat :=
  if ∀ row ∈ rows, row = [] then 0 else largest ((rows.filterMap (·[0]?)).map List.length) + 2

/-- There are no columns exactly if no row has a cell. -/
theorem columnCount_eq_zero_iff : columnCount rows = 0 ↔ ∀ row ∈ rows, row = [] := by
  induction rows with
  | nil => simp [columnCount]
  | cons row rows ih =>
    have hcount : columnCount (row :: rows) = max row.length (columnCount rows) := rfl
    rw [hcount, Nat.max_eq_zero_iff, ih, List.forall_mem_cons, List.length_eq_zero_iff]

/-- The room for a title is the first segment of the top rule. -/
theorem firstSegment_columnWidths (rows : List (List Text)) :
    firstSegment (columnWidths rows) = room rows := by
  unfold room columnWidths
  cases hcount : columnCount rows with
  | zero =>
    rw [if_pos (columnCount_eq_zero_iff.mp hcount)]
    rfl
  | succ n =>
    have hsome : ¬∀ row ∈ rows, row = [] := by
      rw [← columnCount_eq_zero_iff, hcount]
      exact Nat.succ_ne_zero n
    rw [if_neg hsome, List.range_succ_eq_map, List.map_cons, firstSegment, columnWidth_eq]

/-- Every boundary behind the left corner lies behind the first segment. -/
theorem firstSegment_lt_of_isBoundary (hp : 0 < p) (h : IsBoundary widths p) :
    firstSegment widths < p := by
  rcases h with rfl | rfl | ⟨j, hj, rfl⟩
  · exact absurd hp (Nat.lt_irrefl 0)
  · have hlaid := isRule_rule '-' ⟨'+', '+', '+'⟩ widths
    have hsegment := firstSegment_add_two_le '-' ⟨'+', '+', '+'⟩ widths
    rw [hlaid.length] at hsegment
    omega
  · cases widths with
    | nil => exact absurd hj (Nat.not_lt_zero j)
    | cons width widths =>
      cases j with
      | zero => exact absurd hp (Nat.lt_irrefl 0)
      | succ j =>
        rw [boundary_cons_succ, firstSegment]
        omega

/-! ## What a title covers -/

/-- A text with a title over the characters behind its first one. -/
def covered (title text : Text) : Text := text.take 1 ++ title ++ text.drop (1 + title.length)

variable {text : Text}

/-- A covered text has the characters of the title behind its first one, and its own elsewhere. -/
theorem getElem?_covered (h : title.length < text.length) (p : Nat) :
    (covered title text)[p]? =
      if 1 ≤ p ∧ p ≤ title.length then title[p - 1]? else text[p]? := by
  have hfirst : (text.take 1).length = 1 := by
    rw [List.length_take]
    omega
  rw [covered, List.append_assoc]
  rcases Nat.eq_zero_or_pos p with rfl | hp
  · rw [List.getElem?_append_left (by omega), List.getElem?_take_of_lt Nat.one_pos,
      if_neg (by omega)]
  · rw [List.getElem?_append_right (by omega), hfirst]
    by_cases hle : p ≤ title.length
    · rw [List.getElem?_append_left (by omega), if_pos ⟨hp, hle⟩]
    · rw [List.getElem?_append_right (by omega), List.getElem?_drop, if_neg (by omega)]
      congr 1
      omega

/-- What follows the covered part stays as it is. -/
theorem covered_append (h : title.length < text.length) (rest : Text) :
    covered title (text ++ rest) = covered title text ++ rest := by
  rw [covered, covered, List.take_append_of_le_length (by omega),
    List.drop_append_of_le_length (by omega)]
  simp only [List.append_assoc]

/-- A covered text is as long as before. -/
theorem length_covered (h : title.length < text.length) :
    (covered title text).length = text.length := by
  simp only [covered, List.length_append, List.length_take, List.length_drop]
  omega

/-- A title either covers the start of the top rule or leaves the rule as it is. -/
theorem embedTitle_eq_covered (title topRule : Text) (firstSegment : Nat) :
    embedTitle title topRule firstSegment =
      if title.length ≤ firstSegment then covered title topRule else topRule := by
  rw [embedTitle, covered]
  by_cases h : title.length ≤ firstSegment
  · rw [if_neg (Nat.not_lt_of_le h), if_pos h]
  · rw [if_pos (Nat.lt_of_not_le h), if_neg h]

/-! ## Tables with and without a title -/

/-- The blocks below the top rule. -/
def below (rows : List (List Text)) (style : Style) : List Text :=
  body style.border (columnWidths rows) rows ++
    [rule style.border.horizontal style.border.bottom (columnWidths rows)]

/-- A table is its top rule and the blocks below it. -/
theorem render_eq (title? : Option Text) (rows : List (List Text)) (style : Style) :
    render title? rows style =
      topRule title? style.border (columnWidths rows) ++
        '\n' :: Text.join ['\n'] (below rows style) := by
  have hnil : below rows style ≠ [] := List.append_ne_nil_of_right_ne_nil _ (List.cons_ne_nil _ _)
  rw [← Text.join_cons _ hnil]
  rfl

/-- A title that finds room covers the start of the table, and no other title shows. -/
theorem render_some (title : Text) (rows : List (List Text)) (style : Style) :
    render (some title) rows style =
      if title.length ≤ room rows then covered title (render none rows style)
      else render none rows style := by
  have hsegment := firstSegment_add_two_le style.border.horizontal style.border.top
    (columnWidths rows)
  rw [render_eq, render_eq, topRule, topRule, embedTitle_eq_covered, firstSegment_columnWidths]
  rw [firstSegment_columnWidths] at hsegment
  split
  · rw [covered_append (by omega)]
  · rfl

/-- A table is longer than the room for a title, by both corners of its top rule at least. -/
theorem room_add_two_le_length_render (title? : Option Text) (rows : List (List Text))
    (style : Style) : room rows + 2 ≤ (render title? rows style).length := by
  have hsegment := firstSegment_add_two_le style.border.horizontal style.border.top
    (columnWidths rows)
  have hlength := (isRule_topRule title? style.border (columnWidths rows)).length
  rw [(isRule_rule _ _ _).length, firstSegment_columnWidths] at hsegment
  rw [render_eq, List.length_append, hlength]
  omega

/-- Character by character, a table with a title is the table without one, with the title behind
the left corner if there is room for it over the first column. A title without room leaves the whole
table as it is. In any case the table stays as long as it is, so does its top rule, which has its
corners and junctions where they were, and nothing below this rule changes. -/
theorem render_title_frame (title : Text) (rows : List (List Text)) (style : Style) :
    (∀ p, (render (some title) rows style)[p]? =
      if title.length ≤ room rows ∧ 1 ≤ p ∧ p ≤ title.length then title[p - 1]?
      else (render none rows style)[p]?) ∧
    (room rows < title.length → render (some title) rows style = render none rows style) ∧
    (render (some title) rows style).length = (render none rows style).length ∧
    (∀ p, IsBoundary (columnWidths rows) p →
      (render (some title) rows style)[p]? = (render none rows style)[p]?) ∧
    ∃ (plain titled : Text) (below : List Text),
      render none rows style = Text.join ['\n'] (plain :: below) ∧
      render (some title) rows style = Text.join ['\n'] (titled :: below) ∧
      IsRule (columnWidths rows) style.border.horizontal style.border.top [] plain ∧
      titled.length = plain.length := by
  have hroom := room_add_two_le_length_render none rows style
  have hcharacters : ∀ p, (render (some title) rows style)[p]? =
      if title.length ≤ room rows ∧ 1 ≤ p ∧ p ≤ title.length then title[p - 1]?
      else (render none rows style)[p]? := by
    intro p
    rw [render_some]
    by_cases hfits : title.length ≤ room rows
    · rw [if_pos hfits, getElem?_covered (by omega)]
      simp only [hfits, true_and]
    · rw [if_neg hfits, if_neg fun h => hfits h.1]
  refine ⟨hcharacters, ?_, ?_, ?_, ?_⟩
  · intro hlong
    rw [render_some, if_neg (Nat.not_le_of_lt hlong)]
  · rw [render_some]
    split
    · exact length_covered (by omega)
    · rfl
  · intro p hp
    -- The title ends before the next boundary behind the left corner.
    rw [hcharacters p, if_neg]
    rintro ⟨hfits, hpos, hle⟩
    have hafter := firstSegment_lt_of_isBoundary hpos hp
    rw [firstSegment_columnWidths] at hafter
    omega
  · refine ⟨topRule none style.border (columnWidths rows),
      topRule (some title) style.border (columnWidths rows), below rows style, rfl, rfl,
      isRule_rule _ _ _, ?_⟩
    rw [(isRule_topRule _ _ _).length, (isRule_topRule _ _ _).length]

end HostKit.Table
