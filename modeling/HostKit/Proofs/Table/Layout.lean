import HostKit.Proofs.Table.Widths
import Mathlib.Algebra.GroupWithZero.Nat

/-!
# The layout of a table

All lines of a table are laid out over the same boundaries, which are the sums of the widths of the
columns before them, three characters more for each column. A row has its bars there and each of
its cells between two of them, a rule has its corners and junctions there. Both are pieces of the
same lengths joined by one character, so where things stand is found out once, for such pieces.
-/

namespace HostKit.Table

variable {rows : List (List Text)} {row pieces : List Text} {widths : List Nat} {block title : Text}
variable {ends : Ends} {j k p : Nat}

/-! ## Boundaries -/

/-- Where the boundary before a column stands, and behind the last column the right end. -/
def boundary (widths : List Nat) (j : Nat) : Nat := ((widths.take j).map (· + 3)).sum

/-- How long a line over columns of the given widths is. -/
def lineLength (widths : List Nat) : Nat :=
  if widths = [] then 2 else 1 + (widths.map (· + 3)).sum

/-- A line over columns of the given widths: the ends stand at its ends, a junction between any two
columns, and the segment of each column behind the boundary before it. -/
structure IsLaid (widths : List Nat) (ends : Ends) (segment : Nat → Text) (block : Text) :
    Prop where
  length : block.length = lineLength widths
  left : block[0]? = some ends.left
  junction : ∀ j, 0 < j → j < widths.length → block[boundary widths j]? = some ends.junction
  right : block[lineLength widths - 1]? = some ends.right
  segment : ∀ j < widths.length, ∀ k < widths.getD j 0 + 2,
    block[boundary widths j + 1 + k]? = (segment j)[k]?

/-- What a segment is matters for the columns only. -/
theorem IsLaid.congr {segment segment' : Nat → Text} (h : IsLaid widths ends segment block)
    (hsegment : ∀ j < widths.length, segment j = segment' j) :
    IsLaid widths ends segment' block where
  length := h.length
  left := h.left
  junction := h.junction
  right := h.right
  segment j hj k hk := by rw [h.segment j hj k hk, hsegment j hj]

/-- The first boundary is at the start of the line. -/
@[simp] theorem boundary_zero (widths : List Nat) : boundary widths 0 = 0 := rfl

/-- The first column moves all later boundaries. -/
@[simp] theorem boundary_cons_succ (width : Nat) (widths : List Nat) (j : Nat) :
    boundary (width :: widths) (j + 1) = width + 3 + boundary widths j := rfl

/-- The last boundary is the right end of the line. -/
theorem lineLength_eq (h : widths ≠ []) :
    lineLength widths = boundary widths widths.length + 1 := by
  rw [lineLength, if_neg h, boundary, List.take_length, Nat.add_comm]

/-- A column takes its width, a blank on either side and the boundary. -/
theorem boundary_succ (h : j < widths.length) :
    boundary widths (j + 1) = boundary widths j + (widths.getD j 0 + 3) := by
  induction widths generalizing j with
  | nil => exact absurd h (Nat.not_lt_zero j)
  | cons width widths ih =>
    cases j with
    | zero => simp
    | succ j =>
      have hlater := ih (Nat.lt_of_succ_lt_succ h)
      rw [boundary_cons_succ, boundary_cons_succ, List.getD_cons_succ, hlater]
      omega

/-- Every place before the right end belongs to a column: it is the boundary before the column, or
lies in its segment. -/
theorem exists_column (h : p < boundary widths widths.length) :
    ∃ j < widths.length, p = boundary widths j ∨
      ∃ k < widths.getD j 0 + 2, p = boundary widths j + 1 + k := by
  induction widths generalizing p with
  | nil => exact absurd h (Nat.not_lt_zero p)
  | cons width widths ih =>
    rw [List.length_cons, boundary_cons_succ] at h
    by_cases hfirst : p < width + 3
    · refine ⟨0, Nat.zero_lt_succ _, ?_⟩
      rw [boundary_zero, List.getD_cons_zero]
      rcases Nat.eq_zero_or_pos p with hzero | hpos
      · exact .inl hzero
      · exact .inr ⟨p - 1, by omega, by omega⟩
    · obtain ⟨j, hj, hplace⟩ := @ih (p - (width + 3)) (by omega)
      refine ⟨j + 1, Nat.succ_lt_succ hj, ?_⟩
      rw [boundary_cons_succ, List.getD_cons_succ]
      rcases hplace with heq | ⟨k, hk, heq⟩
      · exact .inl (by omega)
      · exact .inr ⟨k, hk, by omega⟩

/-! ## Pieces joined over the boundaries -/

/-- What follows the left end of a line: the segment of each column, and behind it a junction, or
the right end behind the last one. -/
structure IsSpread (widths : List Nat) (junction right : Char) (pieces : List Text) (block : Text) :
    Prop where
  length : block.length = boundary widths widths.length
  segment : ∀ j < widths.length, ∀ k < widths.getD j 0 + 2,
    block[boundary widths j + k]? = (pieces.getD j [])[k]?
  closing : ∀ j < widths.length, block[boundary widths j + (widths.getD j 0 + 2)]? =
    some (if j + 1 < widths.length then junction else right)

/-- One more piece in front spreads a line over one more column. -/
theorem IsSpread.cons {junction right c : Char} {piece : Text} {width : Nat}
    (h : IsSpread widths junction right pieces block) (hpiece : piece.length = width + 2)
    (hc : c = if widths = [] then right else junction) :
    IsSpread (width :: widths) junction right (piece :: pieces) (piece ++ c :: block) := by
  have hlater : ∀ i, (piece ++ c :: block)[width + 3 + i]? = block[i]? := by
    intro i
    rw [List.getElem?_append_right (by omega), hpiece,
      show width + 3 + i - (width + 2) = i + 1 by omega, List.getElem?_cons_succ]
  constructor
  · rw [List.length_append, List.length_cons, hpiece, h.length, List.length_cons,
      boundary_cons_succ]
    omega
  · intro j hj k hk
    cases j with
    | zero =>
      rw [boundary_zero, Nat.zero_add, List.getD_cons_zero]
      exact List.getElem?_append_left (by simpa [hpiece] using hk)
    | succ j =>
      rw [boundary_cons_succ, Nat.add_assoc, hlater, List.getD_cons_succ]
      exact h.segment j (Nat.lt_of_succ_lt_succ hj) k hk
  · intro j hj
    cases j with
    | zero =>
      have hmore : 0 + 1 < (width :: widths).length ↔ widths ≠ [] := by
        rw [List.length_cons, Nat.succ_lt_succ_iff, List.length_pos_iff]
      rw [boundary_zero, List.getD_cons_zero, List.getElem?_append_right (by omega), hpiece, hc]
      simp only [hmore, Nat.zero_add, Nat.sub_self, List.getElem?_cons_zero, ite_not]
    | succ j =>
      rw [boundary_cons_succ, Nat.add_assoc, hlater, List.getD_cons_succ,
        h.closing j (Nat.lt_of_succ_lt_succ hj), List.length_cons]
      simp only [Nat.add_lt_add_iff_right]

/-- Pieces as long as the segments, joined by junctions, are spread over the columns. -/
theorem isSpread_join (junction right : Char) (hnil : widths ≠ [])
    (h : pieces.map List.length = widths.map (· + 2)) :
    IsSpread widths junction right pieces (Text.join [junction] pieces ++ [right]) := by
  induction widths generalizing pieces with
  | nil => exact absurd rfl hnil
  | cons width widths ih =>
    cases pieces with
    | nil => cases h
    | cons piece pieces =>
      obtain ⟨hpiece, hpieces⟩ := List.cons.inj h
      by_cases hlast : widths = []
      · subst hlast
        obtain rfl : pieces = [] := List.map_eq_nil_iff.mp hpieces
        have hnone : IsSpread [] junction right [] [] := by
          constructor
          · rfl
          · exact fun j hj => absurd hj (Nat.not_lt_zero j)
          · exact fun j hj => absurd hj (Nat.not_lt_zero j)
        exact hnone.cons hpiece (if_pos rfl).symm
      · have hmore : pieces ≠ [] := by
          rintro rfl
          exact hlast (List.map_eq_nil_iff.mp hpieces.symm)
        rw [Text.join_cons piece hmore, List.append_assoc, List.cons_append]
        exact (ih hlast hpieces).cons hpiece (if_neg hlast).symm

/-- Behind the left end, what closes the segment of a column stands at the next boundary. -/
theorem IsSpread.at_boundary {junction right : Char}
    (h : IsSpread widths junction right pieces block) (left : Char) (hj : j < widths.length) :
    (left :: block)[boundary widths (j + 1)]? =
      some (if j + 1 < widths.length then junction else right) := by
  have hnext : boundary widths (j + 1) = boundary widths j + (widths.getD j 0 + 2) + 1 := by
    rw [boundary_succ hj]
    omega
  rw [hnext, List.getElem?_cons_succ, h.closing j hj]

/-- The ends of a line around pieces as long as the segments lay it out. -/
theorem isLaid_join (ends : Ends) (h : pieces.map List.length = widths.map (· + 2)) :
    IsLaid widths ends (fun j => pieces.getD j [])
      (ends.left :: Text.join [ends.junction] pieces ++ [ends.right]) := by
  by_cases hnil : widths = []
  · subst hnil
    obtain rfl : pieces = [] := List.map_eq_nil_iff.mp h
    constructor
    · rfl
    · rfl
    · exact fun j _ hj => absurd hj (Nat.not_lt_zero j)
    · rfl
    · exact fun j hj => absurd hj (Nat.not_lt_zero j)
  · have hspread := isSpread_join ends.junction ends.right hnil h
    have hlast : widths.length - 1 < widths.length :=
      Nat.sub_lt (List.length_pos_iff.mpr hnil) Nat.one_pos
    rw [List.cons_append]
    constructor
    · rw [List.length_cons, hspread.length, lineLength_eq hnil]
    · rfl
    · intro j hj hlt
      have hbefore : j - 1 + 1 = j := Nat.sub_add_cancel hj
      have hjunction := hspread.at_boundary ends.left (Nat.lt_of_le_of_lt (Nat.sub_le j 1) hlt)
      rwa [hbefore, if_pos hlt] at hjunction
    · have hend : widths.length - 1 + 1 = widths.length :=
        Nat.sub_add_cancel (List.length_pos_iff.mpr hnil)
      have hright := hspread.at_boundary ends.left hlast
      rwa [hend, if_neg (Nat.lt_irrefl _), ← Nat.add_sub_cancel (boundary widths widths.length) 1,
        ← lineLength_eq hnil] at hright
    · intro j hj k hk
      rw [Nat.add_right_comm, List.getElem?_cons_succ]
      exact hspread.segment j hj k hk

/-! ## Rows -/

/-- A row between bars: a cell has a blank, its content, the padding up to the width of the column
and another blank. -/
def IsRow (widths : List Nat) (bar : Char) (row : List Text) (block : Text) : Prop :=
  IsLaid widths ⟨bar, bar, bar⟩ (fun j => ' ' :: row.getD j [] ++
    List.replicate (widths.getD j 0 - (row.getD j []).length) ' ' ++ [' ']) block

/-- The cells of a row, by their columns. -/
theorem getD_cells (widths : List Nat) (row : List Text) (h : j < widths.length) :
    (cells widths row).getD j [] = cell (row.getD j []) (widths.getD j 0) := by
  induction widths generalizing row j with
  | nil => exact absurd h (Nat.not_lt_zero j)
  | cons width widths ih =>
    cases row with
    | nil =>
      cases j with
      | zero => rfl
      | succ j => simpa [cells] using ih [] (Nat.lt_of_succ_lt_succ h)
    | cons content row =>
      cases j with
      | zero => rfl
      | succ j => simpa [cells] using ih row (Nat.lt_of_succ_lt_succ h)

/-- The line of a row of the table is laid out as a row. -/
theorem isRow_rowLine (bar : Char) (h : row ∈ rows) :
    IsRow (columnWidths rows) bar row (rowLine bar (columnWidths rows) row) := by
  apply (isLaid_join ⟨bar, bar, bar⟩ (map_length_cells_columnWidths h)).congr
  intro j hj
  exact getD_cells _ _ hj

/-- Whether a place in a line is the left end, a boundary between two columns or the right end. -/
def IsBoundary (widths : List Nat) (p : Nat) : Prop :=
  p = 0 ∨ p = lineLength widths - 1 ∨ ∃ j < widths.length, p = boundary widths j

/-- Every place in a line is a boundary or lies in the segment of a column. -/
theorem isBoundary_or_segment (h : p < lineLength widths) :
    IsBoundary widths p ∨
      ∃ j < widths.length, ∃ k < widths.getD j 0 + 2, p = boundary widths j + 1 + k := by
  by_cases hnil : widths = []
  · rw [lineLength, if_pos hnil] at h
    rw [IsBoundary, lineLength, if_pos hnil]
    omega
  · have hlength := lineLength_eq hnil
    by_cases hright : p < boundary widths widths.length
    · obtain ⟨j, hj, heq | hsegment⟩ := exists_column hright
      · exact .inl (.inr (.inr ⟨j, hj, heq⟩))
      · exact .inr ⟨j, hj, hsegment⟩
    · exact .inl (.inr (.inl (by omega)))

/-- A character that is no blank stands in padded content where it stands in the content. -/
theorem getElem?_padded_eq_iff {c : Char} (hc : c ≠ ' ') (content : Text) (n k : Nat) :
    (content ++ List.replicate n ' ' ++ [' '])[k]? = some c ↔ content[k]? = some c := by
  rw [List.append_assoc, ← List.replicate_succ']
  by_cases hk : k < content.length
  · rw [List.getElem?_append_left hk]
  · rw [List.getElem?_append_right (Nat.le_of_not_lt hk),
      List.getElem?_eq_none (Nat.le_of_not_lt hk)]
    constructor
    · intro hpadding
      exact absurd (List.eq_of_mem_replicate (List.mem_of_getElem? hpadding)) hc
    · intro hnone
      cases hnone

/-- A bar stands at the boundaries of a row, and elsewhere only where a cell has one in its own
content. -/
theorem IsRow.getElem?_eq_bar_iff {bar : Char} (hrow : IsRow widths bar row block)
    (hbar : bar ≠ ' ')
    (hfits : ∀ j < widths.length, (row.getD j []).length ≤ widths.getD j 0) :
    block[p]? = some bar ↔ IsBoundary widths p ∨
      ∃ j < widths.length, ∃ k, (row.getD j [])[k]? = some bar ∧ p = boundary widths j + 2 + k := by
  -- Behind its first blank, a segment has the content of the cell and then only blanks.
  have hsegment : ∀ j < widths.length, ∀ k < widths.getD j 0 + 2,
      block[boundary widths j + 1 + k]? = some bar ↔
        ∃ m, (row.getD j [])[m]? = some bar ∧ k = m + 1 := by
    intro j hj k hk
    rw [hrow.segment j hj k hk]
    cases k with
    | zero => simp [Ne.symm hbar]
    | succ k =>
      rw [List.cons_append, List.cons_append, List.getElem?_cons_succ, getElem?_padded_eq_iff hbar]
      simp
  constructor
  · intro hline
    obtain ⟨hlt, -⟩ := List.getElem?_eq_some_iff.mp hline
    rw [hrow.length] at hlt
    rcases isBoundary_or_segment hlt with hboundary | ⟨j, hj, k, hk, rfl⟩
    · exact .inl hboundary
    · obtain ⟨m, hm, rfl⟩ := (hsegment j hj k hk).mp hline
      exact .inr ⟨j, hj, m, hm, by omega⟩
  · rintro ((rfl | rfl | ⟨j, hj, rfl⟩) | ⟨j, hj, k, hk, rfl⟩)
    · exact hrow.left
    · exact hrow.right
    · rcases Nat.eq_zero_or_pos j with rfl | hpos
      · exact hrow.left
      · exact hrow.junction j hpos hj
    · obtain ⟨hlt, -⟩ := List.getElem?_eq_some_iff.mp hk
      have hk' : k + 1 < widths.getD j 0 + 2 := by
        have hj' := hfits j hj
        omega
      have hplace : boundary widths j + 2 + k = boundary widths j + 1 + (k + 1) := by omega
      rw [hplace, hsegment j hj (k + 1) hk']
      exact ⟨k, hk, rfl⟩

/-! ## Rules -/

/-- A rule with a text over the start of its first segment. -/
def IsRule (widths : List Nat) (horizontal : Char) (ends : Ends) (above block : Text) : Prop :=
  IsLaid widths ends (fun j => (if j = 0 then above else []) ++ List.replicate
    (widths.getD j 0 + 2 - (if j = 0 then above else []).length) horizontal) block

/-- The segments of a rule with a text over the start of the first one. -/
def ruleSegments (horizontal : Char) (above : Text) : (widths : List Nat) → List Text
  | [] => []
  | width :: widths =>
    (above ++ List.replicate (width + 2 - above.length) horizontal) ::
      widths.map fun width => List.replicate (width + 2) horizontal

/-- A title that fits is written over the first segment. -/
theorem embedTitle_eq (horizontal : Char) (ends : Ends) (h : title.length ≤ firstSegment widths) :
    embedTitle title (rule horizontal ends widths) (firstSegment widths) =
      ends.left :: Text.join [ends.junction] (ruleSegments horizontal title widths) ++
        [ends.right] := by
  rw [embedTitle, if_neg (Nat.not_lt_of_le h)]
  cases widths with
  | nil =>
    obtain rfl : title = [] := List.length_eq_zero_iff.mp (Nat.le_zero.mp h)
    rfl
  | cons width widths =>
    have hfits : title.length ≤ width + 2 := h
    have hsplit : List.replicate (width + 2) horizontal =
        List.replicate title.length horizontal ++
          List.replicate (width + 2 - title.length) horizontal := by
      rw [List.replicate_append_replicate, Nat.add_sub_cancel' hfits]
    rw [rule, ruleSegments, List.map_cons, hsplit, Text.join_append_cons, Text.join_append_cons]
    -- What the title covers is as long as the title, and nothing behind it is touched.
    generalize Text.join [ends.junction] _ = rest
    have hdrop : (List.replicate title.length horizontal ++ rest ++ [ends.right]).drop
        title.length = rest ++ [ends.right] := by
      rw [List.append_assoc, List.drop_left' List.length_replicate]
    rw [Nat.add_comm, List.cons_append, List.drop_succ_cons, hdrop]
    simp

/-- The segments are as long as the columns are wide. -/
theorem map_length_ruleSegments (horizontal : Char) (h : title.length ≤ firstSegment widths) :
    (ruleSegments horizontal title widths).map List.length = widths.map (· + 2) := by
  cases widths with
  | nil => rfl
  | cons width widths =>
    have hfits : title.length ≤ width + 2 := h
    simp [ruleSegments, hfits]

/-- The segments of a rule, by their columns. -/
theorem getD_ruleSegments (horizontal : Char) (above : Text) (h : j < widths.length) :
    (ruleSegments horizontal above widths).getD j [] =
      (if j = 0 then above else []) ++ List.replicate
        (widths.getD j 0 + 2 - (if j = 0 then above else []).length) horizontal := by
  cases widths with
  | nil => exact absurd h (Nat.not_lt_zero j)
  | cons width widths =>
    cases j with
    | zero => rfl
    | succ j =>
      have hj : j < widths.length := Nat.lt_of_succ_lt_succ h
      simp [ruleSegments, hj]

/-- A rule with a title that fits is laid out with the title over its first segment. -/
theorem isRule_embedTitle (horizontal : Char) (ends : Ends)
    (h : title.length ≤ firstSegment widths) :
    IsRule widths horizontal ends title
      (embedTitle title (rule horizontal ends widths) (firstSegment widths)) := by
  rw [embedTitle_eq horizontal ends h]
  apply (isLaid_join ends (map_length_ruleSegments horizontal h)).congr
  intro j hj
  exact getD_ruleSegments horizontal title hj

/-- A rule is laid out with nothing over its segments. -/
theorem isRule_rule (horizontal : Char) (ends : Ends) (widths : List Nat) :
    IsRule widths horizontal ends [] (rule horizontal ends widths) := by
  have hlaid : IsRule widths horizontal ends []
      (embedTitle [] (rule horizontal ends widths) (firstSegment widths)) :=
    isRule_embedTitle horizontal ends (Nat.zero_le _)
  have hrule : embedTitle [] (rule horizontal ends widths) (firstSegment widths) =
      rule horizontal ends widths := by
    rw [embedTitle, List.length_nil, if_neg (Nat.not_lt_zero _), List.append_nil]
    exact List.take_append_drop 1 _
  rwa [hrule] at hlaid

/-- What is written into the top rule: the title if it fits, and else nothing. -/
def titleOver (title? : Option Text) (widths : List Nat) : Text :=
  match title? with
  | none => []
  | some title => if title.length ≤ firstSegment widths then title else []

/-- The rule at the top of a table. -/
def topRule (title? : Option Text) (border : Border) (widths : List Nat) : Text :=
  match title? with
  | none => rule border.horizontal border.top widths
  | some title =>
    embedTitle title (rule border.horizontal border.top widths) (firstSegment widths)

/-- The top rule has the title over its first segment if it fits there. -/
theorem isRule_topRule (title? : Option Text) (border : Border) (widths : List Nat) :
    IsRule widths border.horizontal border.top (titleOver title? widths)
      (topRule title? border widths) := by
  cases title? with
  | none => exact isRule_rule border.horizontal border.top widths
  | some title =>
    by_cases hfits : title.length ≤ firstSegment widths
    · rw [titleOver, if_pos hfits]
      exact isRule_embedTitle border.horizontal border.top hfits
    · rw [titleOver, if_neg hfits, topRule, embedTitle, if_pos (Nat.lt_of_not_le hfits)]
      exact isRule_rule border.horizontal border.top widths

/-! ## The whole table -/

/-- The largest of some numbers, zero if there are none. -/
def largest (ns : List Nat) : Nat := ns.max?.getD 0

/-- The blocks of a table from the top to the bottom. The rule after the header is there if there
are rows for it to part from the header. -/
def stack (top middle bottom : Text) (lines : List Text) : List Text :=
  top :: lines.take 1 ++ (if 2 ≤ lines.length then [middle] else []) ++ lines.drop 1 ++ [bottom]

/-- The largest of some numbers and one more. -/
theorem largest_cons (n : Nat) (ns : List Nat) : largest (n :: ns) = max n (largest ns) := by
  rw [largest, largest, List.max?_cons]
  cases ns.max? with
  | none => exact (Nat.max_zero n).symm
  | some m => rfl

/-- There are as many columns as the longest row has cells. -/
theorem columnCount_eq (rows : List (List Text)) :
    columnCount rows = largest (rows.map List.length) := by
  induction rows with
  | nil => rfl
  | cons row rows ih =>
    rw [List.map_cons, largest_cons, ← ih]
    rfl

/-- A column is as wide as its longest cell. -/
theorem columnWidth_eq (rows : List (List Text)) (j : Nat) :
    columnWidth rows j = largest ((rows.filterMap (·[j]?)).map List.length) := by
  induction rows with
  | nil => rfl
  | cons row rows ih =>
    have hwidth : columnWidth (row :: rows) j =
        max (row.getD j []).length (columnWidth rows j) := rfl
    rw [hwidth, ih, List.filterMap_cons, List.getD_eq_getElem?_getD]
    cases row[j]? with
    | none => simp
    | some content => simp [largest_cons]

/-- The widths, by their columns. -/
theorem getD_columnWidths (h : j < (columnWidths rows).length) :
    (columnWidths rows).getD j 0 = columnWidth rows j := by
  have hj : j < columnCount rows := by simpa [columnWidths] using h
  simp [columnWidths, hj]

/-- There are two rules more than rows, and one more behind the header. -/
theorem length_stack (top middle bottom : Text) (lines : List Text) :
    (stack top middle bottom lines).length =
      lines.length + 2 + (if 2 ≤ lines.length then 1 else 0) := by
  cases lines with
  | nil => rfl
  | cons header lines =>
    cases lines with
    | nil => rfl
    | cons line lines => simp [stack]

/-- Every block is a rule or a row. -/
theorem of_mem_stack {top middle bottom block : Text} {lines : List Text}
    (h : block ∈ stack top middle bottom lines) :
    block = top ∨ block = middle ∨ block = bottom ∨ block ∈ lines := by
  rw [stack, List.mem_append, List.mem_append, List.mem_append, List.mem_cons] at h
  rcases h with (((h | h) | h) | h) | h
  · exact .inl h
  · exact .inr (.inr (.inr (List.mem_of_mem_take h)))
  · split at h
    · exact .inr (.inl (List.mem_singleton.mp h))
    · cases h
  · exact .inr (.inr (.inr (List.mem_of_mem_drop h)))
  · exact .inr (.inr (.inl (List.mem_singleton.mp h)))

/-- The blocks of a table are its rows between its rules. -/
theorem blocks_eq_stack (title? : Option Text) (rows : List (List Text)) (style : Style) :
    blocks title? rows style = stack (topRule title? style.border (columnWidths rows))
      (rule style.border.horizontal style.border.middle (columnWidths rows))
      (rule style.border.horizontal style.border.bottom (columnWidths rows))
      (rows.map (rowLine style.border.vertical (columnWidths rows))) := by
  cases rows with
  | nil => rfl
  | cons header rows =>
    cases rows with
    | nil => rfl
    | cons row rows =>
      rw [stack, if_pos (by simp)]
      rfl

/-- A table has its rows between a rule at the top and one at the bottom, and a rule behind the
first row if there are more. There are as many columns as the longest row has cells, each as wide as
its longest cell, and all blocks have the length that these widths give. The bars of a row stand at
the boundaries of the columns, with the cells of the row between them, and the corners and junctions
of the rules stand there as well. -/
theorem render_layout (title? : Option Text) (rows : List (List Text)) (style : Style) :
    (columnWidths rows).length = largest (rows.map List.length) ∧
    (∀ j < (columnWidths rows).length, (columnWidths rows).getD j 0 =
      largest ((rows.filterMap (·[j]?)).map List.length)) ∧
    ∃ (top middle bottom : Text) (lineOf : List Text → Text),
      render title? rows style =
        Text.join ['\n'] (stack top middle bottom (rows.map lineOf)) ∧
      (stack top middle bottom (rows.map lineOf)).length =
        rows.length + 2 + (if 2 ≤ rows.length then 1 else 0) ∧
      (∀ block ∈ stack top middle bottom (rows.map lineOf),
        block.length = lineLength (columnWidths rows)) ∧
      (∀ row ∈ rows, IsRow (columnWidths rows) style.border.vertical row (lineOf row) ∧
        ∀ p, (lineOf row)[p]? = some style.border.vertical ↔
          IsBoundary (columnWidths rows) p ∨
            ∃ j < (columnWidths rows).length, ∃ k,
              (row.getD j [])[k]? = some style.border.vertical ∧
                p = boundary (columnWidths rows) j + 2 + k) ∧
      IsRule (columnWidths rows) style.border.horizontal style.border.top
        (titleOver title? (columnWidths rows)) top ∧
      IsRule (columnWidths rows) style.border.horizontal style.border.middle [] middle ∧
      IsRule (columnWidths rows) style.border.horizontal style.border.bottom [] bottom := by
  have hbar : style.border.vertical ≠ ' ' := by cases style <;> decide
  have hrow : ∀ row ∈ rows, IsRow (columnWidths rows) style.border.vertical row
      (rowLine style.border.vertical (columnWidths rows) row) :=
    fun row hmem => isRow_rowLine style.border.vertical hmem
  have htop := isRule_topRule title? style.border (columnWidths rows)
  have hmiddle := isRule_rule style.border.horizontal style.border.middle (columnWidths rows)
  have hbottom := isRule_rule style.border.horizontal style.border.bottom (columnWidths rows)
  refine ⟨?_, ?_, topRule title? style.border (columnWidths rows),
    rule style.border.horizontal style.border.middle (columnWidths rows),
    rule style.border.horizontal style.border.bottom (columnWidths rows),
    rowLine style.border.vertical (columnWidths rows), ?_, ?_, ?_, ?_, htop, hmiddle, hbottom⟩
  · rw [← columnCount_eq, columnWidths, List.length_map, List.length_range]
  · intro j hj
    rw [← columnWidth_eq, getD_columnWidths hj]
  · rw [render, blocks_eq_stack]
  · rw [length_stack, List.length_map]
  · intro block hblock
    rcases of_mem_stack hblock with rfl | rfl | rfl | hline
    · exact htop.length
    · exact hmiddle.length
    · exact hbottom.length
    · obtain ⟨row, hmem, rfl⟩ := List.mem_map.mp hline
      exact (hrow row hmem).length
  · intro row hmem
    refine ⟨hrow row hmem, fun p => (hrow row hmem).getElem?_eq_bar_iff hbar fun j hj => ?_⟩
    rw [getD_columnWidths hj]
    exact length_getD_le_columnWidth hmem j

end HostKit.Table
