import HostKit.Text.Basic

/-!
# Pieces between separators

Splitting a text at a character and joining the pieces with it undo each other, as long as no
piece has the character in it.
-/

namespace HostKit.Text

variable {separator : Char}

/-- There is always a piece. -/
theorem splitOn_ne_nil (separator : Char) (t : Text) : splitOn separator t ≠ [] := by
  cases t with
  | nil => simp [splitOn]
  | cons c rest =>
    rw [splitOn]
    split
    · simp
    · split <;> simp

/-- A text without the separator is one piece. -/
theorem splitOn_of_not_mem {t : Text} (h : separator ∉ t) : splitOn separator t = [t] := by
  induction t with
  | nil => rfl
  | cons c rest ih =>
    have hc : c ≠ separator := fun hc => h (by simp [hc])
    have hrest : separator ∉ rest := fun hrest => h (by simp [hrest])
    simp [splitOn, hc, ih hrest]

/-- The first piece ends at the first separator. -/
theorem splitOn_append {piece : Text} (h : separator ∉ piece) (rest : Text) :
    splitOn separator (piece ++ separator :: rest) = piece :: splitOn separator rest := by
  induction piece with
  | nil => simp [splitOn]
  | cons c piece ih =>
    have hc : c ≠ separator := fun hc => h (by simp [hc])
    have hpiece : separator ∉ piece := fun hpiece => h (by simp [hpiece])
    simp [splitOn, hc, ih hpiece]

/-- A piece has characters of the text, and no separator. -/
theorem of_mem_splitOn {t piece : Text} (h : piece ∈ splitOn separator t) :
    separator ∉ piece ∧ ∀ c ∈ piece, c ∈ t := by
  induction t generalizing piece with
  | nil => simp_all [splitOn]
  | cons c rest ih =>
    rw [splitOn] at h
    split at h
    · rcases List.mem_cons.mp h with rfl | h
      · simp
      · exact ⟨(ih h).1, fun d hd => List.mem_cons_of_mem c ((ih h).2 d hd)⟩
    next hc =>
    split at h
    next hnil => exact absurd hnil (splitOn_ne_nil separator rest)
    next first later hcons =>
    rcases List.mem_cons.mp h with rfl | h
    · obtain ⟨hseparator, hmem⟩ := @ih first (by simp [hcons])
      refine ⟨by simp [hseparator, Ne.symm hc], fun d hd => ?_⟩
      rcases List.mem_cons.mp hd with rfl | hd
      · exact List.mem_cons_self
      · exact List.mem_cons_of_mem c (hmem d hd)
    · obtain ⟨hseparator, hmem⟩ := @ih piece (by simp [hcons, h])
      exact ⟨hseparator, fun d hd => List.mem_cons_of_mem c (hmem d hd)⟩

/-- A first piece stands before a separator and the others. -/
theorem join_cons (piece : Text) {pieces : List Text} (h : pieces ≠ []) :
    join [separator] (piece :: pieces) = piece ++ separator :: join [separator] pieces := by
  cases pieces with
  | nil => exact absurd rfl h
  | cons other rest => simp [join]

/-- The start of the first piece stands before the rest of it and the other pieces. -/
theorem join_append_cons (separator front piece : Text) (pieces : List Text) :
    join separator ((front ++ piece) :: pieces) = front ++ join separator (piece :: pieces) := by
  cases pieces with
  | nil => rfl
  | cons other pieces => simp only [join, List.append_assoc]

/-- Pieces before others stand before a separator and those. -/
theorem join_append {pieces others : List Text} (h : pieces ≠ []) (h' : others ≠ []) :
    join [separator] (pieces ++ others) =
      join [separator] pieces ++ separator :: join [separator] others := by
  induction pieces with
  | nil => exact absurd rfl h
  | cons piece pieces ih =>
    by_cases hnil : pieces = []
    · subst hnil
      exact join_cons piece h'
    · rw [List.cons_append, join_cons piece (by simp [hnil]), join_cons piece hnil, ih hnil]
      simp

/-- The pieces of a text joined again are the text. -/
theorem join_splitOn (separator : Char) (t : Text) :
    join [separator] (splitOn separator t) = t := by
  induction t with
  | nil => rfl
  | cons c rest ih =>
    rw [splitOn]
    split
    next hc => rw [join_cons _ (splitOn_ne_nil separator rest), ih, hc, List.nil_append]
    next hc =>
    split
    next hnil => exact absurd hnil (splitOn_ne_nil separator rest)
    next piece pieces hcons =>
    rw [hcons] at ih
    by_cases hnil : pieces = []
    · subst hnil
      simpa [join] using ih
    · rw [join_cons _ hnil] at ih ⊢
      rw [← ih, List.cons_append]

/-- Joined pieces come back from splitting. -/
theorem splitOn_join {pieces : List Text} (hnil : pieces ≠ [])
    (h : ∀ piece ∈ pieces, separator ∉ piece) :
    splitOn separator (join [separator] pieces) = pieces := by
  induction pieces with
  | nil => exact absurd rfl hnil
  | cons piece pieces ih =>
    have hpiece : separator ∉ piece := h piece List.mem_cons_self
    by_cases hrest : pieces = []
    · subst hrest
      simpa [join] using splitOn_of_not_mem hpiece
    · rw [join_cons piece hrest, splitOn_append hpiece,
        ih hrest fun other hother => h other (List.mem_cons_of_mem _ hother)]

/-- The pieces of two texts with a separator between them are those of each. -/
theorem splitOn_append_cons (separator : Char) (t rest : Text) :
    splitOn separator (t ++ separator :: rest) = splitOn separator t ++ splitOn separator rest := by
  have hjoin : join [separator] (splitOn separator t ++ splitOn separator rest) =
      t ++ separator :: rest := by
    rw [join_append (splitOn_ne_nil separator t) (splitOn_ne_nil separator rest), join_splitOn,
      join_splitOn]
  rw [← hjoin]
  refine splitOn_join (by simp [splitOn_ne_nil]) fun piece hpiece => ?_
  rcases List.mem_append.mp hpiece with hmem | hmem
  · exact (of_mem_splitOn hmem).1
  · exact (of_mem_splitOn hmem).1

/-- A character of joined pieces is a separator or one of a piece. -/
theorem of_mem_join {pieces : List Text} {c : Char} (h : c ∈ join [separator] pieces) :
    c = separator ∨ ∃ piece ∈ pieces, c ∈ piece := by
  induction pieces with
  | nil => simp [join] at h
  | cons piece pieces ih =>
    by_cases hrest : pieces = []
    · subst hrest
      exact .inr ⟨piece, List.mem_cons_self, by simpa [join] using h⟩
    · rw [join_cons piece hrest, List.mem_append, List.mem_cons] at h
      rcases h with h | h | h
      · exact .inr ⟨piece, List.mem_cons_self, h⟩
      · exact .inl h
      · rcases ih h with h | ⟨other, hother, h⟩
        · exact .inl h
        · exact .inr ⟨other, List.mem_cons_of_mem _ hother, h⟩

/-- Joined pieces end like the last of them. -/
theorem getLast?_join_append (pieces : List Text) {last : Text} (h : last ≠ []) :
    (join [separator] (pieces ++ [last])).getLast? = last.getLast? := by
  by_cases hnil : pieces = []
  · simp [hnil, join]
  · rw [join_append hnil (by simp)]
    cases last with
    | nil => exact absurd rfl h
    | cons c last => simp [join, List.getLast?_append, List.getLast?_cons]

end HostKit.Text
