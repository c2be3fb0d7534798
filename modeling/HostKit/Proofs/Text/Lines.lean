import HostKit.Text.Line

/-!
# Cutting into lines and joining again

A text is either a last piece without a line feed or a line before a shorter text, and every
fact about its segments and its lines follows that shape. Lines lose one carriage return before
their line feed, so lines that were joined come back without it: this is all that cutting and
joining may change.
-/

namespace HostKit.Text

/-- The text without one carriage return at its end. -/
def dropReturn (t : Text) : Text := if t.getLast? = some '\r' then t.dropLast else t

/-- A text that does not end with a carriage return keeps its end. -/
theorem dropReturn_of_getLast? {t : Text} (h : t.getLast? ≠ some '\r') : dropReturn t = t :=
  if_neg h

/-- A text keeps its end exactly if it is not a carriage return. -/
theorem dropReturn_eq_self_iff {t : Text} : dropReturn t = t ↔ t.getLast? ≠ some '\r' := by
  constructor
  · intro heq hlast
    obtain ⟨front, rfl⟩ := List.getLast?_eq_some_iff.mp hlast
    have hlength := congrArg List.length heq
    simp [dropReturn] at hlength
  · exact dropReturn_of_getLast?

/-- The text with a line feed at its end, unless it is empty or has one there. -/
def closed (t : Text) : Text :=
  match t.getLast? with
  | none => []
  | some c => if c = '\n' then t else t ++ ['\n']

/-- Whether the text is empty or ends with a line feed. -/
def Closed (t : Text) : Prop := ∀ c, t.getLast? = some c → c = '\n'

/-- A text is a piece without line feeds, or such a piece with its line feed and more text. -/
theorem line_induction {P : Text → Prop} (t : Text)
    (last : ∀ body, '\n' ∉ body → P body)
    (line : ∀ body rest, '\n' ∉ body → P rest → P (body ++ '\n' :: rest)) : P t := by
  -- The piece that is being read is carried along, since it may grow at its end only.
  have extend : ∀ (t body : Text), '\n' ∉ body → P (body ++ t) := by
    intro t
    induction t with
    | nil => intro body hbody; simpa using last body hbody
    | cons c rest ih =>
      intro body hbody
      by_cases hc : c = '\n'
      · subst hc
        exact line body rest hbody (ih [] (by simp))
      · have h := ih (body ++ [c]) (by simp [hbody, Ne.symm hc])
        simpa using h
  simpa using extend t [] (by simp)

/-- A piece without line feeds is one segment, or none if it is empty. -/
theorem segments_of_not_mem {body : Text} (h : '\n' ∉ body) :
    segments body = if body = [] then [] else [body] := by
  induction body with
  | nil => rfl
  | cons c rest ih =>
    have hc : c ≠ '\n' := fun hc => h (by simp [hc])
    have hrest : '\n' ∉ rest := fun hrest => h (by simp [hrest])
    rw [segments, if_neg hc, ih hrest]
    cases rest <;> simp

/-- The first segment is what stands before the first line feed, with it. -/
theorem segments_append_newline {body : Text} (h : '\n' ∉ body) (rest : Text) :
    segments (body ++ '\n' :: rest) = (body ++ ['\n']) :: segments rest := by
  induction body with
  | nil => simp [segments]
  | cons c body ih =>
    have hc : c ≠ '\n' := fun hc => h (by simp [hc])
    have hbody : '\n' ∉ body := fun hbody => h (by simp [hbody])
    rw [List.cons_append, segments, if_neg hc, ih hbody]
    rfl

/-- A segment has no line feed but the one that ends it, and only an unterminated last one has
none at all. -/
theorem exists_body_of_mem_segments {t segment : Text} (h : segment ∈ segments t) :
    ∃ body, '\n' ∉ body ∧ (segment = body ++ ['\n'] ∨ segment = body ∧ body ≠ []) := by
  induction t using line_induction with
  | last body hbody =>
    rw [segments_of_not_mem hbody] at h
    by_cases hnil : body = []
    · simp [hnil] at h
    · rw [if_neg hnil, List.mem_singleton] at h
      exact ⟨body, hbody, .inr ⟨h, hnil⟩⟩
  | line body rest hbody ih =>
    rw [segments_append_newline hbody, List.mem_cons] at h
    rcases h with rfl | h
    · exact ⟨body, hbody, .inl rfl⟩
    · exact ih h

/-- A terminated segment loses its line feed and one carriage return. -/
theorem dropTerminator_append_newline (body : Text) :
    dropTerminator (body ++ ['\n']) = dropReturn body := by
  rcases List.eq_nil_or_concat body with rfl | ⟨front, c, rfl⟩
  · rfl
  · by_cases hc : c = '\r'
    · simp [dropTerminator, dropReturn, hc]
    · simp [dropTerminator, dropReturn, hc]

/-- An unterminated segment is its line. -/
theorem dropTerminator_of_not_mem {body : Text} (h : '\n' ∉ body) :
    dropTerminator body = body := by
  unfold dropTerminator
  split
  · next heq => exact absurd (List.mem_reverse.mp (by simp [heq])) h
  · next heq => exact absurd (List.mem_reverse.mp (by simp [heq])) h
  · rfl

/-- The first line is what stands before the first line feed, without a carriage return. -/
theorem lines_append_newline {body : Text} (h : '\n' ∉ body) (rest : Text) :
    lines (body ++ '\n' :: rest) = dropReturn body :: lines rest := by
  simp [lines, segments_append_newline h, dropTerminator_append_newline]

/-- A piece without line feeds is one line, or none if it is empty. -/
theorem lines_of_not_mem {body : Text} (h : '\n' ∉ body) :
    lines body = if body = [] then [] else [body] := by
  rw [lines, segments_of_not_mem h]
  by_cases hbody : body = []
  · simp [hbody]
  · simp [hbody, dropTerminator_of_not_mem h]

/-- Taking away a carriage return brings no line feed. -/
theorem not_mem_dropReturn {c : Char} {t : Text} (h : c ∉ t) : c ∉ dropReturn t := by
  unfold dropReturn
  split
  · exact fun hc => h ((List.dropLast_sublist t).subset hc)
  · exact h

/-- No line has a line feed in it. -/
theorem newline_not_mem_of_mem_lines {t line : Text} (h : line ∈ lines t) : '\n' ∉ line := by
  obtain ⟨segment, hsegment, rfl⟩ := List.mem_map.mp h
  obtain ⟨body, hbody, rfl | ⟨rfl, -⟩⟩ := exists_body_of_mem_segments hsegment
  · rw [dropTerminator_append_newline]
    exact not_mem_dropReturn hbody
  · rwa [dropTerminator_of_not_mem hbody]

/-- A line before others is joined with its line feed. -/
theorem unlines_cons (line : Text) (ls : List Text) :
    unlines (line :: ls) = line ++ '\n' :: unlines ls := by
  simp [unlines]

/-- Lines that were joined come back, each without one carriage return at its end. -/
theorem lines_unlines {ls : List Text} (h : ∀ line ∈ ls, '\n' ∉ line) :
    lines (unlines ls) = ls.map dropReturn := by
  induction ls with
  | nil => rfl
  | cons line ls ih =>
    rw [unlines_cons, lines_append_newline (h line List.mem_cons_self),
      ih fun l hl => h l (List.mem_cons_of_mem _ hl), List.map_cons]

/-- Closing a text leaves it as it is or adds one line feed. -/
theorem closed_eq (t : Text) :
    closed t = t ∧ Closed t ∨ closed t = t ++ ['\n'] ∧ ¬Closed t := by
  unfold closed Closed
  cases h : t.getLast? with
  | none => exact .inl ⟨(List.getLast?_eq_none_iff.mp h).symm, by simp⟩
  | some c =>
    by_cases hc : c = '\n'
    · exact .inl ⟨by simp [hc], by simp [hc]⟩
    · exact .inr ⟨by simp [hc], by simp [hc]⟩

/-- After a closed text, the segments of more text are cut as if it stood alone. -/
theorem segments_append {t : Text} (h : Closed t) (u : Text) :
    segments (t ++ u) = segments t ++ segments u := by
  induction t using line_induction with
  | last body hbody =>
    have hnil : body = [] := by
      cases hlast : body.getLast? with
      | none => exact List.getLast?_eq_none_iff.mp hlast
      | some c => exact absurd (List.mem_of_getLast? (h c hlast ▸ hlast)) hbody
    simp [hnil, segments]
  | line body rest hbody ih =>
    have hrest : Closed rest := by
      intro c hc
      apply h c
      cases rest with
      | nil => simp at hc
      | cons d rest => simpa [List.getLast?_append] using hc
    rw [List.append_assoc, List.cons_append, segments_append_newline hbody,
      segments_append_newline hbody, ih hrest, List.cons_append]

/-- After a closed text, the lines of more text are cut as if it stood alone. -/
theorem lines_append {t : Text} (h : Closed t) (u : Text) :
    lines (t ++ u) = lines t ++ lines u := by
  simp [lines, segments_append h]

end HostKit.Text
