import HostKit.Proofs.Text.Lines

/-!
# Choosing lines and joining them

A text is cut, some of its lines are chosen, and these are joined again. Each chosen segment comes
back with a line feed at its end, and it is the segment itself unless a carriage return stood
before the line feed: then the carriage return is lost.
-/

namespace HostKit.Text

/-- The segments of a text whose lines are chosen. -/
def chosen (keep : Text → Bool) (t : Text) : List Text :=
  (segments t).filter fun segment => keep (dropTerminator segment)

/-- A segment with a carriage return before its line feed. -/
def HasReturn (segment : Text) : Prop := ['\r', '\n'] <:+ segment

/-- Closing reaches only what stands after the first line feed. -/
theorem closed_append_newline (body rest : Text) :
    closed (body ++ '\n' :: rest) = body ++ '\n' :: closed rest := by
  rcases List.eq_nil_or_concat rest with rfl | ⟨front, c, rfl⟩
  · simp [closed]
  · by_cases hc : c = '\n'
    · simp [closed, List.getLast?_append, List.getLast?_cons, hc]
    · simp [closed, List.getLast?_append, List.getLast?_cons, hc]

/-- A piece without line feeds is closed by one, unless it is empty. -/
theorem closed_of_not_mem {body : Text} (h : '\n' ∉ body) (hnil : body ≠ []) :
    closed body = body ++ ['\n'] := by
  rcases closed_eq body with ⟨-, hclosed⟩ | ⟨heq, -⟩
  · obtain ⟨c, hc⟩ : ∃ c, body.getLast? = some c := by
      cases hlast : body.getLast? with
      | none => exact absurd (List.getLast?_eq_none_iff.mp hlast) hnil
      | some c => exact ⟨c, rfl⟩
    exact absurd (hclosed c hc ▸ List.mem_of_getLast? hc) h
  · exact heq

/-- A piece that is ended by a line feed has a carriage return before it if it ends with one. -/
theorem hasReturn_append_newline {body : Text} :
    HasReturn (body ++ ['\n']) ↔ body.getLast? = some '\r' := by
  rw [List.getLast?_eq_some_iff]
  constructor
  · rintro ⟨front, heq⟩
    have happend : (front ++ ['\r']) ++ ['\n'] = body ++ ['\n'] := by simpa using heq
    exact ⟨front, (List.append_inj_left' happend rfl).symm⟩
  · rintro ⟨front, rfl⟩
    exact ⟨front, by simp⟩

/-- A segment without a line feed has no carriage return before one. -/
theorem not_hasReturn_of_not_mem {body : Text} (h : '\n' ∉ body) : ¬HasReturn body := by
  rintro ⟨front, rfl⟩
  simp at h

/-- Joined lines are their own segments. -/
theorem segments_unlines {ls : List Text} (h : ∀ line ∈ ls, '\n' ∉ line) :
    segments (unlines ls) = ls.map (· ++ ['\n']) := by
  induction ls with
  | nil => rfl
  | cons line ls ih =>
    rw [unlines_cons, segments_append_newline (h line List.mem_cons_self),
      ih fun l hl => h l (List.mem_cons_of_mem _ hl), List.map_cons]

/-- Joining keeps different rows of lines apart. -/
theorem unlines_injective {ls ls' : List Text} (h : ∀ line ∈ ls, '\n' ∉ line)
    (h' : ∀ line ∈ ls', '\n' ∉ line) (heq : unlines ls = unlines ls') : ls = ls' := by
  have hsegments : ls.map (· ++ ['\n']) = ls'.map (· ++ ['\n']) := by
    rw [← segments_unlines h, ← segments_unlines h', heq]
  exact (List.map_inj_right fun _ _ happend => List.append_cancel_right happend).mp hsegments

/-- A piece without line feeds is chosen as a whole, and joined as a whole. -/
theorem unlines_filter_lines_of_not_mem (keep : Text → Bool) {body : Text} (h : '\n' ∉ body) :
    unlines ((lines body).filter keep) = closed (chosen keep body).flatten := by
  rw [lines_of_not_mem h, chosen, segments_of_not_mem h]
  by_cases hnil : body = []
  · simp [hnil, unlines, closed]
  · by_cases hkeep : keep body = true
    · simp [hnil, hkeep, dropTerminator_of_not_mem h, closed_of_not_mem h hnil, unlines]
    · simp [hnil, hkeep, dropTerminator_of_not_mem h, unlines, closed]

/-- A first line is chosen or not, and the choice goes on after it. -/
theorem chosen_append_newline (keep : Text → Bool) {body : Text} (h : '\n' ∉ body) (rest : Text) :
    chosen keep (body ++ '\n' :: rest) =
      if keep (dropReturn body) then (body ++ ['\n']) :: chosen keep rest
      else chosen keep rest := by
  rw [chosen, segments_append_newline h, List.filter_cons, dropTerminator_append_newline]
  rfl

/-- The chosen lines joined are no longer than the chosen segments, closed. -/
theorem length_unlines_filter_lines_le (keep : Text → Bool) (t : Text) :
    (unlines ((lines t).filter keep)).length ≤ (closed (chosen keep t).flatten).length := by
  induction t using line_induction with
  | last body h =>
    exact Nat.le_of_eq (congrArg List.length (unlines_filter_lines_of_not_mem keep h))
  | line body rest h ih =>
    rw [lines_append_newline h, List.filter_cons, chosen_append_newline keep h]
    by_cases hkeep : keep (dropReturn body) = true
    · have hbody : (dropReturn body).length ≤ body.length := by
        unfold dropReturn
        split <;> simp
      rw [if_pos hkeep, if_pos hkeep, unlines_cons, List.flatten_cons, List.append_assoc,
        List.singleton_append, closed_append_newline]
      simp only [List.length_append, List.length_cons]
      omega
    · rw [if_neg hkeep, if_neg hkeep]
      exact ih

/-- The chosen lines joined are the chosen segments, closed, exactly if no carriage return stands
before a line feed in them. -/
theorem unlines_filter_lines_eq_iff (keep : Text → Bool) (t : Text) :
    unlines ((lines t).filter keep) = closed (chosen keep t).flatten ↔
      ∀ segment ∈ chosen keep t, ¬HasReturn segment := by
  induction t using line_induction with
  | last body h =>
    refine iff_of_true (unlines_filter_lines_of_not_mem keep h) fun segment hsegment => ?_
    rw [chosen, segments_of_not_mem h] at hsegment
    by_cases hnil : body = []
    · simp [hnil] at hsegment
    · have hmem := (List.mem_filter.mp hsegment).1
      rw [if_neg hnil, List.mem_singleton] at hmem
      exact hmem ▸ not_hasReturn_of_not_mem h
  | line body rest h ih =>
    rw [lines_append_newline h, List.filter_cons, chosen_append_newline keep h]
    by_cases hkeep : keep (dropReturn body) = true
    · rw [if_pos hkeep, if_pos hkeep, unlines_cons, List.flatten_cons, List.append_assoc,
        List.singleton_append, closed_append_newline, List.forall_mem_cons,
        hasReturn_append_newline, ← ih]
      by_cases hreturn : body.getLast? = some '\r'
      · -- The lost carriage return makes the joined lines too short.
        obtain ⟨front, rfl⟩ := List.getLast?_eq_some_iff.mp hreturn
        have hle := length_unlines_filter_lines_le keep rest
        refine iff_of_false (fun heq => ?_) fun hboth => hboth.1 hreturn
        have hlength := congrArg List.length heq
        simp [dropReturn] at hlength
        omega
      · rw [dropReturn_of_getLast? hreturn]
        simp [hreturn]
    · rw [if_neg hkeep, if_neg hkeep]
      exact ih

end HostKit.Text
