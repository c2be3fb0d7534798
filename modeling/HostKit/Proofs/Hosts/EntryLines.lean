import HostKit.Hosts.Registry
import HostKit.Proofs.Net.AddressCharacters
import HostKit.Proofs.Text.Lines

/-!
# Entries on lines

The line of a new entry is read back as that entry, since neither field can hold a separator.
Reading ignores carriage returns at the end of a line, so it makes no difference how many of
them cutting and joining leave there, nor whether the last line is terminated.
-/

namespace HostKit

namespace Text

/-- A text is cut at the first occurrence of a separator. -/
theorem splitFirst?_append {separator : Char} {before : Text} (h : separator ∉ before)
    (after : Text) :
    splitFirst? separator (before ++ separator :: after) = some (before, after) := by
  induction before with
  | nil => simp [splitFirst?]
  | cons c before ih =>
    have hc : c ≠ separator := fun hc => h (by simp [hc])
    have hbefore : separator ∉ before := fun hbefore => h (by simp [hbefore])
    simp [splitFirst?, hc, ih hbefore]

/-- A text without the separator is not cut. -/
theorem splitFirst?_of_not_mem {separator : Char} {t : Text} (h : separator ∉ t) :
    splitFirst? separator t = none := by
  induction t with
  | nil => rfl
  | cons c rest ih =>
    have hc : c ≠ separator := fun hc => h (by simp [hc])
    have hrest : separator ∉ rest := fun hrest => h (by simp [hrest])
    rw [splitFirst?, if_neg hc, ih hrest, Option.map_none]

/-- A text is cut at the first separator if it has one. -/
theorem splitFirst?_cases (separator : Char) (t : Text) :
    separator ∉ t ∧ splitFirst? separator t = none ∨
      ∃ before after, t = before ++ separator :: after ∧ separator ∉ before ∧
        splitFirst? separator t = some (before, after) := by
  by_cases hmem : separator ∈ t
  · obtain ⟨before, after, rfl, hbefore⟩ := List.eq_append_cons_of_mem hmem
    exact .inr ⟨before, after, rfl, hbefore, splitFirst?_append hbefore after⟩
  · exact .inl ⟨hmem, splitFirst?_of_not_mem hmem⟩

/-- Dropping carriage returns from the end makes up for one more or less of them. -/
theorem dropEndWhile_dropReturn (t : Text) :
    dropEndWhile (· == '\r') (dropReturn t) = dropEndWhile (· == '\r') t := by
  unfold dropReturn
  split
  · next h =>
    obtain ⟨front, rfl⟩ := List.getLast?_eq_some_iff.mp h
    simp [dropEndWhile]
  · rfl

/-- Nothing is dropped from an end that does not satisfy the test. -/
theorem dropEndWhile_of_getLast? {p : Char → Bool} {t : Text} {c : Char}
    (hlast : t.getLast? = some c) (hc : p c = false) : dropEndWhile p t = t := by
  obtain ⟨front, rfl⟩ := List.getLast?_eq_some_iff.mp hlast
  simp [dropEndWhile, hc]

end Text

namespace HostEntry

open Text (dropReturn isBlank)

/-- A new entry has an address that can be parsed and a name without blanks. -/
theorem of_make {ip hostname : Text} {entry : HostEntry} (h : make ip hostname = .ok entry) :
    entry = ⟨ip, hostname⟩ ∧ IpAddress.parse? ip ≠ none ∧ hostname ≠ [] ∧
      ∀ c ∈ hostname, isBlank c = false := by
  unfold make at h
  split at h
  · simp at h
  next hip =>
  split at h
  · simp at h
  next hname =>
  split at h
  · simp at h
  next hblank =>
    refine ⟨(Except.ok.inj h).symm, hip, hname, fun c hc => ?_⟩
    simpa using fun hc' => hblank (List.any_eq_true.mpr ⟨c, hc, hc'⟩)

/-- The name of a new entry does not end with a carriage return. -/
theorem exists_getLast?_of_make {ip hostname : Text} {entry : HostEntry}
    (h : make ip hostname = .ok entry) :
    ∃ c, entry.line.getLast? = some c ∧ (c == '\r') = false := by
  obtain ⟨rfl, -, hname, hblank⟩ := of_make h
  obtain ⟨c, hc⟩ : ∃ c, hostname.getLast? = some c := by
    cases hlast : hostname.getLast? with
    | none => exact absurd (List.getLast?_eq_none_iff.mp hlast) hname
    | some c => exact ⟨c, rfl⟩
  refine ⟨c, by simp [line, List.getLast?_append, List.getLast?_cons, hc], ?_⟩
  have hcr : c ≠ '\r' := by
    rintro rfl
    exact absurd (hblank _ (List.mem_of_getLast? hc)) (by decide)
  simpa using hcr

/-- The line of a new entry is read as that entry. -/
theorem parse?_line {ip hostname : Text} {entry : HostEntry}
    (h : make ip hostname = .ok entry) : parse? entry.line = some entry := by
  obtain ⟨c, hlast, hc⟩ := exists_getLast?_of_make h
  obtain ⟨rfl, hip, -, -⟩ := of_make h
  have htab : '\t' ∉ ip := IpAddress.not_mem_of_parse? hip (by decide)
  unfold parse?
  rw [Text.dropEndWhile_of_getLast? hlast hc, line, Text.splitFirst?_append htab]
  simp [IpAddress.ne_nil_of_parse? hip]

/-- The line of a new entry is one line. -/
theorem newline_not_mem_line {ip hostname : Text} {entry : HostEntry}
    (h : make ip hostname = .ok entry) : '\n' ∉ entry.line := by
  obtain ⟨rfl, hip, -, hblank⟩ := of_make h
  have hnewline : '\n' ∉ ip := IpAddress.not_mem_of_parse? hip (by decide)
  have hname : '\n' ∉ hostname := fun hmem => absurd (hblank _ hmem) (by decide)
  simp [line, hnewline, hname]

/-- Joining the line of a new entry with others and cutting again leaves it as it is. -/
theorem dropReturn_line {ip hostname : Text} {entry : HostEntry}
    (h : make ip hostname = .ok entry) : dropReturn entry.line = entry.line := by
  obtain ⟨c, hlast, hc⟩ := exists_getLast?_of_make h
  apply Text.dropReturn_of_getLast?
  rw [hlast]
  simpa using hc

/-- A carriage return at the end makes no difference to the entry on a line. -/
theorem parse?_dropReturn (line : Text) : parse? (dropReturn line) = parse? line := by
  rw [parse?, parse?, Text.dropEndWhile_dropReturn]

/-- A carriage return at the end makes no difference to the address of a line. -/
theorem matchesIp_dropReturn (line ip : Text) :
    matchesIp (dropReturn line) ip = matchesIp line ip := by
  rw [matchesIp, matchesIp, parse?_dropReturn]

/-- A line matches an address if it is an entry with that address. -/
theorem matchesIp_eq (line ip : Text) :
    matchesIp line ip = (parse? line).any fun entry => decide (entry.ip = ip) := by
  unfold matchesIp
  cases parse? line <;> rfl

/-- The line of a new entry matches its address. -/
theorem matchesIp_line {ip hostname : Text} {entry : HostEntry}
    (h : make ip hostname = .ok entry) : matchesIp entry.line ip = true := by
  rw [matchesIp_eq, parse?_line h]
  simp [(of_make h).1]

end HostEntry

namespace HostRegistry

open Text (dropReturn lines closed)

@[simp] theorem entriesOf_nil : entriesOf [] = [] := rfl

@[simp] theorem entriesOf_append (ls ls' : List Text) :
    entriesOf (ls ++ ls') = entriesOf ls ++ entriesOf ls' := List.filterMap_append

@[simp] theorem otherLines_append (ip : Text) (ls ls' : List Text) :
    otherLines ip (ls ++ ls') = otherLines ip ls ++ otherLines ip ls' := List.filter_append ..

/-- Carriage returns at the ends of lines make no difference to the entries. -/
theorem entriesOf_map_dropReturn (ls : List Text) :
    entriesOf (ls.map dropReturn) = entriesOf ls := by
  have hparse : (HostEntry.parse? ∘ dropReturn) = HostEntry.parse? := by
    funext line
    exact HostEntry.parse?_dropReturn line
  rw [entriesOf, entriesOf, List.filterMap_map, hparse]

/-- The line of a new entry holds just that entry. -/
theorem entriesOf_line {ip hostname : Text} {entry : HostEntry}
    (h : HostEntry.make ip hostname = .ok entry) : entriesOf [entry.line] = [entry] := by
  simp [entriesOf, HostEntry.parse?_line h]

/-- The lines that are kept hold the entries for other addresses. -/
theorem entriesOf_otherLines (ip : Text) (ls : List Text) :
    entriesOf (otherLines ip ls) = (entriesOf ls).filter fun entry => entry.ip ≠ ip := by
  induction ls with
  | nil => rfl
  | cons line ls ih =>
    simp only [entriesOf, otherLines, List.filter_cons, HostEntry.matchesIp_eq] at ih ⊢
    cases hparse : HostEntry.parse? line with
    | none => simp [hparse, ih]
    | some entry =>
      by_cases hip : entry.ip = ip <;> simp [hparse, hip, ih]

/-- A line matches the address exactly if its entry is one for it. -/
theorem any_matchesIp (ip : Text) (ls : List Text) :
    (ls.any fun line => HostEntry.matchesIp line ip) =
      (entriesOf ls).any fun entry => decide (entry.ip = ip) := by
  induction ls with
  | nil => rfl
  | cons line ls ih =>
    rw [List.any_cons, ih, HostEntry.matchesIp_eq]
    cases hparse : HostEntry.parse? line with
    | none => simp [entriesOf, hparse]
    | some entry => simp [entriesOf, hparse]

/-- No line is removed exactly if there is no entry for the address. -/
theorem otherLines_eq_self_iff (ip : Text) (ls : List Text) :
    otherLines ip ls = ls ↔ ∀ line ∈ ls, HostEntry.matchesIp line ip = false := by
  simp [otherLines, List.filter_eq_self]

/-- Lines are missing from those that are kept exactly if they are not all of them. -/
theorem length_otherLines_pos_iff (ip : Text) (ls : List Text) :
    0 < ls.length - (otherLines ip ls).length ↔ otherLines ip ls ≠ ls := by
  have hsublist : (otherLines ip ls).Sublist ls := List.filter_sublist
  have hle := hsublist.length_le
  constructor
  · intro hpos heq
    rw [heq] at hpos
    omega
  · intro hne
    have hlength : (otherLines ip ls).length ≠ ls.length :=
      fun heq => hne (hsublist.eq_of_length heq)
    omega

/-- Terminating the last line makes no difference to the entries. -/
theorem entriesOf_lines_closed (t : Text) : entriesOf (lines (closed t)) = entriesOf (lines t) := by
  rcases Text.closed_eq t with ⟨h, -⟩ | ⟨h, hopen⟩
  · rw [h]
  rw [h]
  clear h
  induction t using Text.line_induction with
  | last body hbody =>
    have hnil : body ≠ [] := by rintro rfl; exact hopen (by simp [Text.Closed])
    rw [Text.lines_append_newline hbody, Text.lines_of_not_mem hbody, if_neg hnil]
    exact entriesOf_map_dropReturn [body]
  | line body rest hbody ih =>
    have hrest : ¬Text.Closed rest := by
      intro hrest
      apply hopen
      intro c hc
      cases rest with
      | nil => simpa [List.getLast?_append, eq_comm] using hc
      | cons d rest => exact hrest c (by simpa [List.getLast?_append] using hc)
    rw [List.append_assoc, List.cons_append, Text.lines_append_newline hbody,
      Text.lines_append_newline hbody]
    have ih := ih hrest
    simp only [entriesOf, List.filterMap_cons] at ih ⊢
    rw [ih]

/-- The entries of a text with a new line of its own put at the end. -/
theorem entriesOf_lines_closed_append {ip hostname : Text} {entry : HostEntry}
    (h : HostEntry.make ip hostname = .ok entry) (t : Text) :
    entriesOf (lines (closed t ++ (entry.line ++ ['\n']))) = entriesOf (lines t) ++ [entry] := by
  have hclosed : Text.Closed (closed t) := by
    rcases Text.closed_eq t with ⟨ht, hclosed⟩ | ⟨ht, -⟩
    · rwa [ht]
    · rw [ht]; intro c hc; simpa [eq_comm] using hc
  have hline : lines (entry.line ++ ['\n']) = [entry.line] := by
    rw [Text.lines_append_newline (HostEntry.newline_not_mem_line h), HostEntry.dropReturn_line h]
    rfl
  rw [Text.lines_append hclosed, hline, entriesOf_append, entriesOf_lines_closed,
    entriesOf_line h]

/-- A kept line is one line. -/
theorem newline_not_mem_of_mem_otherLines {ip t line : Text} (h : line ∈ otherLines ip (lines t)) :
    '\n' ∉ line :=
  Text.newline_not_mem_of_mem_lines (List.mem_filter.mp h).1

/-- With the line of a new entry at the end, there is still one line each. -/
theorem newline_not_mem_of_mem_append_line {ip hostname : Text} {entry : HostEntry}
    (h : HostEntry.make ip hostname = .ok entry) {ls : List Text}
    (hls : ∀ line ∈ ls, '\n' ∉ line) : ∀ line ∈ ls ++ [entry.line], '\n' ∉ line := by
  intro line hline
  rcases List.mem_append.mp hline with hline | hline
  · exact hls line hline
  · rw [List.mem_singleton.mp hline]
    exact HostEntry.newline_not_mem_line h

/-- The kept lines and the line of a new entry, joined, have the other entries and the new one. -/
theorem entriesOf_lines_unlines_otherLines {ip hostname : Text} {entry : HostEntry}
    (h : HostEntry.make ip hostname = .ok entry) (t : Text) :
    entriesOf (lines (Text.unlines (otherLines ip (lines t) ++ [entry.line]))) =
      ((entriesOf (lines t)).filter fun entry => entry.ip ≠ ip) ++ [entry] := by
  have hnewline : ∀ line ∈ otherLines ip (lines t) ++ [entry.line], '\n' ∉ line :=
    newline_not_mem_of_mem_append_line h fun line => newline_not_mem_of_mem_otherLines
  rw [Text.lines_unlines hnewline, entriesOf_map_dropReturn, entriesOf_append,
    entriesOf_otherLines, entriesOf_line h]

/-- The kept lines, joined, have the other entries. -/
theorem entriesOf_lines_unlines (ip t : Text) :
    entriesOf (lines (Text.unlines (otherLines ip (lines t)))) =
      (entriesOf (lines t)).filter fun entry => entry.ip ≠ ip := by
  rw [Text.lines_unlines fun line hline => newline_not_mem_of_mem_otherLines hline,
    entriesOf_map_dropReturn, entriesOf_otherLines]

end HostRegistry
end HostKit
