import HostKit.Text.Blank

/-!
# Blanks

A digit of any radix is no blank. Trimming takes away the blanks around a text that has none in it.
Dropping from the end takes a last piece of the text and leaves nothing more to drop.
-/

namespace HostKit.Text

/-- A digit is an ASCII digit or letter. -/
theorem bounds_of_digitValue? {c : Char} {value : Nat} (h : digitValue? c = some value) :
    48 ≤ c.toNat ∧ c.toNat ≤ 57 ∨ 97 ≤ c.toNat ∧ c.toNat ≤ 122 ∨
      65 ≤ c.toNat ∧ c.toNat ≤ 90 := by
  unfold digitValue? at h
  split at h
  · next hdigit => exact .inl hdigit
  split at h
  · next hsmall => exact .inr (.inl hsmall)
  split at h
  · next hcapital => exact .inr (.inr hcapital)
  · cases h

/-- A digit is no blank. -/
theorem isBlank_of_digitValue? {c : Char} {value : Nat} (h : digitValue? c = some value) :
    isBlank c = false := by
  have hbounds := bounds_of_digitValue? h
  simp only [isBlank, inRanges, blankRanges, List.any_cons, List.any_nil, Bool.or_false,
    Bool.or_eq_false_iff, Bool.and_eq_false_iff, decide_eq_false_iff_not]
  omega

/-- Nothing is dropped from a text without blanks. -/
theorem dropWhile_isBlank_of_not {t : Text} (h : ∀ c ∈ t, isBlank c = false) :
    t.dropWhile isBlank = t := by
  cases t with
  | nil => rfl
  | cons c t => exact List.dropWhile_cons_of_neg (by simp [h c List.mem_cons_self])

/-- A text without blanks is what is left between blanks. -/
theorem trim_append {before t after : Text} (hbefore : ∀ c ∈ before, isBlank c = true)
    (ht : ∀ c ∈ t, isBlank c = false) (hafter : ∀ c ∈ after, isBlank c = true) :
    trim (before ++ t ++ after) = t := by
  have hreverse : ∀ c ∈ after.reverse, isBlank c = true := fun c hc =>
    hafter c (List.mem_reverse.mp hc)
  have hkept : t.reverse.dropWhile isBlank = t.reverse :=
    dropWhile_isBlank_of_not fun c hc => ht c (List.mem_reverse.mp hc)
  rw [trim, trimStart, List.append_assoc, List.dropWhile_append_of_pos hbefore]
  cases t with
  | nil =>
    have hnone : (after ++ []).dropWhile isBlank = [].dropWhile isBlank :=
      List.dropWhile_append_of_pos hafter
    rw [List.append_nil] at hnone
    rw [List.nil_append, hnone]
    rfl
  | cons c t =>
    have hc : ¬isBlank c = true := by simp [ht c List.mem_cons_self]
    rw [List.cons_append, List.dropWhile_cons_of_neg hc, ← List.cons_append, trimEnd, dropEndWhile,
      List.reverse_append, List.dropWhile_append_of_pos hreverse, hkept, List.reverse_reverse]

/-- All that can be dropped from the end of a text is dropped at once. -/
theorem dropEndWhile_dropEndWhile (p : Char → Bool) (t : Text) :
    dropEndWhile p (dropEndWhile p t) = dropEndWhile p t := by
  have hhead := List.head?_dropWhile_not p t.reverse
  unfold dropEndWhile
  rw [List.reverse_reverse]
  cases hkept : t.reverse.dropWhile p with
  | nil => rfl
  | cons c rest =>
    rw [hkept, List.head?_cons] at hhead
    rw [List.dropWhile_cons_of_neg (by simp [hhead])]

/-- What is dropped from the end of a text satisfies the test. -/
theorem exists_append_dropEndWhile (p : Char → Bool) (t : Text) :
    ∃ dropped, t = dropEndWhile p t ++ dropped ∧ ∀ c ∈ dropped, p c = true := by
  refine ⟨(t.reverse.takeWhile p).reverse, ?_, fun c hc => ?_⟩
  · rw [dropEndWhile, ← List.reverse_append, List.takeWhile_append_dropWhile, List.reverse_reverse]
  · exact List.all_eq_true.mp List.all_takeWhile c (List.mem_reverse.mp hc)

/-- Trimming takes away blanks at both ends and nothing else. -/
theorem exists_append_trim (t : Text) :
    ∃ before after, t = before ++ trim t ++ after ∧ (∀ c ∈ before, isBlank c = true) ∧
      ∀ c ∈ after, isBlank c = true := by
  obtain ⟨after, hafter, hblank⟩ := exists_append_dropEndWhile isBlank (trimStart t)
  refine ⟨t.takeWhile isBlank, after, ?_, List.all_eq_true.mp List.all_takeWhile, hblank⟩
  rw [trim, trimEnd, List.append_assoc, ← hafter, trimStart, List.takeWhile_append_dropWhile]

end HostKit.Text
