import HostKit.Proofs.Files.Items

/-!
# A free place for a temporary file

Temporary names are told apart by their numbers. One more name is tried than there are items, so
the place that is found is free.
-/

namespace HostKit.Files

variable {files : Files}

/-- The number of a temporary name can be read off its end. -/
theorem temporaryName_injective {m n : Nat} (h : temporaryName m = temporaryName n) : m = n := by
  have hvalue (k : Nat) : Nat.ofDigitChars 10 ((temporaryName k).drop 4) 0 = k := by
    have hdrop : (temporaryName k).drop 4 =
        List.replicate (6 - (Text.ofNat k).length) '0' ++ Text.ofNat k := by
      simp [temporaryName]
    rw [hdrop, Nat.ofDigitChars_append, Nat.ofDigitChars_replicate_zero, Nat.mul_zero,
      Text.ofNat, Nat.ofDigitChars_ten_toDigits]
  rw [← hvalue m, h, hvalue n]

/-- The place that is found is free, or every name that was tried is taken. -/
theorem freeLocation_cases (files : Files) (directory : Location) (n tries : Nat) :
    ∃ k, freeLocation files directory n tries = directory ++ [temporaryName k] ∧
      (files.item? (directory ++ [temporaryName k]) = none ∨
        k = n + tries ∧
          ∀ i, n ≤ i → i < k → files.item? (directory ++ [temporaryName i]) ≠ none) := by
  induction tries generalizing n with
  | zero => exact ⟨n, rfl, .inr ⟨rfl, fun i hle hlt => by omega⟩⟩
  | succ tries ih =>
    by_cases hfree : files.item? (directory ++ [temporaryName n]) = none
    · exact ⟨n, by simp [freeLocation, hfree], .inl hfree⟩
    · obtain ⟨k, hlocation, hcases⟩ := ih (n + 1)
      refine ⟨k, by simp [freeLocation, hfree, hlocation], hcases.imp_right ?_⟩
      rintro ⟨hk, htaken⟩
      refine ⟨by omega, fun i hle hlt => ?_⟩
      by_cases hi : i = n
      · rwa [hi]
      · exact htaken i (by omega) hlt

/-- The place for a temporary file is free. -/
theorem item?_freeLocation (files : Files) (directory : Location) :
    ∃ k, freeLocation files directory 0 files.items.length = directory ++ [temporaryName k] ∧
      files.item? (directory ++ [temporaryName k]) = none := by
  obtain ⟨k, hlocation, hfree | ⟨hk, htaken⟩⟩ :=
    freeLocation_cases files directory 0 files.items.length
  · exact ⟨k, hlocation, hfree⟩
  refine ⟨k, hlocation, ?_⟩
  cases hlast : files.item? (directory ++ [temporaryName k]) with
  | none => rfl
  | some item =>
    -- Otherwise the tried places would be more than there are items.
    let tried := (List.range (files.items.length + 1)).map fun i => directory ++ [temporaryName i]
    have hnodup : tried.Nodup := by
      rw [List.nodup_iff_pairwise_ne, List.pairwise_map]
      refine List.nodup_range.imp fun hij heq => hij ?_
      exact temporaryName_injective (by simpa using heq)
    have hsubset : tried ⊆ files.items.map Prod.fst := by
      intro l hl
      obtain ⟨i, hi, rfl⟩ := List.mem_map.mp hl
      have hlt := List.mem_range.mp hi
      have htaken' : files.item? (directory ++ [temporaryName i]) ≠ none := by
        by_cases hik : i = k
        · rw [hik, hlast]
          simp
        · exact htaken i (by omega) (by omega)
      obtain ⟨item, hitem⟩ := Option.ne_none_iff_exists'.mp htaken'
      exact List.mem_map_of_mem (mem_items_of_item? (by simp) hitem)
    have hlength := hnodup.length_le_of_subset hsubset
    simp only [tried, List.length_map, List.length_range] at hlength
    omega

end HostKit.Files
