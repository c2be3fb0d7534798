import HostKit.Proofs.Hosts.EntryLines

/-!
# The line format of entries

Nothing is escaped on a line, so all depends on which entries can be made. An entry is made exactly
of an address of the grammar and a name without blanks. Neither of them can hold a tab or a line
end, so the line of an entry is one line that is cut where its address ends, and it is read as that
entry even if carriage returns have come to its end.
-/

namespace HostKit.HostEntry

open Text (isBlank)

variable {ip hostname : Text} {entry : HostEntry}

/-- An entry is made exactly of an address and a name that is not empty and has no blanks. -/
theorem make_eq_ok_iff :
    make ip hostname = .ok entry ↔ IpAddress.IsAddress ip ∧ hostname ≠ [] ∧
      (∀ c ∈ hostname, isBlank c = false) ∧ entry = ⟨ip, hostname⟩ := by
  rw [← IpAddress.parse?_ne_none_iff]
  constructor
  · intro h
    obtain ⟨rfl, hip, hname, hblank⟩ := of_make h
    exact ⟨hip, hname, hblank, rfl⟩
  · rintro ⟨hip, hname, hblank, rfl⟩
    have hany : ¬hostname.any isBlank = true := by
      rw [List.any_eq_true]
      rintro ⟨c, hc, hc'⟩
      rw [hblank c hc] at hc'
      cases hc'
    rw [make, if_neg hip, if_neg hname, if_neg hany]

/-- The tab behind the address is the only blank on the line of an entry. -/
theorem isBlank_of_mem_line (h : make ip hostname = .ok entry) {c : Char} (hc : c ∈ entry.line)
    (hblank : isBlank c = true) : c = '\t' := by
  obtain ⟨rfl, hip, -, hname⟩ := of_make h
  rcases List.mem_append.mp hc with hmem | hmem
  · rw [IpAddress.isBlank_of_mem hip hmem] at hblank
    cases hblank
  rcases List.mem_cons.mp hmem with rfl | hmem
  · rfl
  · rw [hname c hmem] at hblank
    cases hblank

/-- Carriage returns at the end make no difference to the entry on a line. -/
theorem parse?_append_returns (line : Text) (n : Nat) :
    parse? (line ++ List.replicate n '\r') = parse? line := by
  have hreturns : ∀ c ∈ (List.replicate n '\r').reverse, (c == '\r') = true := by
    intro c hc
    simpa using (List.mem_replicate.mp (List.mem_reverse.mp hc)).2
  have hdrop : Text.dropEndWhile (· == '\r') (line ++ List.replicate n '\r') =
      Text.dropEndWhile (· == '\r') line := by
    rw [Text.dropEndWhile, List.reverse_append, List.dropWhile_append_of_pos hreturns,
      Text.dropEndWhile]
  rw [parse?, parse?, hdrop]

/-- Entries survive the line format. An entry is made exactly of an address of either kind and a
name that is not empty and has no blanks. Its line has no line end, and its first tab comes right
behind the address. However many carriage returns are put at its end, the line is read as the
entry, and it is a line for this address and for no other text. -/
theorem line_survives (ip hostname : Text) :
    ((∃ entry, make ip hostname = .ok entry) ↔
      IpAddress.IsAddress ip ∧ hostname ≠ [] ∧ ∀ c ∈ hostname, isBlank c = false) ∧
    ∀ entry, make ip hostname = .ok entry →
      (∀ c ∈ entry.line, isBlank c = true → c = '\t') ∧ '\n' ∉ entry.line ∧ '\r' ∉ entry.line ∧
      (entry.line = ip ++ '\t' :: hostname ∧ '\t' ∉ ip) ∧
      ∀ n, parse? (entry.line ++ List.replicate n '\r') = some entry ∧
        ∀ other, matchesIp (entry.line ++ List.replicate n '\r') other = true ↔ other = ip := by
  refine ⟨?_, fun entry h => ?_⟩
  · simp only [make_eq_ok_iff, exists_and_left, exists_eq, and_true]
  obtain ⟨rfl, hip, -, -⟩ := of_make h
  have hblank {c : Char} (hc : isBlank c = true) (htab : c ≠ '\t') :
      c ∉ (HostEntry.mk ip hostname).line := fun hmem => htab (isBlank_of_mem_line h hmem hc)
  have htab : '\t' ∉ ip := IpAddress.not_mem_of_parse? hip (by decide)
  refine ⟨fun c hc hc' => isBlank_of_mem_line h hc hc', hblank (by decide) (by decide),
    hblank (by decide) (by decide), ⟨rfl, htab⟩, fun n => ?_⟩
  have hparse := (parse?_append_returns (HostEntry.mk ip hostname).line n).trans (parse?_line h)
  refine ⟨hparse, fun other => ?_⟩
  rw [matchesIp_eq, hparse, Option.any_some, decide_eq_true_iff]
  exact eq_comm

/-- An IPv6 address that ends with an IPv4 address, and a name with a character beyond ASCII. -/
theorem line_survives_embedded :
    make "::ffff:10.0.0.1".toList "bücher".toList =
        .ok ⟨"::ffff:10.0.0.1".toList, "bücher".toList⟩ ∧
      parse? "::ffff:10.0.0.1\tbücher\r\r".toList =
        some ⟨"::ffff:10.0.0.1".toList, "bücher".toList⟩ := by
  have hmake : make "::ffff:10.0.0.1".toList "bücher".toList =
      .ok ⟨"::ffff:10.0.0.1".toList, "bücher".toList⟩ := by rfl
  obtain ⟨-, hsurvives⟩ := line_survives "::ffff:10.0.0.1".toList "bücher".toList
  exact ⟨hmake, ((hsurvives _ hmake).2.2.2.2 2).1⟩

end HostKit.HostEntry
