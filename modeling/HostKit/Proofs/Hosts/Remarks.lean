import HostKit.Proofs.Hosts.Readers

/-!
# Comments and blank lines

A comment or a blank line is no entry as long as it has no tab behind its first character. If it
has one, what stands before the first tab is taken for an address, and the line is listed, found
and removed by it. That text begins with a blank or a hash, so it is never an address. Hence lookups
and removals of addresses pass over comments and blank lines, and a replacement, which asks for an
address, carries all of them over.
-/

namespace HostKit

namespace HostEntry

open Text (dropReturn dropEndWhile isBlank trimStart)

variable {line ip hostname : Text} {entry : HostEntry} {c : Char}

/-- A line of blanks only, or a comment, which is a line whose first other character is a hash. -/
def isRemark (line : Text) : Bool :=
  match trimStart line with
  | [] => true
  | c :: _ => c = '#'

/-- Blanks at the start are passed over. -/
theorem isRemark_cons (c : Char) (line : Text) :
    isRemark (c :: line) = if isBlank c then isRemark line else decide (c = '#') := by
  by_cases hc : isBlank c = true
  · rw [if_pos hc, isRemark, trimStart, List.dropWhile_cons_of_pos hc]
    rfl
  · rw [if_neg hc, isRemark, trimStart, List.dropWhile_cons_of_neg hc]

/-- A blank at the end makes no difference. -/
theorem isRemark_append_blank (hc : isBlank c = true) (line : Text) :
    isRemark (line ++ [c]) = isRemark line := by
  induction line with
  | nil => rw [List.nil_append, isRemark_cons, if_pos hc]
  | cons d line ih => rw [List.cons_append, isRemark_cons, isRemark_cons, ih]

/-- A carriage return at the end makes no difference. -/
theorem isRemark_dropReturn (line : Text) : isRemark (dropReturn line) = isRemark line := by
  unfold dropReturn
  split
  · next hlast =>
    obtain ⟨front, rfl⟩ := List.getLast?_eq_some_iff.mp hlast
    rw [List.dropLast_concat, isRemark_append_blank (by decide)]
  · rfl

/-- No line that begins with an address is a remark. -/
theorem isRemark_address_append (hip : IpAddress.parse? ip ≠ none) (rest : Text) :
    isRemark (ip ++ rest) = false := by
  cases ip with
  | nil => exact absurd rfl (IpAddress.ne_nil_of_parse? hip)
  | cons c ip =>
    have hblank : isBlank c = false := IpAddress.isBlank_of_mem hip List.mem_cons_self
    have hhash : c ≠ '#' := by
      rintro rfl
      exact IpAddress.not_mem_of_parse? hip (by decide) List.mem_cons_self
    rw [List.cons_append, isRemark_cons, hblank]
    simp [hhash]

/-! ## Entries on remarks -/

/-- Carriage returns at the end make no difference to whether there is a tab and whether one comes
first. -/
theorem tab_dropEndWhile (line : Text) :
    ('\t' ∉ dropEndWhile (· == '\r') line ∨
        (dropEndWhile (· == '\r') line).head? = some '\t') ↔
      '\t' ∉ line ∨ line.head? = some '\t' := by
  obtain ⟨returns, hline, hreturns⟩ := Text.exists_append_dropEndWhile (· == '\r') line
  have htab : '\t' ∉ returns := fun hmem => absurd (hreturns _ hmem) (by decide)
  generalize dropEndWhile (· == '\r') line = kept at hline ⊢
  subst hline
  cases kept with
  | nil => simp [htab]
  | cons d kept => simp [htab]

/-- A line is no entry exactly if it has no tab, or begins with one. -/
theorem parse?_eq_none_iff : parse? line = none ↔ '\t' ∉ line ∨ line.head? = some '\t' := by
  rw [← tab_dropEndWhile, parse?]
  generalize dropEndWhile (· == '\r') line = kept
  rcases Text.splitFirst?_cases '\t' kept with
    ⟨htab, hcut⟩ | ⟨before, after, rfl, hbefore, hcut⟩
  · simp [hcut, htab]
  · rw [hcut]
    cases before with
    | nil => simp
    | cons d before =>
      have hd : d ≠ '\t' := fun hd => hbefore (by simp [hd])
      simp [hd]

/-- The line of an entry begins with what is taken for its address. -/
theorem exists_append_of_parse? (h : parse? line = some entry) :
    ∃ rest, line = entry.ip ++ rest := by
  obtain ⟨returns, hline, -⟩ := Text.exists_append_dropEndWhile (· == '\r') line
  unfold parse? at h
  generalize dropEndWhile (· == '\r') line = kept at hline h
  rcases Text.splitFirst?_cases '\t' kept with ⟨-, hcut⟩ | ⟨before, after, rfl, -, hcut⟩
  · rw [hcut] at h
    cases h
  · rw [hcut] at h
    dsimp only at h
    split at h
    · cases h
    · obtain rfl := Option.some.inj h
      exact ⟨'\t' :: after ++ returns, by rw [hline, List.append_assoc]⟩

/-- What is taken for the address on a remark is none. -/
theorem matchesIp_of_remark (hip : IpAddress.parse? ip ≠ none) (hremark : isRemark line = true) :
    matchesIp line ip = false := by
  rw [matchesIp_eq]
  cases hparse : parse? line with
  | none => rfl
  | some entry =>
    obtain ⟨rest, rfl⟩ := exists_append_of_parse? hparse
    have hne : entry.ip ≠ ip := by
      rintro rfl
      rw [isRemark_address_append hip] at hremark
      cases hremark
    simpa using hne

/-- The line of a new entry is no remark. -/
theorem isRemark_line (h : make ip hostname = .ok entry) : isRemark entry.line = false := by
  obtain ⟨rfl, hip, -, -⟩ := of_make h
  exact isRemark_address_append hip _

/-- Carriage returns at the end make no difference to the address of a line. -/
theorem matchesIp_dropEndWhile (line ip : Text) :
    matchesIp (dropEndWhile (· == '\r') line) ip = matchesIp line ip := by
  rw [matchesIp, matchesIp, parse?, parse?, Text.dropEndWhile_dropEndWhile]

end HostEntry

namespace HostRegistry

open HostKit.Action Files HostsFile
open Text (lines unlines dropReturn dropEndWhile)

variable {registry : HostRegistry} {machine after : Machine} {l : Location}
variable {ip hostname text : Text} {entry : HostEntry} {ls : List Text}

/-- The lines that are no remarks. -/
def recordLines (ls : List Text) : List Text := ls.filter fun line => !HostEntry.isRemark line

/-- The comments and blank lines, carriage returns at their ends aside. -/
def remarksOf (ls : List Text) : List Text :=
  (ls.filter HostEntry.isRemark).map (dropEndWhile (· == '\r'))

@[simp] theorem remarksOf_append (ls ls' : List Text) :
    remarksOf (ls ++ ls') = remarksOf ls ++ remarksOf ls' := by
  simp [remarksOf]

/-- Carriage returns at the ends of lines make no difference to the remarks. -/
theorem remarksOf_map_dropReturn (ls : List Text) :
    remarksOf (ls.map dropReturn) = remarksOf ls := by
  have hremark : HostEntry.isRemark ∘ dropReturn = HostEntry.isRemark := by
    funext line
    exact HostEntry.isRemark_dropReturn line
  have hdrop : dropEndWhile (· == '\r') ∘ dropReturn = dropEndWhile (· == '\r') := by
    funext line
    exact Text.dropEndWhile_dropReturn line
  rw [remarksOf, remarksOf, List.filter_map, hremark, List.map_map, hdrop]

/-- Joined lines have the remarks that they had before. -/
theorem remarksOf_lines_unlines (h : ∀ line ∈ ls, '\n' ∉ line) :
    remarksOf (lines (unlines ls)) = remarksOf ls := by
  rw [Text.lines_unlines h, remarksOf_map_dropReturn]

/-- The line of a new entry adds no remark. -/
theorem remarksOf_line (h : HostEntry.make ip hostname = .ok entry) :
    remarksOf [entry.line] = [] := by
  simp [remarksOf, HostEntry.isRemark_line h]

/-- Of the remarks, those are kept that are not taken for entries for the address. -/
theorem remarksOf_otherLines (ip : Text) (ls : List Text) :
    remarksOf (otherLines ip ls) = otherLines ip (remarksOf ls) := by
  have hmatches : (fun line => !HostEntry.matchesIp line ip) ∘ dropEndWhile (· == '\r') =
      fun line => !HostEntry.matchesIp line ip := by
    funext line
    exact congrArg (!·) (HostEntry.matchesIp_dropEndWhile line ip)
  rw [remarksOf, remarksOf, otherLines, otherLines, List.filter_map, hmatches, List.filter_filter,
    List.filter_filter]
  simp only [Bool.and_comm]

/-- All remarks are kept if it is really an address. -/
theorem otherLines_remarksOf (hip : IpAddress.parse? ip ≠ none) (ls : List Text) :
    otherLines ip (remarksOf ls) = remarksOf ls := by
  rw [otherLines_eq_self_iff]
  intro remark hremark
  obtain ⟨line, hline, rfl⟩ := List.mem_map.mp hremark
  rw [HostEntry.matchesIp_dropEndWhile]
  exact HostEntry.matchesIp_of_remark hip (List.mem_filter.mp hline).2

/-! ## What is reported -/

/-- The records have all entries exactly if no remark is one. -/
theorem entriesOf_recordLines_eq_iff (ls : List Text) :
    entriesOf ls = entriesOf (recordLines ls) ↔
      ∀ line ∈ ls, HostEntry.isRemark line = true → HostEntry.parse? line = none := by
  induction ls with
  | nil => simp [recordLines]
  | cons line ls ih =>
    -- With the line of a remark taken out, there are no more entries than before.
    have hle : (entriesOf (recordLines ls)).length ≤ (entriesOf ls).length :=
      (List.filter_sublist.filterMap HostEntry.parse?).length_le
    rw [List.forall_mem_cons, ← ih]
    by_cases hremark : HostEntry.isRemark line = true
    · cases hparse : HostEntry.parse? line with
      | none => simp [entriesOf, recordLines, hremark, hparse]
      | some entry =>
        refine iff_of_false (fun heq => ?_) fun hboth => by simp [hremark] at hboth
        have hlength := congrArg List.length heq
        simp only [entriesOf, recordLines, List.filter_cons, hremark, List.filterMap_cons, hparse,
          List.length_cons] at hlength hle
        simp at hlength
        omega
    · cases hparse : HostEntry.parse? line with
      | none => simp [entriesOf, recordLines, hremark, hparse]
      | some entry => simp [entriesOf, recordLines, hremark, hparse]

/-- The first entry for an address is that on the first line that matches it. -/
theorem find?_entriesOf (ip : Text) (ls : List Text) :
    ((entriesOf ls).find? fun entry => entry.ip = ip) =
      (ls.find? fun line => HostEntry.matchesIp line ip).bind HostEntry.parse? := by
  simp only [entriesOf, List.find?_filterMap, HostEntry.matchesIp_eq]

/-- A remark among the lines is taken for an entry for the text. -/
def IsTaken (ip : Text) (ls : List Text) : Prop :=
  ∃ line ∈ ls, HostEntry.isRemark line = true ∧ HostEntry.matchesIp line ip = true

instance (ip : Text) (ls : List Text) : Decidable (IsTaken ip ls) :=
  inferInstanceAs (Decidable (∃ line ∈ ls, _))

/-- No remark is taken for an entry for an address. -/
theorem IsTaken.parse?_eq_none (h : IsTaken ip ls) : IpAddress.parse? ip = none := by
  obtain ⟨line, -, hremark, hmatches⟩ := h
  apply Classical.byContradiction
  intro hip
  rw [HostEntry.matchesIp_of_remark hip hremark] at hmatches
  cases hmatches

/-- If no remark is taken for an entry for it, the first line that matches a text is a record. -/
theorem find?_recordLines (h : ¬IsTaken ip ls) :
    ((recordLines ls).find? fun line => HostEntry.matchesIp line ip) =
      ls.find? fun line => HostEntry.matchesIp line ip := by
  induction ls with
  | nil => rfl
  | cons line ls ih =>
    have hls : ¬IsTaken ip ls := fun ⟨taken, hmem, htaken⟩ =>
      h ⟨taken, List.mem_cons_of_mem _ hmem, htaken⟩
    by_cases hremark : HostEntry.isRemark line = true
    · have hline : HostEntry.matchesIp line ip = false := Bool.eq_false_iff.mpr fun hmatches =>
        h ⟨line, List.mem_cons_self, hremark, hmatches⟩
      have hrecord : recordLines (line :: ls) = recordLines ls := by simp [recordLines, hremark]
      rw [hrecord, List.find?_cons, hline, ih hls]
    · have hrecord : recordLines (line :: ls) = line :: recordLines ls := by
        simp [recordLines, hremark]
      rw [hrecord, List.find?_cons, List.find?_cons, ih hls]

/-- What a lookup of an address gives: the name in the first entry for it, and whether there is
one. -/
theorem Holds.runOn_lookup (h : registry.Holds machine.files l (some text)) (ip : Text) :
    runOn (registry.hostname? ip) machine =
        (.ok (((entriesOf (lines text)).find? fun entry => entry.ip = ip).map HostEntry.hostname),
          machine) ∧
      runOn (registry.contains ip) machine =
        (.ok ((entriesOf (lines text)).find? fun entry => entry.ip = ip).isSome, machine) := by
  constructor
  · rw [hostname?, runOn_bind_ok (HostsFile.runOn_readLines h.read), runOn_pure]
  · rw [runOn_contains h.read, List.isSome_find?]

/-- A lookup finds nothing on remarks, unless one of them is taken for an entry; then it finds
something, and what was looked up is no address. -/
theorem Holds.lookup_cases (h : registry.Holds machine.files l (some text)) (ip : Text) :
    ∃ name?, runOn (registry.hostname? ip) machine = (.ok name?, machine) ∧
      runOn (registry.contains ip) machine = (.ok name?.isSome, machine) ∧
      if IsTaken ip (lines text) then IpAddress.parse? ip = none ∧ name? ≠ none
      else name? = ((entriesOf (recordLines (lines text))).find? fun entry => entry.ip = ip).map
        HostEntry.hostname := by
  obtain ⟨hname, hcontains⟩ := h.runOn_lookup ip
  refine ⟨_, hname, by rw [hcontains, Option.isSome_map], ?_⟩
  split
  · next htaken =>
    refine ⟨htaken.parse?_eq_none, ?_⟩
    obtain ⟨line, hline, -, hmatches⟩ := htaken
    have hany : ((lines text).any fun line => HostEntry.matchesIp line ip) = true :=
      List.any_eq_true.mpr ⟨line, hline, hmatches⟩
    rw [any_matchesIp, ← List.isSome_find?, Option.isSome_iff_ne_none] at hany
    simpa only [ne_eq, Option.map_eq_none_iff] using hany
  · next hnone => rw [find?_entriesOf, find?_entriesOf, find?_recordLines hnone]

/-! ## What is kept -/

/-- A removal takes out the remarks that are taken for entries, and no others. -/
theorem Holds.remarksOf_remove (h : registry.Holds machine.files l (some text)) (ip : Text)
    (outcome : Except Stop Unit) (after : Machine) :
    runOn (registry.remove ip) machine = (outcome, after) →
      ∃ new, after.files.read registry.path = .ok (Utf8.encode new) ∧
        remarksOf (lines new) = match outcome with
          | .ok _ => otherLines ip (remarksOf (lines text))
          | .error _ => remarksOf (lines text) := by
  intro hrun
  have hlast := (h.atOnce_remove hrun).last
  cases outcome with
  | error stop => exact ⟨text, hlast, rfl⟩
  | ok =>
    refine ⟨_, hlast, ?_⟩
    dsimp only
    rw [← remarksOf_otherLines]
    split
    · next hkept => rw [hkept]
    · exact remarksOf_lines_unlines fun line hline => newline_not_mem_of_mem_otherLines hline

/-- A replacement keeps all remarks. -/
theorem Holds.remarksOf_set (h : registry.Holds machine.files l (some text))
    {outcome : Except Stop Unit}
    (hrun : runOn (registry.set ip hostname) machine = (outcome, after)) :
    ∃ new, after.files.read registry.path = .ok (Utf8.encode new) ∧
      remarksOf (lines new) = remarksOf (lines text) := by
  have hlast := (h.atOnce_set hrun).last
  cases outcome with
  | error stop => exact ⟨text, hlast, rfl⟩
  | ok =>
    refine ⟨_, hlast, ?_⟩
    obtain ⟨⟨entry, hentry⟩, -⟩ :=
      of_runOn_set h.wellFormed h.opens (contentOf_of_isText h.isText) hrun
    obtain ⟨rfl, hip, -, -⟩ := HostEntry.of_make hentry
    have hkept : ∀ line ∈ otherLines ip (lines text), '\n' ∉ line :=
      fun line hline => newline_not_mem_of_mem_otherLines hline
    have hnewline := newline_not_mem_of_mem_append_line hentry hkept
    have hremarks := remarksOf_lines_unlines hnewline
    rw [remarksOf_append, remarksOf_otherLines, otherLines_remarksOf hip, remarksOf_line hentry,
      List.append_nil] at hremarks
    exact hremarks

/-- A comment or blank line is an entry exactly if it has a tab behind its first character. Such
lines are listed as entries, and are found and removed by what stands before their first tab,
which is never an address; all others are passed over. A replacement keeps all of them. -/
theorem remarks_misread_iff (hfiles : machine.files.WellFormed)
    (hread : machine.files.read registry.path = .ok (Utf8.encode text)) :
    (∀ line, HostEntry.isRemark line = true →
      (HostEntry.parse? line = none ↔ '\t' ∉ line ∨ line.head? = some '\t')) ∧
    (∃ reported, runOn registry.entries machine = (.ok reported, machine) ∧
      (reported = entriesOf (recordLines (lines text)) ↔
        ∀ line ∈ lines text, HostEntry.isRemark line = true →
          '\t' ∉ line ∨ line.head? = some '\t')) ∧
    (∀ ip, ∃ name?, runOn (registry.hostname? ip) machine = (.ok name?, machine) ∧
      runOn (registry.contains ip) machine = (.ok name?.isSome, machine) ∧
      if IsTaken ip (lines text) then IpAddress.parse? ip = none ∧ name? ≠ none
      else name? = ((entriesOf (recordLines (lines text))).find? fun entry => entry.ip = ip).map
        HostEntry.hostname) ∧
    (∀ ip outcome after, runOn (registry.remove ip) machine = (outcome, after) →
      ∃ new, after.files.read registry.path = .ok (Utf8.encode new) ∧
        remarksOf (lines new) = match outcome with
          | .ok _ => otherLines ip (remarksOf (lines text))
          | .error _ => remarksOf (lines text)) ∧
    ∀ ip hostname outcome after, runOn (registry.set ip hostname) machine = (outcome, after) →
      ∃ new, after.files.read registry.path = .ok (Utf8.encode new) ∧
        remarksOf (lines new) = remarksOf (lines text) := by
  obtain ⟨l, h⟩ := Holds.of_read hfiles hread
  have hentries : runOn registry.entries machine = (.ok (entriesOf (lines text)), machine) := by
    rw [entries, runOn_bind_ok (runOn_readLines h.read), runOn_pure]
  refine ⟨fun line _ => HostEntry.parse?_eq_none_iff, ⟨_, hentries, ?_⟩, h.lookup_cases,
    h.remarksOf_remove, fun ip hostname outcome after hrun => h.remarksOf_set hrun⟩
  rw [entriesOf_recordLines_eq_iff]
  simp only [HostEntry.parse?_eq_none_iff]

/-- A comment with a tab is listed as an entry, and is found and removed by what stands before the
tab. -/
theorem comment_removed :
    (flat (alone "#10.0.0.1\ta\n".toList)).WellFormed ∧
      (flat (alone "#10.0.0.1\ta\n".toList)).read plain.path =
        .ok (Utf8.encode "#10.0.0.1\ta\n".toList) ∧
      HostEntry.isRemark "#10.0.0.1\ta".toList = true ∧
      HostEntry.parse? "#10.0.0.1\ta".toList ≠ none ∧
      (∃ reported, runOn plain.entries (.resting (flat (alone "#10.0.0.1\ta\n".toList))) =
          (.ok reported, .resting (flat (alone "#10.0.0.1\ta\n".toList))) ∧ reported ≠ []) ∧
      (∃ name, runOn (plain.hostname? "#10.0.0.1".toList)
          (.resting (flat (alone "#10.0.0.1\ta\n".toList))) =
        (.ok (some name), .resting (flat (alone "#10.0.0.1\ta\n".toList)))) ∧
      ∃ after new, runOn (plain.remove "#10.0.0.1".toList)
          (.resting (flat (alone "#10.0.0.1\ta\n".toList))) = (.ok (), after) ∧
        after.files.read plain.path = .ok (Utf8.encode new) ∧ remarksOf (lines new) = [] := by
  have hholds : plain.Holds (Machine.resting (flat (alone "#10.0.0.1\ta\n".toList))).files
      plainPlace (some "#10.0.0.1\ta\n".toList) := holds_alone _
  obtain ⟨hparse, ⟨reported, hentries, hreported⟩, hlookup, hremove, -⟩ :=
    remarks_misread_iff hholds.wellFormed hholds.read
  refine ⟨hholds.wellFormed, hholds.read, by decide, ?_, ⟨reported, hentries, ?_⟩, ?_, ?_⟩
  · rw [ne_eq, hparse _ (by decide)]
    decide
  · intro hnil
    exact absurd (hreported.mp (hnil.trans (by decide))) (by decide)
  · obtain ⟨name?, hname, -, hcases⟩ := hlookup "#10.0.0.1".toList
    rw [if_pos (by decide)] at hcases
    obtain ⟨name, rfl⟩ := Option.ne_none_iff_exists'.mp hcases.2
    exact ⟨name, hname⟩
  · have hk := locksAt_alone "#10.0.0.1\ta\n".toList
    obtain ⟨after, hrun, -⟩ := hholds.runOn_remove hk fun _ => fits_flat hk
    obtain ⟨new, hread, hremarks⟩ := hremove _ _ _ hrun
    exact ⟨after, new, hrun, hread, hremarks.trans (by decide)⟩

end HostRegistry
end HostKit
