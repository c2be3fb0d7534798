import HostKit.Proofs.Hosts.Operations
import HostKit.Proofs.Text.ChosenLines

/-!
# The bytes after a rewrite

A rewrite cuts the text into lines and joins those that it keeps, so a kept line keeps its
characters but ends with a plain line feed. Hence a carriage return before the line feed is lost,
one for each rewrite. These are the only bytes of kept lines that are ever lost: without such
carriage returns a rewrite carries the kept segments over as they are, and a second replacement
finds nothing to change.
-/

namespace HostKit.HostRegistry

open HostKit.Action Files
open Text (lines unlines closed chosen segments dropReturn HasReturn)

variable {registry : HostRegistry} {machine after : Machine} {l k : Location}
variable {ip hostname text : Text} {text? : Option Text} {entry : HostEntry}

/-- Two texts that a registry holds are read as the same bytes only if they are the same. -/
theorem Holds.read_eq_iff {files files' : Files} {text' : Text}
    (h : registry.Holds files l (some text)) (h' : registry.Holds files' l (some text')) :
    files'.read registry.path = files.read registry.path ↔ text' = text := by
  rw [h.read, h'.read]
  exact ⟨fun heq => Utf8.encode_injective (Except.ok.inj heq), fun heq => by rw [heq]⟩

/-- A registry that holds a text has the bytes of another one only if it is the same. -/
theorem Holds.read_eq_ok_iff {files : Files} {text' : Text}
    (h : registry.Holds files l (some text)) :
    files.read registry.path = .ok (Utf8.encode text') ↔ text = text' := by
  rw [h.read]
  exact ⟨fun heq => Utf8.encode_injective (Except.ok.inj heq), fun heq => by rw [heq]⟩

/-! ## Replacing twice -/

/-- The machine after a replacement, whether it succeeds or not. -/
def afterSet (registry : HostRegistry) (ip hostname : Text) (machine : Machine) : Machine :=
  (runOn (registry.set ip hostname) machine).2

/-- Making sure of a file twice is making sure of it once. -/
theorem ensureFile_ensureFile {files : Files} (hk : IsEnd (files.item? k)) :
    (files.ensureFile k).ensureFile k = files.ensureFile k := by
  have hitem := exists_item?_ensureFile hk
  rw [Files.ensureFile, hitem]

/-- A replacement that does not fit leaves the machine locked. -/
theorem Holds.afterSet_unfit (h : registry.Holds machine.files l text?)
    (hentry : HostEntry.make ip hostname = .ok entry) (hk : registry.LocksAt machine.files k)
    (hunfit : ¬HostsFile.Fits (machine.files.ensureFile k) registry.path l) :
    registry.afterSet ip hostname machine = machine.locked k := by
  obtain ⟨e, hrun⟩ := h.runOn_set_unfit hentry hk hunfit
  rw [afterSet, hrun]

/-- Two replacements of which the first does not fit lock the machine twice, and the second finds
the lock file made. -/
theorem Holds.afterSet_afterSet_unfit (h : registry.Holds machine.files l text?)
    (hentry : HostEntry.make ip hostname = .ok entry) (hk : registry.LocksAt machine.files k)
    (hunfit : ¬HostsFile.Fits (machine.files.ensureFile k) registry.path l) :
    (registry.afterSet ip hostname (registry.afterSet ip hostname machine)).files =
      (registry.afterSet ip hostname machine).files := by
  have hgrows : Grows machine.files (machine.locked k).files := grows_ensureFile hk.isEnd
  have hsame : (machine.locked k).files.ensureFile k = (machine.locked k).files :=
    ensureFile_ensureFile hk.isEnd
  obtain ⟨_, hlocked, -, -⟩ := h.ensureFile hk
  have hlocked' : registry.Holds (machine.locked k).files l _ := hlocked
  rw [h.afterSet_unfit hentry hk hunfit,
    hlocked'.afterSet_unfit hentry (hk.grows hgrows) (hsame.symm ▸ hunfit), Machine.locked_files,
    hsame]

/-- The lines that a second replacement keeps are those that the first one kept, each without one
carriage return at its end. -/
theorem otherLines_unlines_append_line (hentry : HostEntry.make ip hostname = .ok entry)
    (t : Text) :
    otherLines ip (lines (unlines (otherLines ip (lines t) ++ [entry.line]))) =
      (otherLines ip (lines t)).map dropReturn := by
  have hnewline : ∀ line ∈ otherLines ip (lines t) ++ [entry.line], '\n' ∉ line :=
    newline_not_mem_of_mem_append_line hentry fun line => newline_not_mem_of_mem_otherLines
  have hkept : otherLines ip ((otherLines ip (lines t)).map dropReturn) =
      (otherLines ip (lines t)).map dropReturn := by
    rw [otherLines_eq_self_iff]
    intro line hline
    obtain ⟨kept, hmem, rfl⟩ := List.mem_map.mp hline
    rw [HostEntry.matchesIp_dropReturn]
    simpa [otherLines] using (List.mem_filter.mp hmem).2
  have hremoved : otherLines ip [dropReturn entry.line] = [] := by
    simp [otherLines, HostEntry.matchesIp_dropReturn, HostEntry.matchesIp_line hentry]
  rw [Text.lines_unlines hnewline, List.map_append, List.map_singleton, otherLines_append, hkept,
    hremoved, List.append_nil]

/-- The second replacement writes what the first one wrote exactly if no line that is kept ends with
a carriage return. -/
theorem unlines_map_dropReturn_eq_iff (hentry : HostEntry.make ip hostname = .ok entry) (t : Text) :
    unlines ((otherLines ip (lines t)).map dropReturn ++ [entry.line]) =
        unlines (otherLines ip (lines t) ++ [entry.line]) ↔
      ∀ line ∈ otherLines ip (lines t), line.getLast? ≠ some '\r' := by
  have hkept : ∀ line ∈ otherLines ip (lines t) ++ [entry.line], '\n' ∉ line :=
    newline_not_mem_of_mem_append_line hentry fun line => newline_not_mem_of_mem_otherLines
  have hdropped : ∀ line ∈ (otherLines ip (lines t)).map dropReturn ++ [entry.line],
      '\n' ∉ line := by
    refine newline_not_mem_of_mem_append_line hentry fun line hline => ?_
    obtain ⟨kept, hmem, rfl⟩ := List.mem_map.mp hline
    exact Text.not_mem_dropReturn (newline_not_mem_of_mem_otherLines hmem)
  constructor
  · intro heq
    have hmap := List.append_cancel_right (Text.unlines_injective hdropped hkept heq)
    intro line hmem
    refine Text.dropReturn_eq_self_iff.mp ?_
    exact List.map_eq_map_iff.mp (hmap.trans (List.map_id _).symm) line hmem
  · intro hreturn
    have hmap : (otherLines ip (lines t)).map dropReturn = (otherLines ip (lines t)).map id :=
      List.map_eq_map_iff.mpr fun line hmem => Text.dropReturn_eq_self_iff.mpr (hreturn line hmem)
    rw [hmap, List.map_id]

/-- A second replacement by the same entry leaves the bytes of the file as they are exactly if the
first one failed, or no line that it keeps ends with a carriage return after being read. -/
theorem read_afterSet_afterSet_iff (h : registry.Holds machine.files l text?)
    (hentry : HostEntry.make ip hostname = .ok entry) :
    (registry.afterSet ip hostname (registry.afterSet ip hostname machine)).files.read
        registry.path = (registry.afterSet ip hostname machine).files.read registry.path ↔
      (∀ after, runOn (registry.set ip hostname) machine ≠ (.ok (), after)) ∨
        ∀ line ∈ otherLines ip (lines (text?.getD [])), line.getLast? ≠ some '\r' := by
  cases hlock : registry.lockRefusal? machine.files with
  | some e =>
    -- Without the lock both replacements leave the machine as it is.
    have hrun := runOn_set_refused hentry hlock
    have hsame : registry.afterSet ip hostname machine = machine := by rw [afterSet, hrun]
    refine iff_of_true (by rw [hsame, hsame]) (.inl fun after => ?_)
    simp [hrun]
  | none =>
    obtain ⟨k, hk⟩ := lockRefusal?_eq_none_iff.mp hlock
    by_cases hfits : HostsFile.Fits (machine.files.ensureFile k) registry.path l
    · obtain ⟨once, hfirst, honce, hgrows⟩ := h.runOn_set hentry hk hfits
      have hk' := hk.grows hgrows
      have hafter : registry.afterSet ip hostname machine = once := by rw [afterSet, hfirst]
      rw [hafter]
      by_cases hagain : HostsFile.Fits (once.files.ensureFile k) registry.path l
      · obtain ⟨twice, hsecond, htwice, -⟩ := honce.runOn_set hentry hk' hagain
        have hafter' : registry.afterSet ip hostname once = twice := by rw [afterSet, hsecond]
        rw [Option.getD_some, otherLines_unlines_append_line hentry] at htwice
        rw [hafter', honce.read_eq_iff htwice, unlines_map_dropReturn_eq_iff hentry]
        constructor
        · exact .inr
        · rintro (hfailed | hreturn)
          · exact absurd hfirst (hfailed once)
          · exact hreturn
      · -- Only a replacement that made the file can leave one that does not fit.
        have hnone : text? = none := by
          cases text? with
          | none => rfl
          | some text =>
            obtain ⟨hlength, hroom⟩ := (h.fits_iff hk).mp hfits
            exact absurd ((honce.fits_iff hk').mpr ⟨hlength, hgrows.hasRoom_iff.mpr hroom⟩) hagain
        have hempty : otherLines ip (lines (text?.getD [])) = [] := by
          rw [hnone]
          rfl
        refine iff_of_true ?_ (.inr (by simp [hempty]))
        rw [honce.afterSet_unfit hentry hk' hagain, Machine.locked_files, (honce.locked hk').read,
          honce.read]
    · refine iff_of_true (by rw [h.afterSet_afterSet_unfit hentry hk hfits]) (.inl fun after => ?_)
      obtain ⟨e, hrun⟩ := h.runOn_set_unfit hentry hk hfits
      simp [hrun]

/-- A comment with two carriage returns before its line feed loses one of them in each of two
replacements. -/
theorem read_afterSet_afterSet_ne :
    plain.Holds (flat (alone "# x\r\r\n".toList)) plainPlace (some "# x\r\r\n".toList) ∧
      HostEntry.make "10.0.0.1".toList "a".toList = .ok ⟨"10.0.0.1".toList, "a".toList⟩ ∧
      (plain.afterSet "10.0.0.1".toList "a".toList (plain.afterSet "10.0.0.1".toList "a".toList
          (.resting (flat (alone "# x\r\r\n".toList))))).files.read plain.path ≠
        (plain.afterSet "10.0.0.1".toList "a".toList
          (.resting (flat (alone "# x\r\r\n".toList)))).files.read plain.path := by
  have hholds : plain.Holds (Machine.resting (flat (alone "# x\r\r\n".toList))).files plainPlace
      (some "# x\r\r\n".toList) := holds_alone _
  have hentry : HostEntry.make "10.0.0.1".toList "a".toList =
      .ok ⟨"10.0.0.1".toList, "a".toList⟩ := by rfl
  refine ⟨hholds, hentry, fun heq => ?_⟩
  rcases (read_afterSet_afterSet_iff hholds hentry).mp heq with hfailed | hreturn
  · have hk := locksAt_alone "# x\r\r\n".toList
    obtain ⟨after, hrun, -⟩ := hholds.runOn_set hentry hk (fits_flat hk)
    exact hfailed after hrun
  · exact hreturn "# x\r".toList (by decide) (by decide)

/-! ## Carrying segments over -/

/-- The segments of a text that are not entries for the address, with their own terminators. -/
def otherSegments (ip : Text) (t : Text) : List Text :=
  chosen (fun line => !HostEntry.matchesIp line ip) t

/-- The text with the entries for an address taken out: as it is if there are none, and else the
other segments, the last one terminated. -/
def withoutEntries (ip : Text) (t : Text) : Text :=
  if otherSegments ip t = segments t then t else closed (otherSegments ip t).flatten

/-- All segments are other ones exactly if all lines are. -/
theorem otherSegments_eq_segments_iff (ip t : Text) :
    otherSegments ip t = segments t ↔ otherLines ip (lines t) = lines t := by
  simp [otherSegments, chosen, otherLines, lines, List.filter_eq_self]

/-- The lines that are kept, joined, are the other segments, closed, exactly if no carriage return
stands before a line feed in them. -/
theorem unlines_otherLines_eq_iff (ip t : Text) :
    unlines (otherLines ip (lines t)) = closed (otherSegments ip t).flatten ↔
      ∀ segment ∈ otherSegments ip t, ¬HasReturn segment :=
  Text.unlines_filter_lines_eq_iff _ t

/-- A rewrite carries the segments that are not entries for the address over as they are, closing
the last one, exactly if no carriage return stands before a line feed in them; a removal does so
also if there is nothing to remove. -/
theorem read_rewritten_iff (h : registry.Holds machine.files l (some text)) :
    (∀ after, runOn (registry.remove ip) machine = (.ok (), after) →
      (after.files.read registry.path = .ok (Utf8.encode (withoutEntries ip text)) ↔
        otherSegments ip text = segments text ∨
          ∀ segment ∈ otherSegments ip text, ¬HasReturn segment)) ∧
    ∀ hostname after, runOn (registry.set ip hostname) machine = (.ok (), after) →
      (after.files.read registry.path = .ok (Utf8.encode
          (closed (otherSegments ip text).flatten ++ (ip ++ '\t' :: (hostname ++ ['\n'])))) ↔
        ∀ segment ∈ otherSegments ip text, ¬HasReturn segment) := by
  constructor
  · intro after hrun
    obtain ⟨k, hk, hfits⟩ := of_runOn_remove h.wellFormed h.opens h.isText hrun
    obtain ⟨after', hrun', hafter, -⟩ := h.runOn_remove hk hfits
    obtain rfl : after' = after := (Prod.mk.inj (hrun'.symm.trans hrun)).2
    rw [hafter.read_eq_ok_iff, withoutEntries]
    by_cases hkept : otherLines ip (lines text) = lines text
    · have hsegments := (otherSegments_eq_segments_iff ip text).mpr hkept
      rw [if_pos hkept, if_pos hsegments]
      exact iff_of_true rfl (.inl hsegments)
    · have hsegments := mt (otherSegments_eq_segments_iff ip text).mp hkept
      rw [if_neg hkept, if_neg hsegments, unlines_otherLines_eq_iff]
      exact ⟨.inr, fun hboth => hboth.resolve_left hsegments⟩
  · intro hostname after hrun
    obtain ⟨⟨entry, hentry⟩, k, hk, hfits⟩ :=
      of_runOn_set h.wellFormed h.opens (contentOf_of_isText h.isText) hrun
    obtain ⟨after', hrun', hafter, -⟩ := h.runOn_set hentry hk hfits
    obtain rfl : after' = after := (Prod.mk.inj (hrun'.symm.trans hrun)).2
    obtain ⟨rfl, -, -, -⟩ := HostEntry.of_make hentry
    rw [hafter.read_eq_ok_iff, ← unlines_otherLines_eq_iff, Option.getD_some]
    have hline : unlines (otherLines ip (lines text) ++ [HostEntry.line ⟨ip, hostname⟩]) =
        unlines (otherLines ip (lines text)) ++ (ip ++ '\t' :: (hostname ++ ['\n'])) := by
      simp [unlines, HostEntry.line]
    rw [hline]
    exact List.append_left_inj _

/-- A comment with a carriage return before its line feed loses it when an entry after it is
removed, and when the entry is replaced. -/
theorem read_rewritten_ne :
    plain.Holds (flat (alone "# c\r\n10.0.0.1\ta\n".toList)) plainPlace
        (some "# c\r\n10.0.0.1\ta\n".toList) ∧
      (∃ after, runOn (plain.remove "10.0.0.1".toList)
            (.resting (flat (alone "# c\r\n10.0.0.1\ta\n".toList))) = (.ok (), after) ∧
          after.files.read plain.path ≠ .ok (Utf8.encode "# c\r\n".toList)) ∧
      ∃ after, runOn (plain.set "10.0.0.1".toList "b".toList)
            (.resting (flat (alone "# c\r\n10.0.0.1\ta\n".toList))) = (.ok (), after) ∧
          after.files.read plain.path ≠ .ok (Utf8.encode "# c\r\n10.0.0.1\tb\n".toList) := by
  have hholds : plain.Holds
      (Machine.resting (flat (alone "# c\r\n10.0.0.1\ta\n".toList))).files plainPlace
      (some "# c\r\n10.0.0.1\ta\n".toList) := holds_alone _
  have hentry : HostEntry.make "10.0.0.1".toList "b".toList =
      .ok ⟨"10.0.0.1".toList, "b".toList⟩ := by rfl
  have hreturn : ¬∀ segment ∈ otherSegments "10.0.0.1".toList "# c\r\n10.0.0.1\ta\n".toList,
      ¬HasReturn segment := fun h => h "# c\r\n".toList (by decide) ⟨"# c".toList, rfl⟩
  have hk := locksAt_alone "# c\r\n10.0.0.1\ta\n".toList
  obtain ⟨removed, hremove, -⟩ := hholds.runOn_remove hk fun _ => fits_flat hk
  obtain ⟨replaced, hset, -⟩ := hholds.runOn_set hentry hk (fits_flat hk)
  obtain ⟨hiff, hiff'⟩ := read_rewritten_iff hholds
  refine ⟨hholds, ⟨removed, hremove, fun hread => ?_⟩, replaced, hset, fun hread => ?_⟩
  · rcases (hiff removed hremove).mp hread with hall | hnone
    · exact absurd hall (by decide)
    · exact hreturn hnone
  · exact hreturn ((hiff' _ replaced hset).mp hread)

end HostKit.HostRegistry
