import HostKit.Proofs.Hosts.EntryLines
import HostKit.Proofs.Hosts.Holding

/-!
# What the operations of a registry do

Once the lock is taken, an addition closes the text that the registry holds and puts its line at
the end, and a removal or a replacement joins the lines that it keeps. An operation that is
refused before it has taken the lock leaves the machine as it is.
-/

namespace HostKit.HostRegistry

open HostKit.Action Files HostsFile
open Text (lines unlines closed)

variable {registry : HostRegistry} {machine after : Machine} {l place k : Location}
variable {ip hostname text : Text} {text? : Option Text} {entry : HostEntry}

/-! ## The operations -/

/-- A new entry is made. -/
theorem runOn_makeEntry (h : HostEntry.make ip hostname = .ok entry) (machine : Machine) :
    runOn (makeEntry ip hostname) machine = (.ok entry, machine) := by
  rw [makeEntry, h]
  rfl

/-- An entry is refused. -/
theorem runOn_makeEntry_error {refusal : HostEntry.Refusal}
    (h : HostEntry.make ip hostname = .error refusal) (machine : Machine) :
    runOn (makeEntry ip hostname) machine =
      (.error (.failure refusal.toFailure), machine) := by
  rw [makeEntry, h]
  rfl

/-- If an entry is made, it is a good one, and nothing is changed. -/
theorem of_runOn_makeEntry (hrun : runOn (makeEntry ip hostname) machine = (.ok entry, after)) :
    HostEntry.make ip hostname = .ok entry ∧ after = machine := by
  cases hentry : HostEntry.make ip hostname with
  | error refusal => simp [runOn_makeEntry_error hentry] at hrun
  | ok entry' =>
    rw [runOn_makeEntry hentry] at hrun
    obtain ⟨hok, rfl⟩ := Prod.mk.inj hrun
    exact ⟨congrArg _ (Except.ok.inj hok), rfl⟩

/-- An addition puts its line at the end of the file that the path opens. -/
theorem runOn_add (hentry : HostEntry.make ip hostname = .ok entry)
    (hk : registry.LocksAt machine.files k) (h : machine.files.Opens registry.path l) :
    ∃ passed final, runOn (registry.add ip hostname) machine =
        (.ok (), (machine.through passed final).logged .info
          ("Added " ++ ip ++ " -> " ++ hostname ++ " to " ++ registry.path)) ∧
      Alike final ((machine.files.ensureFile k).insert l
        (.file (fileMode machine.files.setting.newFileMode ((machine.files.ensureFile k).item? l))
          (withLine (contentOf (machine.files.item? l)) entry.line))) := by
  have hopens := h.grows (grows_ensureFile hk.isEnd)
  obtain ⟨passed, final, hrun, hfinal⟩ :=
    runOn_appendLine (machine.locked k) hopens entry.line
  rw [Machine.locked_files, contentOf_ensureFile hk.isEnd,
    (grows_ensureFile hk.isEnd).setting] at hfinal
  refine ⟨passed ++ [machine.files], final, ?_, hfinal⟩
  rw [add, runOn_bind_ok (runOn_makeEntry hentry machine), runOn_bind_ok (runOn_lock hk),
    runOn_bind_ok hrun, Machine.locked, Machine.through_through, runOn_log]

/-- Under the lock, a replacement writes the lines that it keeps and its own one. -/
theorem runOn_set_eq (hentry : HostEntry.make ip hostname = .ok entry)
    (hk : registry.LocksAt machine.files k) (h : machine.files.Opens registry.path l)
    (htext : contentOf (machine.files.item? l) = Utf8.encode text) :
    runOn (registry.set ip hostname) machine = runOn (do
        writeLines registry.path (otherLines ip (lines text) ++ [entry.line])
        log .info ("Set " ++ ip ++ " -> " ++ hostname ++ " in " ++ registry.path))
      (machine.locked k) := by
  have hread : runOn (readLinesOrEmpty registry.path) (machine.locked k) =
      (.ok (lines text), machine.locked k) := by
    refine runOn_readLinesOrEmpty (h.grows (grows_ensureFile hk.isEnd)) ?_
    rw [Machine.locked_files, contentOf_ensureFile hk.isEnd, htext]
  rw [set, runOn_bind_ok (runOn_makeEntry hentry machine), runOn_bind_ok (runOn_lock hk)]
  exact runOn_bind_ok hread _

/-- A replacement that fits gives its lines to the file that the path leads to, or to the name that
the path ends with. -/
theorem runOn_set (hentry : HostEntry.make ip hostname = .ok entry)
    (hk : registry.LocksAt machine.files k) (hfiles : machine.files.WellFormed)
    (h : machine.files.Opens registry.path l)
    (htext : contentOf (machine.files.item? l) = Utf8.encode text)
    (hlands : (machine.files.ensureFile k).Lands registry.path l place)
    (hfits : Fits (machine.files.ensureFile k) registry.path l) :
    ∃ between : Machine, runOn (registry.set ip hostname) machine = (.ok (), between.logged .info
        ("Set " ++ ip ++ " -> " ++ hostname ++ " in " ++ registry.path)) ∧
      Alike between.files ((machine.files.ensureFile k).insert place
        (.file (fileMode machine.files.setting.temporaryMode
            ((machine.files.ensureFile k).item? l))
          (Utf8.encode (unlines (otherLines ip (lines text) ++ [entry.line]))))) := by
  obtain ⟨between, hrun, hfinal, -⟩ :=
    runOn_writeLines (machine.locked k) (hfiles.ensureFile hk)
      (h.grows (grows_ensureFile hk.isEnd)) hlands hfits
      (otherLines ip (lines text) ++ [entry.line])
  rw [Machine.locked_files, (grows_ensureFile hk.isEnd).setting] at hfinal
  refine ⟨between, ?_, hfinal⟩
  rw [runOn_set_eq hentry hk h htext, runOn_bind_ok hrun, runOn_log]

/-- A replacement that does not fit fails under the lock. -/
theorem runOn_set_unfit (hentry : HostEntry.make ip hostname = .ok entry)
    (hk : registry.LocksAt machine.files k) (hfiles : machine.files.WellFormed)
    (h : machine.files.Opens registry.path l)
    (htext : contentOf (machine.files.item? l) = Utf8.encode text)
    (hunfit : ¬Fits (machine.files.ensureFile k) registry.path l) :
    ∃ e, runOn (registry.set ip hostname) machine =
      (.error (.failure (.io e)), machine.locked k) := by
  have hlocked : (machine.locked k).files.WellFormed := hfiles.ensureFile hk
  obtain ⟨e, hwrite⟩ := runOn_writeLines_unfit hlocked (h.grows (grows_ensureFile hk.isEnd)) hunfit
    (otherLines ip (lines text) ++ [entry.line])
  exact ⟨e, by rw [runOn_set_eq hentry hk h htext, runOn_bind_error hwrite]⟩

/-- Under the lock, a removal writes the lines that it keeps if there are others. -/
theorem runOn_remove_eq (hk : registry.LocksAt machine.files k)
    (h : machine.files.Opens registry.path l)
    (htext : IsText (machine.files.item? l) (some text)) :
    runOn (registry.remove ip) machine = runOn (do
        if otherLines ip (lines text) ≠ lines text then
          writeLines registry.path (otherLines ip (lines text))
        log .info
          ("Removed " ++ Text.ofNat ((lines text).length - (otherLines ip (lines text)).length)
            ++ " entries for " ++ ip ++ " from " ++ registry.path))
      (machine.locked k) := by
  obtain ⟨mode, hitem⟩ := isText_some.mp htext
  have hfind : runOn (look (·.find registry.path)) machine =
      (.ok (l, .file mode (Utf8.encode text)), machine) :=
    runOn_look_ok (find_of_resolve h.resolve hitem)
  have hitem' : (machine.locked k).files.item? l = some (.file mode (Utf8.encode text)) := by
    rw [Machine.locked_files, item?_ensureFile_of_some hk.isEnd (by simp [hitem]), hitem]
  have hread : runOn (readLines registry.path) (machine.locked k) =
      (.ok (lines text), machine.locked k) :=
    runOn_readLines ((h.grows (grows_ensureFile hk.isEnd)).read hitem')
  rw [remove, runOn_bind_ok hfind, runOn_bind_ok (runOn_lock hk)]
  simp only [← length_otherLines_pos_iff]
  exact runOn_bind_ok hread _

/-- A removal gives the lines that it keeps to the file that the path leads to, if there are
others. -/
theorem runOn_remove (hk : registry.LocksAt machine.files k) (hfiles : machine.files.WellFormed)
    (h : machine.files.Opens registry.path l)
    (htext : IsText (machine.files.item? l) (some text))
    (hfits : otherLines ip (lines text) ≠ lines text →
      Fits (machine.files.ensureFile k) registry.path l) :
    ∃ between : Machine, runOn (registry.remove ip) machine = (.ok (), between.logged .info
        ("Removed " ++ Text.ofNat ((lines text).length - (otherLines ip (lines text)).length)
          ++ " entries for " ++ ip ++ " from " ++ registry.path)) ∧
      ((otherLines ip (lines text) = lines text ∧
          between.files = machine.files.ensureFile k) ∨
        otherLines ip (lines text) ≠ lines text ∧
          Alike between.files ((machine.files.ensureFile k).insert l
            (.file (fileMode machine.files.setting.temporaryMode (machine.files.item? l))
              (Utf8.encode (unlines (otherLines ip (lines text))))))) := by
  have hsome : machine.files.item? l ≠ none := by
    obtain ⟨mode, hitem⟩ := isText_some.mp htext
    simp [hitem]
  have hitem := item?_ensureFile_of_some hk.isEnd hsome
  rw [runOn_remove_eq hk h htext]
  by_cases hkept : otherLines ip (lines text) = lines text
  · refine ⟨machine.locked k, ?_, .inl ⟨hkept, rfl⟩⟩
    simp only [ne_eq, hkept, not_true_eq_false, if_false]
    exact runOn_log _ _ _
  · obtain ⟨between, hwrite, hfinal, -⟩ :=
      runOn_writeLines (machine.locked k) (hfiles.ensureFile hk)
        (h.grows (grows_ensureFile hk.isEnd)) (.file (hitem ▸ hsome)) (hfits hkept)
        (otherLines ip (lines text))
    rw [Machine.locked_files, hitem, (grows_ensureFile hk.isEnd).setting] at hfinal
    refine ⟨between, ?_, .inr ⟨hkept, hfinal⟩⟩
    simp only [ne_eq, hkept, not_false_eq_true, if_true]
    rw [runOn_bind_ok hwrite]
    exact runOn_log _ _ _

/-! ## What a success tells -/

/-- If an addition succeeds, its entry is good and the lock was taken. -/
theorem of_runOn_add (hrun : runOn (registry.add ip hostname) machine = (.ok (), after)) :
    (∃ entry, HostEntry.make ip hostname = .ok entry) ∧ ∃ k, registry.LocksAt machine.files k := by
  unfold add at hrun
  obtain ⟨entry, between, hmake, hrest⟩ := of_runOn_bind hrun
  obtain ⟨hentry, rfl⟩ := of_runOn_makeEntry hmake
  obtain ⟨_, _, hlock, -⟩ := of_runOn_bind hrest
  obtain ⟨k, hk, -⟩ := of_runOn_lock hlock
  exact ⟨⟨entry, hentry⟩, k, hk⟩

/-- If a replacement succeeds, its entry is good, the lock was taken, and it fits then. -/
theorem of_runOn_set (hfiles : machine.files.WellFormed) (h : machine.files.Opens registry.path l)
    (htext : contentOf (machine.files.item? l) = Utf8.encode text)
    (hrun : runOn (registry.set ip hostname) machine = (.ok (), after)) :
    (∃ entry, HostEntry.make ip hostname = .ok entry) ∧
      ∃ k, registry.LocksAt machine.files k ∧
        Fits (machine.files.ensureFile k) registry.path l := by
  have hset := hrun
  unfold set at hrun
  obtain ⟨entry, between, hmake, hrest⟩ := of_runOn_bind hrun
  obtain ⟨hentry, rfl⟩ := of_runOn_makeEntry hmake
  obtain ⟨_, _, hlock, -⟩ := of_runOn_bind hrest
  obtain ⟨k, hk, -⟩ := of_runOn_lock hlock
  refine ⟨⟨entry, hentry⟩, k, hk, Classical.byContradiction fun hunfit => ?_⟩
  obtain ⟨e, herror⟩ := runOn_set_unfit hentry hk hfiles h htext hunfit
  rw [herror] at hset
  cases hset

/-- If a removal succeeds, the lock was taken, and the replacement fits if lines had to be
removed. -/
theorem of_runOn_remove (hfiles : machine.files.WellFormed)
    (h : machine.files.Opens registry.path l)
    (htext : IsText (machine.files.item? l) (some text))
    (hrun : runOn (registry.remove ip) machine = (.ok (), after)) :
    ∃ k, registry.LocksAt machine.files k ∧ (otherLines ip (lines text) ≠ lines text →
      Fits (machine.files.ensureFile k) registry.path l) := by
  have hremove := hrun
  unfold remove at hrun
  obtain ⟨_, between, hfind, hrest⟩ := of_runOn_bind hrun
  obtain ⟨-, rfl⟩ := of_runOn_look hfind
  obtain ⟨_, _, hlock, -⟩ := of_runOn_bind hrest
  obtain ⟨k, hk, -⟩ := of_runOn_lock hlock
  refine ⟨k, hk, fun hkept => ?_⟩
  rw [runOn_remove_eq hk h htext, if_pos hkept] at hremove
  obtain ⟨_, _, hwrite, -⟩ := of_runOn_bind hremove
  have hlocked : (between.locked k).files.WellFormed := hfiles.ensureFile hk
  exact of_runOn_writeLines hlocked (h.grows (grows_ensureFile hk.isEnd)) hwrite

/-! ## Refusals -/

/-- An addition of a bad entry is refused. -/
theorem runOn_add_bad {refusal : HostEntry.Refusal}
    (h : HostEntry.make ip hostname = .error refusal) :
    runOn (registry.add ip hostname) machine =
      (.error (.failure refusal.toFailure), machine) := by
  rw [add, runOn_bind_error (runOn_makeEntry_error h machine)]

/-- A replacement by a bad entry is refused. -/
theorem runOn_set_bad {refusal : HostEntry.Refusal}
    (h : HostEntry.make ip hostname = .error refusal) :
    runOn (registry.set ip hostname) machine =
      (.error (.failure refusal.toFailure), machine) := by
  rw [set, runOn_bind_error (runOn_makeEntry_error h machine)]

/-- Without a file nothing is removed. -/
theorem runOn_remove_missing (h : machine.files.Opens registry.path l)
    (hitem : machine.files.item? l = none) :
    runOn (registry.remove ip) machine = (.error (.failure (.io .noEntry)), machine) := by
  have hfind : runOn (look (·.find registry.path)) machine =
      (.error (.failure (.io .noEntry)), machine) :=
    runOn_look_error (find_of_resolve_none h.resolve hitem)
  rw [remove, runOn_bind_error hfind]

/-- Where the lock file cannot be opened, locking fails with the error. -/
theorem runOn_lock_refused {e : IoError} (h : registry.lockRefusal? machine.files = some e) :
    runOn (lock registry.path) machine = (.error (.failure (.io e)), machine) := by
  unfold lockRefusal? at h
  split at h
  · cases h
  · next hopen => exact runOn_lock_error (Option.some.inj h ▸ hopen)

/-- Nothing is added without the lock. -/
theorem runOn_add_refused {e : IoError} (hentry : HostEntry.make ip hostname = .ok entry)
    (h : registry.lockRefusal? machine.files = some e) :
    runOn (registry.add ip hostname) machine = (.error (.failure (.io e)), machine) := by
  rw [add, runOn_bind_ok (runOn_makeEntry hentry machine), runOn_bind_error (runOn_lock_refused h)]

/-- Nothing is replaced without the lock. -/
theorem runOn_set_refused {e : IoError} (hentry : HostEntry.make ip hostname = .ok entry)
    (h : registry.lockRefusal? machine.files = some e) :
    runOn (registry.set ip hostname) machine = (.error (.failure (.io e)), machine) := by
  rw [set, runOn_bind_ok (runOn_makeEntry hentry machine), runOn_bind_error (runOn_lock_refused h)]

/-- Nothing is removed without the lock. -/
theorem runOn_remove_refused {e : IoError} (hholds : registry.Holds machine.files l (some text))
    (h : registry.lockRefusal? machine.files = some e) :
    runOn (registry.remove ip) machine = (.error (.failure (.io e)), machine) := by
  obtain ⟨mode, hitem⟩ := isText_some.mp hholds.isText
  have hfind : runOn (look (·.find registry.path)) machine =
      (.ok (l, .file mode (Utf8.encode text)), machine) :=
    runOn_look_ok (find_of_resolve hholds.opens.resolve hitem)
  rw [remove, runOn_bind_ok hfind, runOn_bind_error (runOn_lock_refused h)]

/-! ## The text after an operation -/

/-- After an addition the registry holds the closed text and the new line. -/
theorem Holds.runOn_add (h : registry.Holds machine.files l text?)
    (hentry : HostEntry.make ip hostname = .ok entry) (hk : registry.LocksAt machine.files k) :
    ∃ after, runOn (registry.add ip hostname) machine = (.ok (), after) ∧
      registry.Holds after.files l (some (closed (text?.getD []) ++ (entry.line ++ ['\n']))) ∧
      Grows machine.files after.files := by
  obtain ⟨passed, final, hrun, hfinal⟩ := HostRegistry.runOn_add hentry hk h.opens
  rw [contentOf_of_isText h.isText, withLine_encode] at hfinal
  exact ⟨_, hrun, h.locked_insert hk hfinal⟩

/-- After a replacement the registry holds the kept lines and the new one. -/
theorem Holds.runOn_set (h : registry.Holds machine.files l text?)
    (hentry : HostEntry.make ip hostname = .ok entry) (hk : registry.LocksAt machine.files k)
    (hfits : Fits (machine.files.ensureFile k) registry.path l) :
    ∃ after, runOn (registry.set ip hostname) machine = (.ok (), after) ∧
      registry.Holds after.files l
        (some (unlines (otherLines ip (lines (text?.getD [])) ++ [entry.line]))) ∧
      Grows machine.files after.files := by
  obtain ⟨text?', hlocked, -, -⟩ := h.ensureFile hk
  obtain ⟨between, hrun, hfinal⟩ := HostRegistry.runOn_set hentry hk h.wellFormed h.opens
    (contentOf_of_isText h.isText) hlocked.lands hfits
  exact ⟨_, hrun, h.locked_insert hk hfinal⟩

/-- A replacement that does not fit does no more than take the lock. -/
theorem Holds.runOn_set_unfit (h : registry.Holds machine.files l text?)
    (hentry : HostEntry.make ip hostname = .ok entry) (hk : registry.LocksAt machine.files k)
    (hunfit : ¬Fits (machine.files.ensureFile k) registry.path l) :
    ∃ e, runOn (registry.set ip hostname) machine =
      (.error (.failure (.io e)), machine.locked k) :=
  HostRegistry.runOn_set_unfit hentry hk h.wellFormed h.opens (contentOf_of_isText h.isText) hunfit

/-- After a removal the registry holds the kept lines, or the text as it was if they are all of
them. -/
theorem Holds.runOn_remove (h : registry.Holds machine.files l (some text))
    (hk : registry.LocksAt machine.files k)
    (hfits : otherLines ip (lines text) ≠ lines text →
      Fits (machine.files.ensureFile k) registry.path l) :
    ∃ after, runOn (registry.remove ip) machine = (.ok (), after) ∧
      registry.Holds after.files l (some (if otherLines ip (lines text) = lines text then text
        else unlines (otherLines ip (lines text)))) ∧
      Grows machine.files after.files := by
  obtain ⟨between, hrun, ⟨hkept, hfinal⟩ | ⟨hkept, hfinal⟩⟩ :=
    HostRegistry.runOn_remove hk h.wellFormed h.opens h.isText hfits
  · refine ⟨_, hrun, ?_⟩
    rw [if_pos hkept, Machine.logged_files, hfinal]
    exact ⟨h.locked hk, grows_ensureFile hk.isEnd⟩
  · refine ⟨_, hrun, ?_⟩
    rw [if_neg hkept]
    exact h.locked_insert hk hfinal

end HostKit.HostRegistry
