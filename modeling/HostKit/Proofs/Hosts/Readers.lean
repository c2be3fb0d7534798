import HostKit.Proofs.Hosts.Effects

/-!
# What a reader sees of a rewrite

A rewrite makes the lock file, prepares a temporary file at a place that was free and moves it over
the hosts file in its last step. So whoever reads the hosts path between two steps finds the old
content, and after the last step the new one, whole in either case; a replacement never shows the
file without an entry for an address that had one. The hosts path may lead through links, and the
rewrite may fail. Only where the hosts file refuses the move its content is written in place, in
more than one step.
-/

namespace HostKit.HostRegistry

open HostKit.Action Files HostsFile
open Text (lines unlines)

variable {registry : HostRegistry} {machine after : Machine} {l k : Location}
variable {ip hostname text new : Text} {entry : HostEntry} {outcome : Except Stop Unit}

/-- A state of the files that a run led through: one from before a step of it, or the last one. -/
def Passes (machine after : Machine) (state : Files) : Prop :=
  state = after.files ∨ ∃ passed, after.past = passed ++ machine.past ∧ state ∈ passed

/-- The file that the path opens does not refuse to be replaced by a move. -/
def Movable (files : Files) (path : Text) : Prop :=
  ∀ l, files.Opens path l → files.setting.moveRefusal? l = none

/-- The run changes what a path reads in its last step only, if the file there does not refuse a
move: all states before its steps have the old content. The last one has the new content if the run
succeeds and else the old one. -/
structure AtOnce (path old new : Text) (machine : Machine) (outcome : Except Stop Unit)
    (after : Machine) : Prop where
  exists_passed : Movable machine.files path → ∃ passed, after.past = passed ++ machine.past ∧
    ∀ state ∈ passed, state.read path = .ok (Utf8.encode old)
  last : after.files.read path =
    .ok (Utf8.encode (match outcome with | .ok _ => new | .error _ => old))

/-- Every state that the run passes has the old content or the new one. -/
theorem AtOnce.read_eq {path old : Text} (h : AtOnce path old new machine outcome after)
    (hmovable : Movable machine.files path) {state : Files} (hstate : Passes machine after state) :
    state.read path = .ok (Utf8.encode old) ∨
      state.read path = .ok (Utf8.encode new) ∧ state = after.files ∧ outcome = .ok () := by
  rcases hstate with rfl | ⟨passed, hpassed, hmem⟩
  · have hlast := h.last
    cases outcome with
    | ok => exact .inr ⟨hlast, rfl, rfl⟩
    | error stop => exact .inl hlast
  · obtain ⟨passed', hpassed', hold⟩ := h.exists_passed hmovable
    obtain rfl := List.append_cancel_right (hpassed.symm.trans hpassed')
    exact .inl (hold state hmem)

/-! ## Steps that a reader does not see -/

/-- What the registry reads is the text that it holds. -/
theorem Holds.of_read (hfiles : machine.files.WellFormed)
    (hread : machine.files.read registry.path = .ok (Utf8.encode text)) :
    ∃ l, registry.Holds machine.files l (some text) := by
  obtain ⟨l, mode, hfind⟩ := Files.of_read hread
  obtain ⟨hopens, hitem⟩ := Opens.of_find hfind
  exact ⟨l, hfiles, hopens, fun hnone => by simp [hnone] at hitem, isText_some.mpr ⟨mode, hitem⟩⟩

/-- Files that come where nothing was do not change what is read. -/
theorem Holds.read_of_gains {files state : Files} (h : registry.Holds files l (some text))
    (hgains : Gains files state) : state.read registry.path = .ok (Utf8.encode text) := by
  obtain ⟨mode, hitem⟩ := isText_some.mp h.isText
  have hkept : state.item? l = some (.file mode (Utf8.encode text)) :=
    (hgains.kept (by simp [hitem])).trans hitem
  exact (h.opens.grows hgains.grows).read hkept

/-- A run that stops before it changes anything shows the old content. -/
theorem Holds.atOnce_refl (h : registry.Holds machine.files l (some text)) (stop : Stop) :
    AtOnce registry.path text new machine (.error stop) machine :=
  ⟨fun _ => ⟨[], rfl, by simp⟩, h.read⟩

/-- Taking the lock first makes no difference to a reader. -/
theorem Holds.atOnce_of_locked (h : registry.Holds machine.files l (some text))
    (hk : registry.LocksAt machine.files k)
    (hlocked : AtOnce registry.path text new (machine.locked k) outcome after) :
    AtOnce registry.path text new machine outcome after := by
  refine ⟨fun hmovable => ?_, hlocked.last⟩
  have hgrows := grows_ensureFile hk.isEnd
  have hmovable' : Movable (machine.locked k).files registry.path := fun l' hl' => by
    rw [Machine.locked_files, hgrows.setting]
    exact hmovable l' (Opens.of_grows h.wellFormed hgrows hl')
  obtain ⟨passed, hpassed, hold⟩ := hlocked.exists_passed hmovable'
  refine ⟨passed ++ [machine.files], by simp [hpassed, Machine.locked, Machine.through], ?_⟩
  intro state hstate
  rcases List.mem_append.mp hstate with hmem | hmem
  · exact hold state hmem
  · rw [List.mem_singleton.mp hmem]
    exact h.read

/-- The lines of the file are replaced at once. -/
theorem Holds.atOnce_writeLines (h : registry.Holds machine.files l (some text)) {ls : List Text}
    {level : Level} {message : Text}
    (hrun : runOn (do writeLines registry.path ls; log level message) machine =
      (outcome, after)) :
    AtOnce registry.path text (unlines ls) machine outcome after := by
  by_cases hfits : Fits machine.files registry.path l
  · obtain ⟨between, hwrite, hfinal, hpassed⟩ :=
      runOn_writeLines machine h.wellFormed h.opens h.lands hfits ls
    rw [runOn_bind_ok hwrite, runOn_log] at hrun
    obtain ⟨rfl, rfl⟩ := Prod.mk.inj hrun
    refine ⟨fun hmovable => ?_, (h.insert hfinal).read⟩
    obtain ⟨passed, heq, hgains⟩ := hpassed (hmovable l h.opens)
    exact ⟨passed, congrArg Machine.past heq,
      fun state hstate => h.read_of_gains (hgains state hstate)⟩
  · -- A replacement that does not fit fails before the first step.
    obtain ⟨e, hwrite⟩ := runOn_writeLines_unfit h.wellFormed h.opens hfits ls
    rw [runOn_bind_error hwrite] at hrun
    obtain ⟨rfl, rfl⟩ := Prod.mk.inj hrun
    exact h.atOnce_refl _

/-! ## The rewrites -/

/-- A removal takes the lines for the address out at once, if there are any. -/
theorem Holds.atOnce_remove (h : registry.Holds machine.files l (some text))
    (hrun : runOn (registry.remove ip) machine = (outcome, after)) :
    AtOnce registry.path text (if otherLines ip (lines text) = lines text then text
      else unlines (otherLines ip (lines text))) machine outcome after := by
  cases hlock : registry.lockRefusal? machine.files with
  | some e =>
    rw [runOn_remove_refused h hlock] at hrun
    obtain ⟨rfl, rfl⟩ := Prod.mk.inj hrun
    exact h.atOnce_refl _
  | none =>
    obtain ⟨k, hk⟩ := lockRefusal?_eq_none_iff.mp hlock
    rw [runOn_remove_eq hk h.opens h.isText] at hrun
    apply h.atOnce_of_locked hk
    by_cases hkept : otherLines ip (lines text) = lines text
    · rw [if_pos hkept]
      rw [if_neg (not_not_intro hkept)] at hrun
      obtain ⟨rfl, rfl⟩ := Prod.mk.inj hrun
      exact ⟨fun _ => ⟨[], rfl, by simp⟩, (h.locked hk).read⟩
    · rw [if_neg hkept]
      rw [if_pos hkept] at hrun
      exact (h.locked hk).atOnce_writeLines hrun

/-- A replacement puts its own line in the place of all lines for the address at once. -/
theorem Holds.atOnce_set (h : registry.Holds machine.files l (some text))
    (hrun : runOn (registry.set ip hostname) machine = (outcome, after)) :
    AtOnce registry.path text (unlines (otherLines ip (lines text) ++ [ip ++ '\t' :: hostname]))
      machine outcome after := by
  cases hentry : HostEntry.make ip hostname with
  | error refusal =>
    rw [runOn_set_bad hentry] at hrun
    obtain ⟨rfl, rfl⟩ := Prod.mk.inj hrun
    exact h.atOnce_refl _
  | ok entry =>
    cases hlock : registry.lockRefusal? machine.files with
    | some e =>
      rw [runOn_set_refused hentry hlock] at hrun
      obtain ⟨rfl, rfl⟩ := Prod.mk.inj hrun
      exact h.atOnce_refl _
    | none =>
      obtain ⟨k, hk⟩ := lockRefusal?_eq_none_iff.mp hlock
      rw [runOn_set_eq hentry hk h.opens (contentOf_of_isText h.isText)] at hrun
      obtain ⟨rfl, -, -, -⟩ := HostEntry.of_make hentry
      exact h.atOnce_of_locked hk ((h.locked hk).atOnce_writeLines hrun)

/-- Looking up an address tells whether there is an entry for it on the lines that are read. -/
theorem runOn_contains_of_lines {reader : Machine} {ls : List Text}
    (hread : runOn (readLines registry.path) reader = (.ok ls, reader)) :
    runOn (registry.contains ip) reader =
      (.ok ((entriesOf ls).any fun entry => entry.ip = ip), reader) := by
  rw [contains, runOn_bind_ok hread, runOn_pure, any_matchesIp]

/-- Looking up an address tells whether the text that is read has an entry for it. -/
theorem runOn_contains {reader : Machine}
    (hread : reader.files.read registry.path = .ok (Utf8.encode text)) :
    runOn (registry.contains ip) reader =
      (.ok ((entriesOf (lines text)).any fun entry => entry.ip = ip), reader) :=
  runOn_contains_of_lines (runOn_readLines hread)

/-- A successful replacement leaves an entry for the address. -/
theorem any_entriesOf_set
    (hrun : runOn (registry.set ip hostname) machine = (.ok (), after)) :
    ((entriesOf (lines (unlines (otherLines ip (lines text) ++ [ip ++ '\t' :: hostname])))).any
      fun entry => entry.ip = ip) = true := by
  cases hentry : HostEntry.make ip hostname with
  | error refusal =>
    rw [runOn_set_bad hentry] at hrun
    cases hrun
  | ok entry =>
    obtain ⟨rfl, -, -, -⟩ := HostEntry.of_make hentry
    have hentries := entriesOf_lines_unlines_otherLines hentry text
    rw [HostEntry.line] at hentries
    simp [hentries]

/-- In all states that a removal or a replacement passes, the hosts path reads as the whole old
content, up to the last state, which has the whole new content if the rewrite succeeds. If the old
content has an entry for the address, then a lookup finds one in every state that a replacement
passes. All this holds unless the hosts file refuses to be replaced by a move. -/
theorem rewritten_at_once (hfiles : machine.files.WellFormed)
    (hread : machine.files.read registry.path = .ok (Utf8.encode text)) :
    (∀ ip outcome after, runOn (registry.remove ip) machine = (outcome, after) →
      AtOnce registry.path text (if otherLines ip (lines text) = lines text then text
        else unlines (otherLines ip (lines text))) machine outcome after) ∧
    ∀ ip hostname outcome after, runOn (registry.set ip hostname) machine = (outcome, after) →
      AtOnce registry.path text
        (unlines (otherLines ip (lines text) ++ [ip ++ '\t' :: hostname]))
        machine outcome after ∧
      ((∃ entry ∈ entriesOf (lines text), entry.ip = ip) → Movable machine.files registry.path →
        ∀ reader : Machine, Passes machine after reader.files →
          runOn (registry.contains ip) reader = (.ok true, reader)) := by
  obtain ⟨l, h⟩ := Holds.of_read hfiles hread
  refine ⟨fun ip outcome after hrun => h.atOnce_remove hrun, fun ip hostname outcome after hrun =>
    ⟨h.atOnce_set hrun, fun hentry hmovable reader hstate => ?_⟩⟩
  rcases (h.atOnce_set hrun).read_eq hmovable hstate with hold | ⟨hnew, -, rfl⟩
  · rw [runOn_contains hold]
    simpa using hentry
  · rw [runOn_contains hnew, any_entriesOf_set hrun]

/-- While the only entry of a file that is alone is replaced, the file is read as it was or with the
new entry, and every lookup of the address finds one. -/
theorem contains_while_replaced :
    (flat (alone mixedText)).WellFormed ∧
      (flat (alone mixedText)).read plain.path = .ok (Utf8.encode mixedText) ∧
      (∃ entry ∈ entriesOf (lines mixedText), entry.ip = "10.0.0.1".toList) ∧
      Movable (flat (alone mixedText)) plain.path ∧
      ∃ after, runOn (plain.set "10.0.0.1".toList "b".toList)
          (.resting (flat (alone mixedText))) = (.ok (), after) ∧
        AtOnce plain.path mixedText "# x\n10.0.0.1\tb\n".toList (.resting (flat (alone mixedText)))
          (.ok ()) after ∧
        ∀ reader : Machine, Passes (.resting (flat (alone mixedText))) after reader.files →
          runOn (plain.contains "10.0.0.1".toList) reader = (.ok true, reader) := by
  have hholds : plain.Holds (Machine.resting (flat (alone mixedText))).files plainPlace
      (some mixedText) := holds_alone mixedText
  have hentry : HostEntry.make "10.0.0.1".toList "b".toList =
      .ok ⟨"10.0.0.1".toList, "b".toList⟩ := by rfl
  have hsome : ∃ entry ∈ entriesOf (lines mixedText), entry.ip = "10.0.0.1".toList := by decide
  have hmovable : Movable (flat (alone mixedText)) plain.path := fun _ _ => rfl
  have hnew : unlines (otherLines "10.0.0.1".toList (lines mixedText) ++
      ["10.0.0.1".toList ++ '\t' :: "b".toList]) = "# x\n10.0.0.1\tb\n".toList := by decide
  have hk := locksAt_alone mixedText
  obtain ⟨after, hrun, -, -⟩ := hholds.runOn_set hentry hk (fits_flat hk)
  obtain ⟨hatOnce, hcontains⟩ :=
    (rewritten_at_once hholds.wellFormed hholds.read).2 _ _ _ _ hrun
  exact ⟨hholds.wellFormed, hholds.read, hsome, hmovable, after, hrun, hnew ▸ hatOnce,
    hcontains hsome hmovable⟩

end HostKit.HostRegistry
