import HostKit.Proofs.Files.Paths

/-!
# Moving onto a path

An item is moved onto a path exactly where the path names a place that does not refuse it: a success
tells that it does, and a failure that the path opens nothing either or names a file that refuses.
-/

namespace HostKit.Files

open PathText (names endsWithSlash)

variable {files before after : Files} {path : Text} {l source : Location}

/-- Where a slash asks for a directory, a route leads to one, or to nothing. -/
theorem Route.directory_of_slash (hfiles : files.WellFormed) {follow : Bool} {links : Nat}
    {here : Location} {names : List Text} {slash : Bool} {found : Found}
    (h : Route files follow links here names slash found) (hslash : slash = true)
    (hhere : ∃ mode, files.item? here = some (.directory mode)) :
    (∃ l mode, found = .present l (.directory mode)) ∨ ∃ l, found = .missing l true := by
  induction h with
  | @arrived links here slash item hitem =>
    obtain ⟨mode, hmode⟩ := hhere
    rw [hmode] at hitem
    obtain rfl := Option.some.inj hitem
    exact .inl ⟨here, mode, rfl⟩
  | dot _ ih => exact ih hslash hhere
  | up _ ih =>
    obtain ⟨mode, hmode⟩ := hhere
    exact ih hslash (hfiles.directory_dropLast hmode)
  | absent =>
    subst hslash
    exact .inr ⟨_, rfl⟩
  | enter _ hitem _ ih => exact ih hslash ⟨_, hitem⟩
  | file => cases hslash
  | stay => cases hslash
  | @jump links here name rest slash target found _ _ _ _ _ ih =>
    exact ih (by simp [hslash]) (exists_jump_start hhere target)

/-- Where a slash asks for a directory, what is found is a directory, and it was one before. -/
theorem Route.directory_of_present (hfiles : before.WellFormed) (hgrows : Grows before after)
    {links : Nat} {here directory : Location} {names : List Text} {item : Item}
    (h : Route after true links here names true (.present directory item))
    (hhere : ∃ mode, before.item? here = some (.directory mode)) :
    ∃ mode, before.item? directory = some (.directory mode) ∧
      Route before true links here names true (.present directory (.directory mode)) := by
  rw [← foundAt_of_some h.item?_present] at h
  have hroute := h.of_grows hfiles hgrows hhere
  rcases hroute.directory_of_slash hfiles rfl hhere with ⟨l, mode, hfound⟩ | ⟨l, hfound⟩
  · obtain ⟨rfl, hitem⟩ := foundAt_eq_present hfound
    exact ⟨mode, hitem, hfound ▸ hroute⟩
  · cases (foundAt_eq_missing hfound).2.1

/-- If an item was moved onto a path, the path named a place, also before files came. -/
theorem Names.of_rename (hfiles : before.WellFormed) (hgrows : Grows before after)
    (h : after.rename source path = .ok files) :
    ∃ l item, before.Names path l ∧ after.item? source = some item ∧
      files = (after.erase source).insert l item := by
  unfold Files.rename at h
  split at h
  · cases h
  next herror =>
  split at h
  · cases h
  next name hlast =>
  obtain ⟨found, hwalk, h⟩ := Success.of_bind h
  split at h
  · cases h
  next directory directoryItem =>
  split at h
  · cases h
  next hdots =>
  split at h
  · cases h
  next hlength =>
  split at h
  · cases h
  next hslash =>
  have hname : LookedUp name := ⟨hlength, fun hdot => hdots (.inl hdot), fun h => hdots (.inr h)⟩
  have hstart := hfiles.exists_startOf path
  rw [hgrows.startOf] at hwalk
  obtain ⟨mode, -, hroute⟩ := (walk_eq_ok_iff.mp hwalk).directory_of_present hfiles hgrows hstart
  have hnames : names path = (names path).dropLast ++ [name] := by
    obtain ⟨front, hfront⟩ := List.getLast?_eq_some_iff.mp hlast
    simp [hfront]
  have hplace (hnot : ∀ mode, after.item? (directory ++ [name]) ≠ some (.directory mode)) :
      before.Names path (directory ++ [name]) := by
    have hnot' : ∀ mode, before.item? (directory ++ [name]) ≠ some (.directory mode) :=
      fun mode hmode => hnot mode (hgrows.directory hmode)
    refine ⟨resolve_eq_ok_iff.mpr ⟨herror, ?_⟩, hnot'⟩
    rw [hnames, show endsWithSlash path = false by simpa using hslash]
    exact hroute.append fun links => hname.route hnot' links
  simp only at h
  split at h
  · cases h
  · next item hrefusal hsource =>
    obtain rfl := Except.ok.inj h
    have hnot (mode : Nat) : after.item? (directory ++ [name]) ≠ some (.directory mode) := by
      intro hmode
      rw [refusal?, hmode] at hrefusal
      cases hrefusal
    exact ⟨directory ++ [name], item, hplace hnot, hsource, rfl⟩
  · cases h

/-- Where a path opens a place and an item cannot be moved onto the path, a file that refuses it is
at the place. -/
theorem Opens.of_rename_error (hfiles : before.WellFormed) (hgrows : Grows before after)
    (h : before.Opens path l) {item : Item} (hsource : after.item? source = some item) {e : IoError}
    (hrename : after.rename source path = .error e) :
    before.Names path l ∧ after.refusal? source l = some e := by
  obtain ⟨place, hnames, hplace⟩ := h.exists_names hfiles
  have hrefusal : after.refusal? source place = some e := by
    rw [hnames.rename hfiles hgrows hsource] at hrename
    cases hrefusal : after.refusal? source place with
    | none => simp [hrefusal] at hrename
    | some e' =>
      rw [hrefusal] at hrename
      exact congrArg some (Except.error.inj hrename)
  rcases hplace with rfl | ⟨target, hlink⟩
  · exact ⟨hnames, hrefusal⟩
  · rw [refusal?, hgrows.link hlink] at hrefusal
    cases hrefusal

end HostKit.Files
