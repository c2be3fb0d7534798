import HostKit.Hosts.Registry
import HostKit.Proofs.Files.Trees
import HostKit.Proofs.Hosts.Store

/-!
# What a registry holds

A registry holds a text if its path opens a place with the text there, or holds nothing if
nothing is there yet. Making the lock file and changing the text at the place leave all paths
leading where they led, so the registry holds the new text afterwards.
-/

namespace HostKit.HostRegistry

open Files

variable {registry : HostRegistry} {files final : Files} {l k : Location}
variable {text : Text} {text? : Option Text}

/-- A file with the text, or nothing if there is no text. -/
def IsText : Option Item → Option Text → Prop
  | none, none => True
  | some (.file _ content), some text => content = Utf8.encode text
  | _, _ => False

/-- The hosts path opens a place with the text there, or with nothing if there is no text; in
this case the place is named by the path itself and not by a link at its end. -/
structure Holds (registry : HostRegistry) (files : Files) (l : Location) (text? : Option Text) :
    Prop where
  wellFormed : files.WellFormed
  opens : files.Opens registry.path l
  names : files.item? l = none → files.Names registry.path l
  isText : IsText (files.item? l) text?

/-- The lock file of the registry is at the place, or comes to be there. -/
def LocksAt (registry : HostRegistry) (files : Files) (k : Location) : Prop :=
  files.Opens (PathText.lockPath registry.path) k

/-- An item with text is a file with its bytes. -/
theorem isText_some {item : Option Item} :
    IsText item (some text) ↔ ∃ mode, item = some (.file mode (Utf8.encode text)) := by
  cases item with
  | none => simp [IsText]
  | some item => cases item <;> simp [IsText]

/-- There is no item without text. -/
theorem isText_none {item : Option Item} : IsText item none ↔ item = none := by
  cases item with
  | none => simp [IsText]
  | some item => cases item <;> simp [IsText]

/-- The content is that of the text, or none. -/
theorem contentOf_of_isText {item : Option Item} (h : IsText item text?) :
    contentOf item = Utf8.encode (text?.getD []) := by
  cases text? with
  | none => rw [isText_none.mp h]; rfl
  | some text =>
    obtain ⟨mode, rfl⟩ := isText_some.mp h
    rfl

/-! ## Reading -/

/-- The text that a registry holds is read. -/
theorem Holds.read (h : registry.Holds files l (some text)) :
    files.read registry.path = .ok (Utf8.encode text) := by
  obtain ⟨mode, hitem⟩ := isText_some.mp h.isText
  exact h.opens.read hitem

/-- A registry without a file cannot be read. -/
theorem Holds.read_none (h : registry.Holds files l none) :
    files.read registry.path = .error .noEntry :=
  h.opens.read_none (isText_none.mp h.isText)

/-! ## The file after an operation -/

/-- While files come and change, the hosts path goes on opening its place, with the text that is
there now. -/
theorem Holds.grows (h : registry.Holds files l text?) (hgrows : Grows files final)
    (hfinal : final.WellFormed) {text?' : Option Text} (htext : IsText (final.item? l) text?') :
    registry.Holds final l text?' where
  wellFormed := hfinal
  opens := h.opens.grows hgrows
  names hnone :=
    (h.names (Classical.not_not.mp fun hitem => hgrows.ne_none hitem hnone)).grows hgrows
  isText := htext

/-- Taking the lock leaves the text as it is, but if the lock file is the missing hosts file
itself, it is empty now. -/
theorem Holds.ensureFile (h : registry.Holds files l text?) (hk : registry.LocksAt files k) :
    ∃ text?', registry.Holds (files.ensureFile k) l text?' ∧ text?'.getD [] = text?.getD [] ∧
      ∀ text, text? = some text → text?' = some text := by
  have hgrows := grows_ensureFile hk.isEnd
  have hwell := h.wellFormed.ensureFile hk
  by_cases heq : files.item? l = none ∧ l = k
  · obtain ⟨hnone, rfl⟩ := heq
    have htext : text? = none := by
      cases text? with
      | none => rfl
      | some text =>
        obtain ⟨mode, hitem⟩ := isText_some.mp h.isText
        simp [hnone] at hitem
    subst htext
    refine ⟨some [], h.grows hgrows hwell (isText_some.mpr ⟨files.setting.newFileMode, ?_⟩), rfl,
      by simp⟩
    rw [exists_item?_ensureFile hk.isEnd, hnone]
    rfl
  · have hitem : (files.ensureFile k).item? l = files.item? l := by
      by_cases hnone : files.item? l = none
      · exact item?_ensureFile_of_ne hk.isEnd fun hl => heq ⟨hnone, hl⟩
      · exact item?_ensureFile_of_some hk.isEnd hnone
    exact ⟨text?, h.grows hgrows hwell (hitem ▸ h.isText), rfl, fun _ => id⟩

/-- Under the lock the registry holds the text that it held before. -/
theorem Holds.locked (h : registry.Holds files l (some text)) (hk : registry.LocksAt files k) :
    registry.Holds (files.ensureFile k) l (some text) := by
  obtain ⟨text?, hlocked, -, htext⟩ := h.ensureFile hk
  exact htext text rfl ▸ hlocked

/-- Where there is a text, a replacement of it fits by the path without links alone. -/
theorem Holds.fits_iff (h : registry.Holds files l (some text)) (hk : registry.LocksAt files k) :
    HostsFile.Fits (files.ensureFile k) registry.path l ↔
      Text.utf8Length (absolutePath l) ≤ maxPath ∧ files.HasRoom (absolutePath l) := by
  obtain ⟨mode, hitem⟩ := isText_some.mp (h.locked hk).isText
  rw [HostsFile.fits_iff_of_ne_none (by simp [hitem]), (grows_ensureFile hk.isEnd).hasRoom_iff]

/-- Where the text of the registry is replaced, it holds the new one. -/
theorem Holds.insert (h : registry.Holds files l text?) {mode : Nat}
    (hfinal : Alike final (files.insert l (.file mode (Utf8.encode text)))) :
    registry.Holds final l (some text) := by
  have hroot : l ≠ [] := h.opens.isEnd.ne_root
  have hitem : ∀ l', final.item? l' =
      if l' = l then some (.file mode (Utf8.encode text)) else files.item? l' :=
    fun l' => by rw [hfinal.item?, item?_insert hroot]
  have hgrows : Grows files final := (Grows.insert h.opens.isEnd mode _).of_alike hfinal
  refine h.grows hgrows (h.wellFormed.grows hgrows fun l' hbefore hafter => ?_)
    (isText_some.mpr ⟨mode, by rw [hitem, if_pos rfl]⟩)
  rw [hitem] at hafter
  by_cases heq : l' = l
  · exact heq ▸ h.opens.isPlace h.wellFormed
  · rw [if_neg heq] at hafter
    exact absurd hbefore hafter

/-- A replacement lands on the place of the registry. -/
theorem Holds.lands (h : registry.Holds files l text?) : files.Lands registry.path l l := by
  by_cases hitem : files.item? l = none
  · exact .name hitem (h.names hitem)
  · exact .file hitem

/-- After a change of the text under the lock, the registry holds the new text, and only files
have come and changed. -/
theorem Holds.locked_insert (h : registry.Holds files l text?) (hk : registry.LocksAt files k)
    {mode : Nat} (hfinal : Alike final
      ((files.ensureFile k).insert l (.file mode (Utf8.encode text)))) :
    registry.Holds final l (some text) ∧ Grows files final := by
  obtain ⟨text?', hlocked, -, -⟩ := h.ensureFile hk
  exact ⟨hlocked.insert hfinal,
    (grows_ensureFile hk.isEnd).trans ((Grows.insert hlocked.opens.isEnd mode _).of_alike hfinal)⟩

/-- A replacement fits under the lock if there is room next to the file and next to the path. -/
theorem fits_locked (hk : registry.LocksAt files k)
    (hlength : Text.utf8Length (absolutePath l) ≤ maxPath) (hpath : files.HasRoom registry.path)
    (hroom : files.HasRoom (absolutePath l)) :
    HostsFile.Fits (files.ensureFile k) registry.path l := by
  refine ⟨hlength, ?_⟩
  rw [(grows_ensureFile hk.isEnd).hasRoom_iff]
  split
  · exact hpath
  · exact hroom

/-! ## The lock -/

/-- The error with which the lock file cannot be opened. -/
def lockRefusal? (registry : HostRegistry) (files : Files) : Option IoError :=
  match files.openOrCreate (PathText.lockPath registry.path) with
  | .ok _ => none
  | .error e => some e

/-- The lock file has a place unless opening it is refused. -/
theorem lockRefusal?_eq_none_iff :
    registry.lockRefusal? files = none ↔ ∃ k, registry.LocksAt files k := by
  unfold lockRefusal?
  constructor
  · intro h
    cases hopen : files.openOrCreate (PathText.lockPath registry.path) with
    | error e => simp [hopen] at h
    | ok result => exact ⟨result.1, opens_of_openOrCreate hopen⟩
  · rintro ⟨k, hk⟩
    rw [hk.openOrCreate]

/-! ## A hosts file in the root directory -/

/-- The registry whose path is a single name. -/
def plain : HostRegistry := ⟨"hosts".toList⟩

/-- The place of the file. -/
def plainPlace : Location := ["hosts".toList]

/-- The place of its lock file. -/
def plainLock : Location := ["hosts.lock".toList]

/-- An item with text is one where a path can end. -/
theorem isEnd_of_isText {item : Option Item} (h : IsText item text?) : IsEnd item := by
  cases text? with
  | none => simp [isText_none.mp h, IsEnd]
  | some text =>
    obtain ⟨mode, hitem⟩ := isText_some.mp h
    simp [hitem, IsEnd]

/-- The text of the file is what the registry holds, whatever else is in the directory. -/
theorem holds_flat {items : List (Text × Item)} (hitems : (flat items).WellFormed)
    (htext : IsText ((flat items).item? plainPlace) text?) :
    plain.Holds (flat items) plainPlace text? := by
  have hend := isEnd_of_isText htext
  have hnames : (flat items).Names plain.path plainPlace := names_flat (by decide) hend
  exact ⟨hitems, hnames.opens hend, fun _ => hnames, htext⟩

/-- The lock file is made next to the file. -/
theorem locksAt_flat {items : List (Text × Item)} (hend : IsEnd ((flat items).item? plainLock)) :
    plain.LocksAt (flat items) plainLock := by
  have hpath : PathText.lockPath plain.path = "hosts.lock".toList := by decide
  have hnames : (flat items).Names "hosts.lock".toList plainLock := names_flat (by decide) hend
  rw [LocksAt, hpath]
  exact hnames.opens hend

/-- A replacement of the file fits. -/
theorem fits_flat {items : List (Text × Item)} (hk : plain.LocksAt (flat items) k) :
    HostsFile.Fits ((flat items).ensureFile k) plain.path plainPlace :=
  -- There is room whatever the items are.
  have hroom : (flat []).HasRoom plain.path ∧ (flat []).HasRoom (absolutePath plainPlace) := by
    decide
  fits_locked hk (by decide) hroom.1 hroom.2

/-- The file with a text alone in the root directory. -/
def alone (text : Text) : List (Text × Item) :=
  [("hosts".toList, .file 0o644 (Utf8.encode text))]

/-- The registry holds the text of a file that is alone. -/
theorem holds_alone (text : Text) : plain.Holds (flat (alone text)) plainPlace (some text) := by
  refine holds_flat (wellFormed_flat ?_) (isText_some.mpr ⟨0o644, by rfl⟩)
  simp only [alone, List.forall_mem_singleton]
  exact ⟨by decide, fun target htarget => Item.noConfusion htarget⟩

/-- The lock file of a file that is alone can be made. -/
theorem locksAt_alone (text : Text) : plain.LocksAt (flat (alone text)) plainLock :=
  locksAt_flat (isEnd_iff.mpr (.inl (by rfl)))

end HostKit.HostRegistry
