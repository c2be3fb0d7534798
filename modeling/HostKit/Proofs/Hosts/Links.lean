import HostKit.Proofs.Hosts.Operations

/-!
# A hosts path that is a link

If the hosts path is a link, operations work on the file that it leads to. An addition makes the
file where the links end, also if it is missing. A replacement of a missing file does not follow
the links: it is moved onto the name of the path itself, and the link there is gone. A
replacement or a removal of a file that is there keeps all links.
-/

namespace HostKit.HostRegistry

open HostKit.Action Files
open Text (lines unlines closed)

variable {registry : HostRegistry} {machine after : Machine} {files final : Files}
variable {l k p : Location} {ip hostname text target : Text} {text? : Option Text}
variable {entry : HostEntry}

/-- Every link is still there and leads where it led. -/
def KeepsLinks (before after : Files) : Prop :=
  ∀ q target, before.item? q = some (.link target) → after.item? q = some (.link target)

/-- While files come and change, links are kept. -/
theorem KeepsLinks.of_grows {before after : Files} (h : Grows before after) :
    KeepsLinks before after :=
  fun _ _ => h.link

/-- A path that leads to a link, not followed, names the place of the link. -/
theorem names_of_link (h : files.resolve false registry.path = .ok (.present p (.link target))) :
    files.item? p = some (.link target) ∧ files.Names registry.path p := by
  have hitem := (resolve_eq_ok_iff.mp h).2.item?_present
  exact ⟨hitem, by rw [h, foundAt_of_some hitem], fun mode hmode => by simp [hitem] at hmode⟩

/-- What is found where a text was put. -/
theorem isText_of_alike {mode : Nat} (hl : l ≠ [])
    (h : Alike final (files.insert l (.file mode (Utf8.encode text)))) :
    IsText (final.item? l) (some text) :=
  isText_some.mpr ⟨mode, by rw [h.item?, item?_insert hl, if_pos rfl]⟩

/-- Files have come and changed where a file was put at the place of a path. -/
theorem grows_of_alike (hk : registry.LocksAt files k) (h : files.Opens registry.path l)
    {mode : Nat} {content : Bytes}
    (hfinal : Alike final ((files.ensureFile k).insert l (.file mode content))) :
    Grows files final := by
  have hgrows := grows_ensureFile hk.isEnd
  exact hgrows.trans ((Grows.insert (h.grows hgrows).isEnd mode content).of_alike hfinal)

/-- An addition keeps all links and puts its line at the end of the file that they lead to. -/
theorem keepsLinks_add (h : machine.files.Opens registry.path l)
    (htext : IsText (machine.files.item? l) text?)
    (hrun : runOn (registry.add ip hostname) machine = (.ok (), after)) :
    KeepsLinks machine.files after.files ∧
      IsText (after.files.item? l)
        (some (closed (text?.getD []) ++ (ip ++ '\t' :: (hostname ++ ['\n'])))) := by
  obtain ⟨⟨entry, hentry⟩, k, hk⟩ := of_runOn_add hrun
  obtain ⟨passed, final, hrun', hfinal⟩ := runOn_add hentry hk h
  obtain rfl := (Prod.mk.inj (hrun'.symm.trans hrun)).2
  obtain ⟨rfl, -, -, -⟩ := HostEntry.of_make hentry
  have hline : HostEntry.line ⟨ip, hostname⟩ ++ ['\n'] = ip ++ '\t' :: (hostname ++ ['\n']) := by
    simp [HostEntry.line]
  rw [contentOf_of_isText htext, HostsFile.withLine_encode, hline] at hfinal
  exact ⟨.of_grows (grows_of_alike hk h hfinal), isText_of_alike h.isEnd.ne_root hfinal⟩

/-- A removal keeps all links and changes the file that they lead to. -/
theorem keepsLinks_remove (hfiles : machine.files.WellFormed)
    (h : machine.files.Opens registry.path l)
    (htext : IsText (machine.files.item? l) (some text))
    (hrun : runOn (registry.remove ip) machine = (.ok (), after)) :
    KeepsLinks machine.files after.files ∧
      IsText (after.files.item? l) (some (if otherLines ip (lines text) = lines text then text
        else unlines (otherLines ip (lines text)))) := by
  obtain ⟨k, hk, hfits⟩ := of_runOn_remove hfiles h htext hrun
  obtain ⟨between, hrun', ⟨hkept, hfinal⟩ | ⟨hkept, hfinal⟩⟩ :=
    runOn_remove hk hfiles h htext hfits
  · obtain rfl := (Prod.mk.inj (hrun'.symm.trans hrun)).2
    obtain ⟨mode, hitem⟩ := isText_some.mp htext
    rw [Machine.logged_files, hfinal]
    refine ⟨.of_grows (grows_ensureFile hk.isEnd), ?_⟩
    rw [if_pos hkept, item?_ensureFile_of_some hk.isEnd (by simp [hitem])]
    exact htext
  · obtain rfl := (Prod.mk.inj (hrun'.symm.trans hrun)).2
    rw [if_neg hkept]
    exact ⟨.of_grows (grows_of_alike hk h hfinal), isText_of_alike h.isEnd.ne_root hfinal⟩

/-- Nothing is at the place after the lock is taken exactly if there was no text and the lock file
is elsewhere. -/
theorem item?_locked_eq_none_iff (hk : registry.LocksAt files k)
    (htext : IsText (files.item? l) text?) :
    (files.ensureFile k).item? l = none ↔ ¬(text? ≠ none ∨ registry.LocksAt files l) := by
  cases text? with
  | some text =>
    obtain ⟨mode, hitem⟩ := isText_some.mp htext
    simp [item?_ensureFile_of_some hk.isEnd (by simp [hitem] : files.item? l ≠ none), hitem]
  | none =>
    have hnone := isText_none.mp htext
    by_cases hl : l = k
    · subst hl
      simp [exists_item?_ensureFile hk.isEnd, hk]
    · have hother : ¬registry.LocksAt files l := fun hlocks => hl (Opens.unique hlocks hk)
      simp [item?_ensureFile_of_ne hk.isEnd hl, hnone, hother]

/-- If the path is a link, a replacement keeps all links and gives its lines to the file that they
lead to, exactly if this file is there, or comes to be there as the lock file. -/
theorem keepsLinks_set_iff (hfiles : machine.files.WellFormed)
    (hlink : machine.files.resolve false registry.path = .ok (.present p (.link target)))
    (h : machine.files.Opens registry.path l) (htext : IsText (machine.files.item? l) text?)
    (hrun : runOn (registry.set ip hostname) machine = (.ok (), after)) :
    (KeepsLinks machine.files after.files ∧ IsText (after.files.item? l) (some
        (unlines (otherLines ip (lines (text?.getD [])) ++ [ip ++ '\t' :: hostname])))) ↔
      text? ≠ none ∨ registry.LocksAt machine.files l := by
  have hcontent := contentOf_of_isText htext
  obtain ⟨⟨entry, hentry⟩, k, hk, hfits⟩ := of_runOn_set hfiles h hcontent hrun
  obtain ⟨rfl, -, -, -⟩ := HostEntry.of_make hentry
  obtain ⟨hitem, hnames⟩ := names_of_link hlink
  have hlocked := item?_locked_eq_none_iff hk htext
  by_cases hthere : text? ≠ none ∨ registry.LocksAt machine.files l
  · have hfile := mt hlocked.mp (not_not_intro hthere)
    obtain ⟨between, hrun', hfinal⟩ :=
      runOn_set hentry hk hfiles h hcontent (.file hfile) hfits
    obtain rfl := (Prod.mk.inj (hrun'.symm.trans hrun)).2
    refine iff_of_true ?_ hthere
    exact ⟨.of_grows (grows_of_alike hk h hfinal), isText_of_alike h.isEnd.ne_root hfinal⟩
  · -- The new file is moved onto the name of the link itself.
    have hnone := hlocked.mpr hthere
    obtain ⟨between, hrun', hfinal⟩ := runOn_set hentry hk hfiles h hcontent
      (.name hnone (hnames.grows (grows_ensureFile hk.isEnd))) hfits
    obtain rfl := (Prod.mk.inj (hrun'.symm.trans hrun)).2
    refine iff_of_false (fun hkept => ?_) hthere
    have hplace : p ≠ [] := (hnames.isPlace hfiles).ne_root
    have hgone := hkept.1 p target hitem
    rw [Machine.logged_files, hfinal.item?, item?_insert hplace, if_pos rfl] at hgone
    simp at hgone

/-- If the path is a link, additions and removals keep all links and change the file that they lead
to, and a replacement does so exactly if this file is there, or comes to be there as the lock
file. -/
theorem link_rewritten_iff (hfiles : machine.files.WellFormed)
    (hlink : machine.files.resolve false registry.path = .ok (.present p (.link target)))
    (h : machine.files.Opens registry.path l) (htext : IsText (machine.files.item? l) text?) :
    (∀ hostname after, runOn (registry.add ip hostname) machine = (.ok (), after) →
      KeepsLinks machine.files after.files ∧ IsText (after.files.item? l)
        (some (closed (text?.getD []) ++ (ip ++ '\t' :: (hostname ++ ['\n']))))) ∧
    (∀ after, runOn (registry.remove ip) machine = (.ok (), after) →
      KeepsLinks machine.files after.files ∧ ∃ text, text? = some text ∧
        IsText (after.files.item? l) (some (if otherLines ip (lines text) = lines text then text
          else unlines (otherLines ip (lines text))))) ∧
    ∀ hostname after, runOn (registry.set ip hostname) machine = (.ok (), after) →
      ((KeepsLinks machine.files after.files ∧ IsText (after.files.item? l) (some
          (unlines (otherLines ip (lines (text?.getD [])) ++ [ip ++ '\t' :: hostname])))) ↔
        text? ≠ none ∨ registry.LocksAt machine.files l) := by
  refine ⟨fun hostname after hrun => keepsLinks_add h htext hrun, fun after hrun => ?_,
    fun hostname after hrun => keepsLinks_set_iff hfiles hlink h htext hrun⟩
  cases text? with
  | none =>
    rw [runOn_remove_missing h (isText_none.mp htext)] at hrun
    cases hrun
  | some text =>
    obtain ⟨hkept, hafter⟩ := keepsLinks_remove hfiles h htext hrun
    exact ⟨hkept, text, rfl, hafter⟩

/-- The root directory with a link to a file that is not there. -/
def dangling : List (Text × Item) := [("hosts".toList, .link "real".toList)]

/-- The path of a dangling link leads to the name in the link. -/
theorem opens_dangling : (flat dangling).Opens plain.path ["real".toList] := by
  have hlink : (flat dangling).item? plainPlace = some (.link "real".toList) := by rfl
  have hnone : (flat dangling).item? ["real".toList] = none := by rfl
  have hname : LookedUp "hosts".toList := Genuine.lookedUp (by decide)
  have hreal : LookedUp "real".toList := Genuine.lookedUp (by decide)
  refine ⟨resolve_eq_ok_iff.mpr ⟨by decide, ?_⟩, isEnd_iff.mpr (.inl hnone)⟩
  rw [foundAt_of_none hnone]
  exact .jump hname hlink (by decide) (by decide) (.absent hreal hnone)

/-- A replacement through a link to a file that is not there puts a file in the place of the
link. -/
theorem dangling_replaced :
    (flat dangling).WellFormed ∧
      (flat dangling).resolve false plain.path =
        .ok (.present plainPlace (.link "real".toList)) ∧
      (flat dangling).Opens plain.path ["real".toList] ∧
      IsText ((flat dangling).item? ["real".toList]) none ∧
      ∃ after, runOn (plain.set "10.0.0.1".toList "a".toList) (.resting (flat dangling)) =
          (.ok (), after) ∧
        ¬(KeepsLinks (flat dangling) after.files ∧ IsText (after.files.item? ["real".toList])
          (some "10.0.0.1\ta\n".toList)) := by
  have hfiles : (Machine.resting (flat dangling)).files.WellFormed := by
    refine wellFormed_flat ?_
    simp only [dangling, List.forall_mem_singleton]
    exact ⟨by decide, fun target htarget => Item.link.inj htarget ▸ by decide⟩
  have hitem : (flat dangling).item? plainPlace = some (.link "real".toList) := by rfl
  have hlink : (Machine.resting (flat dangling)).files.resolve false plain.path =
      .ok (.present plainPlace (.link "real".toList)) :=
    resolve_eq_ok_iff.mpr ⟨by decide, .stay (Genuine.lookedUp (by decide)) hitem rfl⟩
  have hopens : (Machine.resting (flat dangling)).files.Opens plain.path ["real".toList] :=
    opens_dangling
  have hnone : (Machine.resting (flat dangling)).files.item? ["real".toList] = none := by rfl
  have hlocks : plain.LocksAt (Machine.resting (flat dangling)).files plainLock :=
    locksAt_flat (isEnd_iff.mpr (.inl (by rfl)))
  have hother : ¬plain.LocksAt (Machine.resting (flat dangling)).files ["real".toList] :=
    fun h => absurd (Opens.unique h hlocks) (by decide)
  have hentry : HostEntry.make "10.0.0.1".toList "a".toList =
      .ok ⟨"10.0.0.1".toList, "a".toList⟩ := by rfl
  have hlocked := (item?_locked_eq_none_iff hlocks (isText_none.mpr hnone)).mpr
    fun hthere => hthere.elim (fun hsome => hsome rfl) hother
  have hfits := fits_locked hlocks (by decide : Text.utf8Length (absolutePath ["real".toList]) ≤ _)
    (by decide) (by decide)
  obtain ⟨between, hrun, -⟩ := runOn_set hentry hlocks hfiles hopens
    (contentOf_of_isText (isText_none.mpr hnone))
    (.name hlocked ((names_of_link hlink).2.grows (grows_ensureFile hlocks.isEnd))) hfits
  refine ⟨hfiles, hlink, hopens, isText_none.mpr hnone, _, hrun, fun hkept => ?_⟩
  have hiff := (link_rewritten_iff hfiles hlink hopens (isText_none.mpr hnone)).2.2 _ _ hrun
  exact (hiff.mp hkept).elim (fun hsome => hsome rfl) hother

end HostKit.HostRegistry
