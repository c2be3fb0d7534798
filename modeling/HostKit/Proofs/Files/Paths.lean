import HostKit.Proofs.Files.Route
import HostKit.Proofs.Files.Temporary
import HostKit.Success

/-!
# What paths lead to

A path opens a place if it leads there through any links and a file is there or can come to be
there. It names a place if it leads there without following a link at its end. Where a path
names a place, its directory is found, a temporary file can be made next to the place if its own
path is short enough, and it is moved onto the place unless a file there refuses that. The path
without links of a file names the place that any path to the file opens.
-/

namespace HostKit.Files

open PathText (names isAbsolute endsWithSlash directoryOf)

variable {files before after : Files}

/-- The path leads to the place, links followed, and ends there. -/
structure Opens (files : Files) (path : Text) (l : Location) : Prop where
  resolve : files.resolve true path = .ok (files.foundAt l)
  isEnd : IsEnd (files.item? l)

/-- The path leads to the place without following a link there, and no directory is there. -/
structure Names (files : Files) (path : Text) (l : Location) : Prop where
  resolve : files.resolve false path = .ok (files.foundAt l)
  not_directory : ∀ mode, files.item? l ≠ some (.directory mode)

/-- A path leads somewhere if nothing is wrong with its text and there is a route. -/
theorem resolve_eq_ok_iff {follow : Bool} {path : Text} {found : Found} :
    files.resolve follow path = .ok found ↔
      pathError? path = none ∧
        Route files follow maxLinks (files.startOf path) (names path) (endsWithSlash path)
          found := by
  unfold resolve
  cases pathError? path with
  | some error => simp
  | none => simp [walk_eq_ok_iff]

/-- Nothing is wrong with the text of a path that has no NUL and is neither empty nor too long. -/
theorem pathError?_eq_none_iff {path : Text} :
    pathError? path = none ↔
      '\x00' ∉ path ∧ path ≠ [] ∧ Text.utf8Length path ≤ maxPath := by
  unfold pathError?
  by_cases hnul : '\x00' ∈ path
  · simp [hnul]
  by_cases hnil : path = []
  · simp [hnil]
  by_cases hlong : maxPath < Text.utf8Length path
  · simp [hnul, hnil, hlong]
  · simp [hnul, hnil, hlong, Nat.le_of_not_lt hlong]

/-! ## Paths while files come and change -/

/-- What a path starts from is a directory. -/
theorem WellFormed.exists_startOf (h : files.WellFormed) (path : Text) :
    ∃ mode, files.item? (files.startOf path) = some (.directory mode) := by
  unfold Files.startOf
  split
  · exact ⟨rootMode, item?_root files⟩
  · exact h.workingDirectory

/-- Paths start from the same places. -/
theorem Grows.startOf (h : Grows before after) (path : Text) :
    after.startOf path = before.startOf path := by
  simp [Files.startOf, h.setting]

/-- A path goes on leading to its place. -/
theorem Grows.resolve (h : Grows before after) {follow : Bool} {path : Text} {l : Location}
    (hl : before.resolve follow path = .ok (before.foundAt l)) :
    after.resolve follow path = .ok (after.foundAt l) := by
  obtain ⟨herror, hroute⟩ := resolve_eq_ok_iff.mp hl
  exact resolve_eq_ok_iff.mpr ⟨herror, h.startOf path ▸ hroute.grows h⟩

/-- A path goes on opening its place. -/
theorem Opens.grows {path : Text} {l : Location} (h : before.Opens path l)
    (hgrows : Grows before after) : after.Opens path l :=
  ⟨hgrows.resolve h.resolve, hgrows.isEnd_of_isEnd h.isEnd⟩

/-- A path goes on naming its place. -/
theorem Names.grows {path : Text} {l : Location} (h : before.Names path l)
    (hgrows : Grows before after) : after.Names path l :=
  ⟨hgrows.resolve h.resolve, fun mode hafter => h.not_directory mode (hgrows.of_directory hafter)⟩

/-- A path that leads to a place led there before. -/
theorem Grows.of_resolve (hfiles : before.WellFormed) (h : Grows before after) {follow : Bool}
    {path : Text} {l : Location} (hl : after.resolve follow path = .ok (after.foundAt l)) :
    before.resolve follow path = .ok (before.foundAt l) := by
  obtain ⟨herror, hroute⟩ := resolve_eq_ok_iff.mp hl
  rw [h.startOf path] at hroute
  exact resolve_eq_ok_iff.mpr ⟨herror, hroute.of_grows hfiles h (hfiles.exists_startOf path)⟩

/-- A path that opens a place opened it before. -/
theorem Opens.of_grows (hfiles : before.WellFormed) (hgrows : Grows before after) {path : Text}
    {l : Location} (h : after.Opens path l) : before.Opens path l :=
  ⟨hgrows.of_resolve hfiles h.resolve, hgrows.of_isEnd h.isEnd⟩

/-- A path that names a place named it before. -/
theorem Names.of_grows (hfiles : before.WellFormed) (hgrows : Grows before after) {path : Text}
    {l : Location} (h : after.Names path l) : before.Names path l :=
  ⟨hgrows.of_resolve hfiles h.resolve, fun mode hmode =>
    h.not_directory mode (hgrows.directory hmode)⟩

/-! ## Opening -/

/-- The files with an empty one at a place where nothing was. -/
def ensureFile (files : Files) (l : Location) : Files :=
  match files.item? l with
  | none => files.insert l (.file files.setting.newFileMode [])
  | some _ => files

/-- A file that is made where nothing was is all that comes. -/
theorem grows_ensureFile {l : Location} (h : IsEnd (files.item? l)) :
    Grows files (files.ensureFile l) := by
  unfold ensureFile
  split
  · exact Grows.insert h _ _
  · exact Grows.refl files

/-- A path opens only one place. -/
theorem Opens.unique {path : Text} {l k : Location} (h : files.Opens path l)
    (h' : files.Opens path k) : l = k := by
  have hfound := Except.ok.inj (h.resolve.symm.trans h'.resolve)
  simpa using congrArg Found.location hfound

/-- A path names only one place. -/
theorem Names.unique {path : Text} {l k : Location} (h : files.Names path l)
    (h' : files.Names path k) : l = k := by
  have hfound := Except.ok.inj (h.resolve.symm.trans h'.resolve)
  simpa using congrArg Found.location hfound

/-- Opening gives the place of the path, with a file there. -/
theorem Opens.openOrCreate {path : Text} {l : Location} (h : files.Opens path l) :
    files.openOrCreate path = .ok (l, files.ensureFile l) := by
  rcases isEnd_iff.mp h.isEnd with hnone | ⟨mode, content, hfile⟩
  · simp [Files.openOrCreate, h.resolve, foundAt_of_none hnone, ensureFile, hnone]
  · simp [Files.openOrCreate, h.resolve, foundAt_of_some hfile, ensureFile, hfile]

/-- Opening succeeds only where the path opens a place. -/
theorem opens_of_openOrCreate {path : Text} {l : Location}
    (h : files.openOrCreate path = .ok (l, after)) : files.Opens path l := by
  unfold Files.openOrCreate at h
  obtain ⟨found, hresolve, h⟩ := Success.of_bind h
  have hitem := (resolve_eq_ok_iff.mp hresolve).2.item?_location
  split at h
  · obtain ⟨rfl, -⟩ := Prod.mk.inj (Except.ok.inj h)
    simp only [Found.present.injEq, reduceCtorEq, false_and, exists_false, or_false] at hitem
    obtain ⟨l, item, ⟨rfl, rfl⟩, hitem⟩ := hitem
    exact ⟨by rw [hresolve, foundAt_of_some hitem], by simp [hitem, IsEnd]⟩
  · simp at h
  · split at h
    · simp at h
    · next hslash =>
      obtain ⟨rfl, -⟩ := Prod.mk.inj (Except.ok.inj h)
      simp only [Found.missing.injEq, reduceCtorEq, false_and, exists_false, false_or] at hitem
      obtain ⟨l, slash, ⟨rfl, rfl⟩, hitem⟩ := hitem
      obtain rfl : _ = false := by simpa using hslash
      exact ⟨by rw [hresolve, foundAt_of_none hitem], by simp [hitem, IsEnd]⟩

/-- A file at the end of a path is found there. -/
theorem find_of_resolve {path : Text} {l : Location} {item : Item}
    (h : files.resolve true path = .ok (files.foundAt l)) (hitem : files.item? l = some item) :
    files.find path = .ok (l, item) := by
  simp [find, h, foundAt_of_some hitem]

/-- Where nothing is at the end of a path, nothing is found. -/
theorem find_of_resolve_none {path : Text} {l : Location}
    (h : files.resolve true path = .ok (files.foundAt l)) (hitem : files.item? l = none) :
    files.find path = .error .noEntry := by
  simp [find, h, foundAt_of_none hitem]

/-- The content of a file is read through any path that opens it. -/
theorem Opens.read {path : Text} {l : Location} (h : files.Opens path l) {mode : Nat}
    {content : Bytes} (hitem : files.item? l = some (.file mode content)) :
    files.read path = .ok content := by
  simp [Files.read, find_of_resolve h.resolve hitem]

/-- A missing file is not read. -/
theorem Opens.read_none {path : Text} {l : Location} (h : files.Opens path l)
    (hitem : files.item? l = none) : files.read path = .error .noEntry := by
  simp [Files.read, find_of_resolve_none h.resolve hitem]

/-- A path that names a place where it can end opens that place. -/
theorem Names.opens {path : Text} {l : Location} (h : files.Names path l)
    (hl : IsEnd (files.item? l)) : files.Opens path l := by
  obtain ⟨herror, hroute⟩ := resolve_eq_ok_iff.mp h.resolve
  exact ⟨resolve_eq_ok_iff.mpr ⟨herror, hroute.follow_end hl⟩, hl⟩

/-! ## The directory and the name -/

/-- A genuine name is looked up. -/
theorem Genuine.lookedUp {name : Text} (h : Genuine name) : LookedUp name :=
  ⟨Nat.not_lt_of_le h.length_le, h.ne_dot, h.ne_dots⟩

/-- A place that a path opens is one in the tree. -/
theorem Opens.isPlace (hfiles : files.WellFormed) {path : Text} {l : Location}
    (h : files.Opens path l) : files.IsPlace l := by
  by_cases hitem : files.item? l = none
  · obtain ⟨herror, hroute⟩ := resolve_eq_ok_iff.mp h.resolve
    obtain ⟨hnul, -, -⟩ := pathError?_eq_none_iff.mp herror
    rw [foundAt_of_none hitem] at hroute
    refine hroute.isPlace hfiles (hfiles.exists_startOf path) fun name hname => ?_
    obtain ⟨hnil, hslash, hchars⟩ := PathText.of_mem_names hname
    exact ⟨hnil, hslash, fun h => hnul (hchars _ h)⟩
  · exact hfiles.isPlace hitem h.isEnd.ne_root

/-- The tree stays well-formed when a file comes to where a path can open it. -/
theorem WellFormed.ensureFile (hfiles : files.WellFormed) {path : Text} {l : Location}
    (h : files.Opens path l) : (files.ensureFile l).WellFormed := by
  refine hfiles.grows (grows_ensureFile h.isEnd) fun l' hbefore hafter => ?_
  have hroot : l ≠ [] := h.isEnd.ne_root
  have heq : l' = l := by
    unfold Files.ensureFile at hafter
    split at hafter
    · by_cases heq : l' = l
      · exact heq
      · simp [hroot, heq, hbefore] at hafter
    · exact absurd hbefore hafter
  exact heq ▸ h.isPlace hfiles

/-- A path to what is no directory leads to a directory and takes its last name from there. -/
theorem exists_directory_of_resolve (hfiles : files.WellFormed) {follow : Bool} {path : Text}
    {l : Location} (h : files.resolve follow path = .ok (files.foundAt l))
    (hl : ∀ mode, files.item? l ≠ some (.directory mode)) :
    ∃ directory mode front name links, Genuine name ∧ names path = front ++ [name] ∧
      endsWithSlash path = false ∧
      Route files true maxLinks (files.startOf path) front true
        (.present directory (.directory mode)) ∧
      Route files follow links directory [name] false (files.foundAt l) := by
  obtain ⟨herror, hroute⟩ := resolve_eq_ok_iff.mp h
  obtain ⟨hnul, -, -⟩ := pathError?_eq_none_iff.mp herror
  have hstart := hfiles.exists_startOf path
  obtain ⟨hslash, front, name, hnames, hname⟩ := hroute.exists_last hfiles hl hstart
  rw [hnames, hslash] at hroute
  obtain ⟨directory, mode, links, hdirectory, -, hlast⟩ :=
    hroute.exists_directory hfiles hname hstart
  have hmem : name ∈ names path := by simp [hnames]
  obtain ⟨hnil, hslash', hchars⟩ := PathText.of_mem_names hmem
  have hgenuine : Genuine name :=
    ⟨hnil, hslash', fun h => hnul (hchars _ h), hname.ne_dot, hname.ne_dots,
      Nat.le_of_not_lt hname.length_le⟩
  exact ⟨directory, mode, front, name, links, hgenuine, hnames, hslash, hdirectory, hlast⟩

/-- The place that a path names is an entry of a directory, and the path leads to that directory
before its last name. -/
theorem Names.exists_directory (hfiles : files.WellFormed) {path : Text} {l : Location}
    (h : files.Names path l) :
    ∃ directory mode front name, l = directory ++ [name] ∧ Genuine name ∧
      names path = front ++ [name] ∧ endsWithSlash path = false ∧
      Route files true maxLinks (files.startOf path) front true
        (.present directory (.directory mode)) := by
  obtain ⟨directory, mode, front, name, links, hname, hnames, hslash, hroute, hlast⟩ :=
    exists_directory_of_resolve hfiles h.resolve h.not_directory
  rcases hlast.eq_or_link hname.lookedUp with hl | ⟨hfollow, -⟩
  · exact ⟨directory, mode, front, name, hl, hname, hnames, hslash, hroute⟩
  · cases hfollow

/-- The last name of a path leads to its place in the directory, if no directory is there. -/
theorem LookedUp.route {name : Text} (h : LookedUp name) {directory : Location}
    (hitem : ∀ mode, files.item? (directory ++ [name]) ≠ some (.directory mode)) (links : Nat) :
    Route files false links directory [name] false (files.foundAt (directory ++ [name])) := by
  cases hend : files.item? (directory ++ [name]) with
  | none => exact foundAt_of_none hend ▸ .absent h hend
  | some item =>
    rw [foundAt_of_some hend]
    cases item with
    | file mode content => exact .file h hend
    | directory mode => exact absurd hend (hitem mode)
    | link target => exact .stay h hend rfl

/-- A path that opens a place names one: that place, or a link which leads there. -/
theorem Opens.exists_names (hfiles : files.WellFormed) {path : Text} {l : Location}
    (h : files.Opens path l) :
    ∃ place, files.Names path place ∧
      (place = l ∨ ∃ target, files.item? place = some (.link target)) := by
  obtain ⟨directory, mode, front, name, links, hname, hnames, hslash, hroute, hlast⟩ :=
    exists_directory_of_resolve hfiles h.resolve h.isEnd.ne_directory
  have hend := hlast.eq_or_link hname.lookedUp
  have hplace : ∀ mode, files.item? (directory ++ [name]) ≠ some (.directory mode) := by
    intro mode hmode
    rcases hend with rfl | ⟨-, target, hlink⟩
    · exact h.isEnd.ne_directory mode hmode
    · simp [hlink] at hmode
  obtain ⟨herror, -⟩ := resolve_eq_ok_iff.mp h.resolve
  refine ⟨directory ++ [name], ⟨resolve_eq_ok_iff.mpr ⟨herror, ?_⟩, hplace⟩,
    hend.imp Eq.symm And.right⟩
  rw [hnames, hslash]
  exact hroute.append fun links => hname.lookedUp.route hplace links

/-- The place that a path names is one in the tree. -/
theorem Names.isPlace (hfiles : files.WellFormed) {path : Text} {l : Location}
    (h : files.Names path l) : files.IsPlace l := by
  obtain ⟨directory, mode, front, name, rfl, hname, -, -, hroute⟩ := h.exists_directory hfiles
  exact ⟨directory, name, mode, rfl, hname, hroute.item?_present⟩

/-- How much the bytes of two texts in a row take. -/
theorem utf8Length_append (t u : Text) :
    Text.utf8Length (t ++ u) = Text.utf8Length t + Text.utf8Length u := by
  induction t with
  | nil => simp [Text.utf8Length]
  | cons c t ih =>
    simp only [Text.utf8Length, List.cons_append, List.foldr_cons] at ih ⊢
    omega

/-- A lone dot leads to the working directory. -/
theorem resolve_dot {mode : Nat}
    (h : files.item? files.setting.workingDirectory = some (.directory mode)) :
    files.resolve true ['.'] = .ok (.present files.setting.workingDirectory (.directory mode)) := by
  have hnames : names ['.'] = [".".toList] := by decide
  refine resolve_eq_ok_iff.mpr ⟨by decide, ?_⟩
  rw [hnames]
  exact .dot (.arrived h)

/-- The front of a path leads to where the names before some lone dots lead. -/
theorem resolve_front {path part rest : Text} {k : Nat} {directory : Location} {mode : Nat}
    (herror : pathError? path = none) (hrest : path = part ++ rest) (hnil : part ≠ [])
    (hroute : Route files true maxLinks (files.startOf path)
      (names part ++ List.replicate k ".".toList) true (.present directory (.directory mode))) :
    files.resolve true part = .ok (.present directory (.directory mode)) := by
  obtain ⟨hnul, -, hlength⟩ := pathError?_eq_none_iff.mp herror
  subst hrest
  rw [utf8Length_append] at hlength
  have hstart : files.startOf (part ++ rest) = files.startOf part := by
    rw [Files.startOf, Files.startOf, PathText.isAbsolute_append hnil]
  rw [hstart] at hroute
  have hpart : pathError? part = none := by
    refine pathError?_eq_none_iff.mpr ⟨fun hmem => hnul (List.mem_append_left _ hmem), hnil, ?_⟩
    omega
  exact resolve_eq_ok_iff.mpr ⟨hpart, (hroute.drop_dots k).change_slash _⟩

/-- The directory of a path is found. -/
theorem Names.find_directoryOf (hfiles : files.WellFormed) {path : Text} {directory : Location}
    {name : Text} (h : files.Names path (directory ++ [name])) :
    ∃ mode, files.find (directoryOf path) = .ok (directory, .directory mode) := by
  obtain ⟨directory', mode, front, name', hl, hname, hnames, hslash, hroute⟩ :=
    h.exists_directory hfiles
  obtain ⟨rfl, rfl⟩ : directory = directory' ∧ name = name' := by
    simpa using List.append_inj' hl rfl
  obtain ⟨herror, -⟩ := resolve_eq_ok_iff.mp h.resolve
  have hlast : (names path).getLast? = some name := by simp [hnames]
  have hresolve : files.resolve true (directoryOf path) =
      .ok (.present directory (.directory mode)) := by
    rcases PathText.directoryOf_cases hlast hslash hname.ne_dot with
      ⟨hparent, hpath, hplain⟩ | ⟨-, ⟨k, hk⟩, ⟨rest, hrest⟩, hnil⟩
    · -- The path is just a name, so the directory is the working directory.
      have hdot : directoryOf path = ['.'] := by simp [directoryOf, hparent]
      have hfront : front = [] := by
        rw [hpath, PathText.names_of_not_mem hplain hname.ne_nil] at hnames
        simpa using hnames
      have hstart : files.startOf path = files.setting.workingDirectory := by
        rw [hpath, Files.startOf, PathText.isAbsolute_of_not_mem hplain]
        rfl
      rw [hfront, hstart] at hroute
      cases hroute with
      | arrived hitem => exact hdot ▸ resolve_dot hitem
    · have hfront : front = names (directoryOf path) ++ List.replicate k ".".toList := by
        rw [hk] at hnames
        exact (List.append_inj_left' hnames rfl).symm
      exact resolve_front herror hrest hnil (hfront ▸ hroute)
  exact ⟨mode, by simp [find, hresolve]⟩

/-! ## Paths from the root without links -/

/-- The names of a directory are genuine, and they are a route to it from the root. -/
theorem WellFormed.route_directory (h : files.WellFormed) {directory : Location} {mode : Nat}
    (hdirectory : files.item? directory = some (.directory mode)) :
    (∀ name ∈ directory, Genuine name) ∧
      ∀ links, Route files true links [] directory true (.present directory (.directory mode)) := by
  induction hn : directory.length generalizing directory mode with
  | zero =>
    obtain rfl := List.length_eq_zero_iff.mp hn
    exact ⟨by simp, fun links => .arrived hdirectory⟩
  | succ n ih =>
    have hroot : directory ≠ [] := by rintro rfl; simp at hn
    obtain ⟨parent, name, mode', rfl, hname, hparent⟩ :=
      h.isPlace (by simp [hdirectory]) hroot
    obtain ⟨hgenuine, hroute⟩ := ih hparent (by simpa using hn)
    refine ⟨fun other hother => ?_, fun links => ?_⟩
    · rcases List.mem_append.mp hother with hmem | hmem
      · exact hgenuine other hmem
      · rwa [List.mem_singleton.mp hmem]
    · exact (hroute links).append fun links =>
        .enter hname.lookedUp hdirectory (.arrived hdirectory)

/-- A path of a single name names the place in the working directory. -/
theorem Genuine.names {name : Text} (h : Genuine name)
    (hitem : ∀ mode,
      files.item? (files.setting.workingDirectory ++ [name]) ≠ some (.directory mode)) :
    files.Names name (files.setting.workingDirectory ++ [name]) := by
  have herror : pathError? name = none := by
    refine pathError?_eq_none_iff.mpr ⟨h.nul_not_mem, h.ne_nil, ?_⟩
    have hlength := h.length_le
    unfold maxName at hlength
    unfold maxPath
    omega
  refine ⟨resolve_eq_ok_iff.mpr ⟨herror, ?_⟩, hitem⟩
  rw [Files.startOf, PathText.isAbsolute_of_not_mem h.slash_not_mem,
    PathText.endsWithSlash_of_not_mem h.slash_not_mem,
    PathText.names_of_not_mem h.slash_not_mem h.ne_nil]
  exact h.lookedUp.route hitem maxLinks

/-- The path from the root of a place has no NUL. -/
theorem nul_not_mem_absolutePath {l : Location} (h : ∀ name ∈ l, Genuine name) :
    '\x00' ∉ absolutePath l := by
  intro hmem
  rcases List.mem_cons.mp hmem with h' | h'
  · exact absurd h' (by decide)
  rcases Text.of_mem_join h' with h' | ⟨name, hname, h'⟩
  · exact absurd h' (by decide)
  · exact (h name hname).nul_not_mem h'

/-- The path from the root names its place. -/
theorem names_absolutePath (hfiles : files.WellFormed) {l : Location} (hl : files.IsPlace l)
    (hitem : ∀ mode, files.item? l ≠ some (.directory mode))
    (hlength : Text.utf8Length (absolutePath l) ≤ maxPath) : files.Names (absolutePath l) l := by
  obtain ⟨directory, name, mode, rfl, hname, hdirectory⟩ := hl
  obtain ⟨hgenuine, hroute⟩ := hfiles.route_directory hdirectory
  have hall : ∀ other ∈ directory ++ [name], Genuine other := by
    intro other hother
    rcases List.mem_append.mp hother with hmem | hmem
    · exact hgenuine other hmem
    · rwa [List.mem_singleton.mp hmem]
  have hnames : names (absolutePath (directory ++ [name])) = directory ++ [name] := by
    rw [absolutePath, PathText.names_slash, PathText.names_join (by simp)
      fun other hother => (hall other hother).slash_not_mem, List.filter_eq_self]
    exact fun other hother => by simpa using (hall other hother).ne_nil
  have hslash : endsWithSlash (absolutePath (directory ++ [name])) = false := by
    have hlast : (absolutePath (directory ++ [name])).getLast? = name.getLast? := by
      rw [absolutePath, List.getLast?_cons, Text.getLast?_join_append directory hname.ne_nil]
      cases hname' : name.getLast? with
      | none => exact absurd (List.getLast?_eq_none_iff.mp hname') hname.ne_nil
      | some c => rfl
    rw [endsWithSlash, hlast, decide_eq_false_iff_not]
    exact fun h => hname.slash_not_mem (List.mem_of_getLast? h)
  refine ⟨resolve_eq_ok_iff.mpr ⟨pathError?_eq_none_iff.mpr ⟨nul_not_mem_absolutePath hall,
    by simp [absolutePath], hlength⟩, ?_⟩, hitem⟩
  rw [hnames, hslash]
  exact (hroute maxLinks).append fun links => hname.lookedUp.route hitem links

/-- The path without links of a file that is there. -/
theorem Opens.canonicalPath {path : Text} {l : Location} (h : files.Opens path l) {item : Item}
    (hitem : files.item? l = some item) (hlength : Text.utf8Length (absolutePath l) ≤ maxPath) :
    files.canonicalPath path = .ok (absolutePath l) := by
  have hshort : ¬maxPath < Text.utf8Length (absolutePath l) := Nat.not_lt_of_le hlength
  simp only [Files.canonicalPath, h.resolve, Success.bind_ok, location_foundAt, if_neg hshort]
  rw [foundAt_of_some hitem]

/-- There is no path without links to a file that is missing. -/
theorem Opens.canonicalPath_none {path : Text} {l : Location} (h : files.Opens path l)
    (hitem : files.item? l = none) (hlength : Text.utf8Length (absolutePath l) ≤ maxPath) :
    files.canonicalPath path = .error .noEntry := by
  have hshort : ¬maxPath < Text.utf8Length (absolutePath l) := Nat.not_lt_of_le hlength
  simp only [Files.canonicalPath, h.resolve, Success.bind_ok, location_foundAt, if_neg hshort]
  rw [foundAt_of_none hitem]

/-- A path without links that is too long is no path. -/
theorem Opens.canonicalPath_long {path : Text} {l : Location} (h : files.Opens path l)
    (hlength : maxPath < Text.utf8Length (absolutePath l)) :
    files.canonicalPath path = .error .nameTooLong := by
  simp [Files.canonicalPath, h.resolve, hlength]

/-! ## Temporary files -/

/-- There is room for a temporary file in the directory of a path: the path that it is opened by is
short enough. -/
def HasRoom (files : Files) (path : Text) : Prop :=
  Text.utf8Length (files.temporaryPath (directoryOf path)) ≤ maxPath

instance (files : Files) (path : Text) : Decidable (files.HasRoom path) :=
  inferInstanceAs (Decidable (_ ≤ _))

/-- A path with one more name is not empty. -/
theorem push_ne_nil (path : Text) {name : Text} (h : name ≠ []) : PathText.push path name ≠ [] := by
  unfold PathText.push
  split <;> simp [h]

/-- A path with one more name has no NUL if neither has one. -/
theorem nul_not_mem_push {path name : Text} (hpath : '\x00' ∉ path) (hname : '\x00' ∉ name) :
    '\x00' ∉ PathText.push path name := by
  unfold PathText.push
  split <;> simp [hpath, hname]

/-- The directory of a path that names a place has no NUL. -/
theorem Names.nul_not_mem_directoryOf (hfiles : files.WellFormed) {path : Text} {l : Location}
    (h : files.Names path l) : '\x00' ∉ directoryOf path := by
  obtain ⟨directory, mode, front, name, -, hname, hnames, hslash, -⟩ := h.exists_directory hfiles
  obtain ⟨herror, -⟩ := resolve_eq_ok_iff.mp h.resolve
  obtain ⟨hnul, -, -⟩ := pathError?_eq_none_iff.mp herror
  have hlast : (names path).getLast? = some name := by simp [hnames]
  rcases PathText.directoryOf_cases hlast hslash hname.ne_dot with
    ⟨hparent, -⟩ | ⟨-, -, ⟨rest, hrest⟩, -⟩
  · have hdot : directoryOf path = ['.'] := by simp [directoryOf, hparent]
    rw [hdot]
    decide
  · rw [hrest] at hnul
    exact fun hmem => hnul (List.mem_append_left _ hmem)

/-- Nothing but its length can be wrong with the path of a temporary file. -/
theorem Names.pathError?_temporaryPath (hfiles : files.WellFormed) {path : Text} {l : Location}
    (h : files.Names path l) :
    pathError? (files.temporaryPath (directoryOf path)) = none ↔ files.HasRoom path := by
  obtain ⟨mode, hworking⟩ := hfiles.workingDirectory
  have hname : '\x00' ∉ temporaryName 0 := by decide
  have hdirectory := h.nul_not_mem_directoryOf hfiles
  have hnul : '\x00' ∉ files.temporaryPath (directoryOf path) := by
    unfold temporaryPath
    refine nul_not_mem_push ?_ hname
    split
    · exact hdirectory
    · exact nul_not_mem_push (nul_not_mem_absolutePath (hfiles.route_directory hworking).1)
        hdirectory
  have hnil : files.temporaryPath (directoryOf path) ≠ [] := push_ne_nil _ (by decide)
  rw [pathError?_eq_none_iff, HasRoom]
  exact ⟨fun h => h.2.2, fun h => ⟨hnul, hnil, h⟩⟩

/-- A temporary file is made at a free place in the directory of a path, if there is room. -/
theorem Names.createTemporary (hfiles : files.WellFormed) {path : Text} {l : Location}
    (h : files.Names path l) (hroom : files.HasRoom path) :
    ∃ temporary, temporary ≠ [] ∧ files.item? temporary = none ∧
      files.createTemporary (directoryOf path) =
        .ok (temporary, files.insert temporary (.file files.setting.temporaryMode [])) := by
  obtain ⟨directory, mode, front, name, rfl, -, -, -, -⟩ := h.exists_directory hfiles
  obtain ⟨mode', hfind⟩ := h.find_directoryOf hfiles
  obtain ⟨k, hlocation, hfree⟩ := item?_freeLocation files directory
  have herror := (h.pathError?_temporaryPath hfiles).mpr hroom
  exact ⟨directory ++ [temporaryName k], by simp, hfree, by
    simp [Files.createTemporary, herror, hfind, hlocation]⟩

/-- No temporary file is made where there is no room. -/
theorem Names.createTemporary_error (hfiles : files.WellFormed) {path : Text} {l : Location}
    (h : files.Names path l) (hroom : ¬files.HasRoom path) :
    ∃ e, files.createTemporary (directoryOf path) = .error e := by
  cases herror : pathError? (files.temporaryPath (directoryOf path)) with
  | none => exact absurd ((h.pathError?_temporaryPath hfiles).mp herror) hroom
  | some e => exact ⟨e, by rw [Files.createTemporary, herror]⟩

/-- The room for a temporary file depends on the working directory alone. -/
theorem Grows.hasRoom_iff (h : Grows before after) {path : Text} :
    after.HasRoom path ↔ before.HasRoom path := by
  rw [HasRoom, HasRoom, temporaryPath, temporaryPath, h.setting]

/-! ## Moving -/

/-- An item is moved onto the place that a path names, or refused there, also when files have come
since it was looked up. -/
theorem Names.rename (hfiles : before.WellFormed) {path : Text} {l source : Location}
    (h : before.Names path l) (hgrows : Grows before after) {item : Item}
    (hsource : after.item? source = some item) :
    after.rename source path =
      match after.refusal? source l with
      | some e => .error e
      | none => .ok ((after.erase source).insert l item) := by
  obtain ⟨directory, mode, front, name, rfl, hname, hnames, hslash, hroute⟩ :=
    h.exists_directory hfiles
  obtain ⟨herror, -⟩ := resolve_eq_ok_iff.mp h.resolve
  have hlast : (names path).getLast? = some name := by simp [hnames]
  have hdirectory : (names path).dropLast = front := by simp [hnames]
  have hfound := hroute.item?_present
  rw [← foundAt_of_some hfound] at hroute
  have hwalk := walk_eq_ok_iff.mpr (hroute.grows hgrows)
  rw [foundAt_of_some (hgrows.directory hfound), ← hgrows.startOf] at hwalk
  have hlength : ¬maxName < Text.utf8Length name := Nat.not_lt_of_le hname.length_le
  unfold Files.rename
  simp only [herror, hlast, hdirectory, hwalk, Success.bind_ok, hname.ne_dot, hname.ne_dots,
    or_self, if_false, hlength, hslash, Bool.false_eq_true, hsource]
  cases after.refusal? source (directory ++ [name]) with
  | none => rfl
  | some e => rfl

end HostKit.Files
