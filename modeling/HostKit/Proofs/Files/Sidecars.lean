import HostKit.Proofs.Files.Paths

/-!
# Lock files next to files

The path of a lock file is made from the text of a path alone. It leads to the place next to the
one that the path names, in the same directory: two paths that name one place have one lock file,
and two paths that name different places have different ones, unless a link stands where a lock
file is looked for.
-/

namespace HostKit.PathText

open Text (splitOn)

/-- The names of two paths with a slash between them are those of each. -/
theorem names_append_slash (path rest : Text) :
    names (path ++ '/' :: rest) = names path ++ names rest := by
  rw [names, Text.splitOn_append_cons, List.filter_append]
  rfl

section Push

variable {path name : Text}

/-- A name that is pushed comes last. -/
theorem names_push (hpath : path ≠ []) (hslash : '/' ∉ name) (hnil : name ≠ []) :
    names (push path name) = names path ++ [name] := by
  unfold push
  by_cases hend : endsWithSlash path = true
  · obtain ⟨front, rfl⟩ : ∃ front, path = front ++ ['/'] :=
      List.getLast?_eq_some_iff.mp (by simpa [endsWithSlash] using hend)
    have hfront : names (front ++ ['/']) = names front := by
      rw [names_append_slash]
      simp [names, splitOn]
    rw [if_pos (.inr hend), hfront, List.append_assoc, List.singleton_append, names_append_slash,
      names_of_not_mem hslash hnil]
  · rw [if_neg fun h => h.elim hpath hend, names_append_slash, names_of_not_mem hslash hnil]

/-- A path starts from the same place with one more name. -/
theorem isAbsolute_push (hpath : path ≠ []) (name : Text) :
    isAbsolute (push path name) = isAbsolute path := by
  unfold push
  split <;> exact isAbsolute_append hpath _

/-- A path does not end with a slash after one more name. -/
theorem endsWithSlash_push (path : Text) (hslash : '/' ∉ name) (hnil : name ≠ []) :
    endsWithSlash (push path name) = false := by
  have hlast : (push path name).getLast? = name.getLast? := by
    obtain ⟨c, hc⟩ : ∃ c, name.getLast? = some c :=
      Option.ne_none_iff_exists'.mp (by simpa [List.getLast?_eq_none_iff] using hnil)
    unfold push
    split <;> simp [List.getLast?_append, List.getLast?_cons, hc]
  rw [endsWithSlash, hlast, decide_eq_false_iff_not]
  exact fun h => hslash (List.mem_of_getLast? h)

end Push

/-- The path of a lock file leads the way of the path, but for single dots, up to the last name,
which has the ending of lock files. -/
theorem names_lockPath {path name : Text} {front : List Text}
    (hnames : names path = front ++ [name]) (hslash : endsWithSlash path = false)
    (hdot : name ≠ ['.']) (hdots : name ≠ "..".toList) :
    isAbsolute (lockPath path) = isAbsolute path ∧ endsWithSlash (lockPath path) = false ∧
      ∃ kept k, front = kept ++ List.replicate k ['.'] ∧
        names (lockPath path) = kept ++ [name ++ ".lock".toList] := by
  have hlast : (names path).getLast? = some name := by simp [hnames]
  have hplain : '/' ∉ name := (of_mem_names (List.mem_of_getLast? hlast)).2.1
  have hplain' : '/' ∉ name ++ ".lock".toList := by
    simpa using hplain
  have hnil : name ++ ".lock".toList ≠ [] := by simp
  have hname := fileName?_eq hlast hslash hdot hdots
  rcases directoryOf_cases hlast hslash hdot with
    ⟨hparent, rfl, -⟩ | ⟨hparent, ⟨k, hk⟩, ⟨rest, hrest⟩, hdirectory⟩
  · have hlock : lockPath path = path ++ ".lock".toList := by
      simp [lockPath, withFileName, hname, hparent, push]
    have hfront : front = [] := by
      rw [names_of_not_mem hplain (of_mem_names (List.mem_of_getLast? hlast)).1] at hnames
      simpa using hnames
    rw [hlock, isAbsolute_of_not_mem hplain, isAbsolute_of_not_mem hplain',
      endsWithSlash_of_not_mem hplain', names_of_not_mem hplain' hnil, hfront]
    exact ⟨rfl, rfl, [], 0, rfl, rfl⟩
  · have hlock : lockPath path = push (directoryOf path) (name ++ ".lock".toList) := by
      simp [lockPath, withFileName, hname, hparent]
    rw [hlock, isAbsolute_push hdirectory, endsWithSlash_push _ hplain' hnil,
      names_push hdirectory hplain' hnil]
    refine ⟨?_, rfl, names (directoryOf path), k, ?_, rfl⟩
    · conv => rhs; rw [hrest]
      exact (isAbsolute_append hdirectory rest).symm
    · rw [hk] at hnames
      exact (List.append_inj_left' hnames rfl).symm

end HostKit.PathText

namespace HostKit.Files

open PathText (names lockPath endsWithSlash isAbsolute)

variable {files : Files} {path p q : Text} {l k k' place directory : Location} {name : Text}

/-- The place next to another one, under the name with the ending of lock files. -/
def sidecarOf (place : Location) : Location :=
  place.dropLast ++ [place.getLastD [] ++ ".lock".toList]

@[simp] theorem sidecarOf_append (directory : Location) (name : Text) :
    sidecarOf (directory ++ [name]) = directory ++ [name ++ ".lock".toList] := by
  simp [sidecarOf]

/-- Different names have different lock files. -/
theorem sidecarOf_injective {a b : Location} (ha : a ≠ []) (hb : b ≠ [])
    (h : sidecarOf a = sidecarOf b) : a = b := by
  obtain ⟨directory, name, rfl⟩ : ∃ directory name, a = directory ++ [name] :=
    ⟨_, _, (List.dropLast_concat_getLast ha).symm⟩
  obtain ⟨directory', name', rfl⟩ : ∃ directory name, b = directory ++ [name] :=
    ⟨_, _, (List.dropLast_concat_getLast hb).symm⟩
  simpa using h

/-- From the directory of the place that a path names, the name of the lock file leads to where
the lock file is. -/
theorem Names.route_lockPath (hfiles : files.WellFormed)
    (h : files.Names path (directory ++ [name])) (hk : files.Opens (lockPath path) k) :
    LookedUp (name ++ ".lock".toList) ∧
      ∃ links, Route files true links directory [name ++ ".lock".toList] false
        (files.foundAt k) := by
  obtain ⟨directory', mode, front, name', hl, hname, hnames, hslash, hroute⟩ :=
    h.exists_directory hfiles
  obtain ⟨rfl, rfl⟩ : directory = directory' ∧ name = name' := by
    simpa using List.append_inj' hl rfl
  obtain ⟨habsolute, -, kept, n, rfl, hlock⟩ :=
    PathText.names_lockPath hnames hslash hname.ne_dot hname.ne_dots
  obtain ⟨directory', mode', front', name', links, hname', hnames', -, hroute', hlast⟩ :=
    exists_directory_of_resolve hfiles hk.resolve hk.isEnd.ne_directory
  obtain ⟨rfl, rfl⟩ : kept = front' ∧ name ++ ".lock".toList = name' := by
    simpa using List.append_inj' (hlock.symm.trans hnames') rfl
  have hstart : files.startOf (lockPath path) = files.startOf path := by
    rw [Files.startOf, Files.startOf, habsolute]
  rw [hstart] at hroute'
  -- Both paths lead to the directory, one of them with some lone dots at the end.
  have hsame := (hroute.drop_dots n).unique hroute'
  obtain ⟨rfl, -⟩ := Found.present.inj hsame
  exact ⟨hname'.lookedUp, links, hlast⟩

/-- The lock file of a path stands next to the place that the path names, unless a link is
there. -/
theorem Names.eq_sidecarOf (hfiles : files.WellFormed) (h : files.Names path place)
    (hk : files.Opens (lockPath path) k) :
    k = sidecarOf place ∨ ∃ target, files.item? (sidecarOf place) = some (.link target) := by
  obtain ⟨directory, mode, front, name, rfl, -⟩ := h.exists_directory hfiles
  obtain ⟨hname, links, hroute⟩ := h.route_lockPath hfiles hk
  rw [sidecarOf_append]
  exact (hroute.eq_or_link hname).imp_right And.right

/-- Two paths that name one place have one lock file. -/
theorem Names.lock_unique (hfiles : files.WellFormed) (hp : files.Names p place)
    (hq : files.Names q place) (hk : files.Opens (lockPath p) k)
    (hk' : files.Opens (lockPath q) k') : k = k' := by
  obtain ⟨directory, mode, front, name, rfl, -⟩ := hp.exists_directory hfiles
  obtain ⟨-, links, hroute⟩ := hp.route_lockPath hfiles hk
  obtain ⟨-, links', hroute'⟩ := hq.route_lockPath hfiles hk'
  have hsame := (hroute.mono_links (Nat.le_max_left links links')).unique
    (hroute'.mono_links (Nat.le_max_right links links'))
  simpa using congrArg Found.location hsame

end HostKit.Files
