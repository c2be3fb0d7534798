import HostKit.Files.PathText
import HostKit.Proofs.Text.Pieces

/-!
# Names in the text of a path

The directory of a path is what stands before its last name, without the single dots and
doubled slashes that end it. Those dots are the only names that get lost, so a walk through the
directory and the last name is a walk through the path.
-/

namespace HostKit.PathText

open Text (splitOn join)

/-- A name of a path is not empty and has characters of the path other than slashes. -/
theorem of_mem_names {path name : Text} (h : name ∈ names path) :
    name ≠ [] ∧ '/' ∉ name ∧ ∀ c ∈ name, c ∈ path := by
  obtain ⟨hmem, hnil⟩ := List.mem_filter.mp h
  obtain ⟨hslash, hchars⟩ := Text.of_mem_splitOn hmem
  exact ⟨by simpa using hnil, hslash, hchars⟩

/-- The names of a joined path are its pieces that are not empty. -/
theorem names_join {pieces : List Text} (hnil : pieces ≠ []) (h : ∀ piece ∈ pieces, '/' ∉ piece) :
    names (join ['/'] pieces) = pieces.filter (· ≠ []) := by
  rw [names, Text.splitOn_join hnil h]

/-- A slash at the front adds no name. -/
theorem names_slash (path : Text) : names ('/' :: path) = names path := by
  simp [names, splitOn]

/-- A text without slashes is the only name of a path. -/
theorem names_of_not_mem {name : Text} (h : '/' ∉ name) (hnil : name ≠ []) :
    names name = [name] := by
  rw [names, Text.splitOn_of_not_mem h]
  simpa using hnil

/-- A text without slashes does not start at the root. -/
theorem isAbsolute_of_not_mem {name : Text} (h : '/' ∉ name) : isAbsolute name = false := by
  cases name with
  | nil => rfl
  | cons c name =>
    have hc : c ≠ '/' := by
      rintro rfl
      exact h List.mem_cons_self
    simp [isAbsolute, hc]

/-- A text without slashes does not end with one. -/
theorem endsWithSlash_of_not_mem {name : Text} (h : '/' ∉ name) : endsWithSlash name = false := by
  rw [endsWithSlash, decide_eq_false_iff_not]
  exact fun hlast => h (List.mem_of_getLast? hlast)

/-- A piece is nameless if a path goes on through it without a name or a move. -/
def Nameless (piece : Text) : Prop := piece = [] ∨ piece = ['.']

instance (piece : Text) : Decidable (Nameless piece) := inferInstanceAs (Decidable (_ ∨ _))

/-- What is dropped from the end of the pieces is nameless. -/
theorem exists_eq_dropNameless_append (pieces : List Text) :
    ∃ dropped, pieces = dropNameless pieces ++ dropped ∧ ∀ piece ∈ dropped, Nameless piece := by
  let p : Text → Bool := fun piece => decide (piece = [] ∨ piece = ['.'])
  refine ⟨(pieces.reverse.takeWhile p).reverse, ?_, fun piece hpiece => ?_⟩
  · rw [dropNameless, ← List.reverse_append, List.takeWhile_append_dropWhile,
      List.reverse_reverse]
  · have hall : (pieces.reverse.takeWhile p).all p = true := List.all_takeWhile
    simpa [p, Nameless] using List.all_eq_true.mp hall piece (List.mem_reverse.mp hpiece)

/-- Nothing is dropped after a name. -/
theorem dropNameless_append {name : Text} (h : ¬Nameless name) (pieces : List Text) :
    dropNameless (pieces ++ [name]) = pieces ++ [name] := by
  have hname : name ≠ [] ∧ name ≠ ['.'] := by simpa [Nameless] using h
  simp [dropNameless, hname]

/-- What is dropped from the end reaches the first item only if all others are dropped. -/
theorem reverse_dropWhile_reverse_cons {α : Type} (p : α → Bool) (a : α) (as : List α) :
    ((a :: as).reverse.dropWhile p).reverse =
      if (as.reverse.dropWhile p).reverse = [] ∧ p a = true then []
      else a :: (as.reverse.dropWhile p).reverse := by
  rw [List.reverse_cons, List.dropWhile_append]
  by_cases hnil : as.reverse.dropWhile p = []
  · by_cases ha : p a = true <;> simp [hnil, ha]
  · simp [hnil]

/-- A first piece is dropped only if it is nameless and no piece after it is kept. -/
theorem dropNameless_cons (piece : Text) (pieces : List Text) :
    dropNameless (piece :: pieces) =
      if dropNameless pieces = [] ∧ Nameless piece then [] else piece :: dropNameless pieces := by
  unfold dropNameless
  rw [reverse_dropWhile_reverse_cons]
  simp only [decide_eq_true_eq]
  congr 1

/-- Of nameless pieces only those with a dot are names. -/
theorem filter_nameless {pieces : List Text} (h : ∀ piece ∈ pieces, Nameless piece) :
    ∃ k, pieces.filter (· ≠ []) = List.replicate k ['.'] := by
  refine ⟨(pieces.filter (· ≠ [])).length, List.eq_replicate_iff.mpr ⟨rfl, fun piece hpiece => ?_⟩⟩
  obtain ⟨hmem, hne⟩ := List.mem_filter.mp hpiece
  exact (h piece hmem).resolve_left (by simpa using hne)

/-- A path that does not end with a slash ends with its last name. -/
theorem exists_join_eq {path name : Text} (hlast : (names path).getLast? = some name)
    (hslash : endsWithSlash path = false) :
    ∃ pieces, path = join ['/'] (pieces ++ [name]) ∧ (∀ piece ∈ pieces, '/' ∉ piece) ∧
      '/' ∉ name := by
  obtain ⟨pieces, last, hsplit⟩ : ∃ pieces last, splitOn '/' path = pieces ++ [last] := by
    rcases List.eq_nil_or_concat (splitOn '/' path) with h | ⟨pieces, last, h⟩
    · exact absurd h (Text.splitOn_ne_nil '/' path)
    · exact ⟨pieces, last, by simpa using h⟩
  have hpath : path = join ['/'] (pieces ++ [last]) := by
    rw [← hsplit, Text.join_splitOn]
  have hchars : ∀ piece ∈ pieces ++ [last], '/' ∉ piece :=
    fun piece hpiece => (Text.of_mem_splitOn (hsplit ▸ hpiece)).1
  have hnil : last ≠ [] := by
    rintro rfl
    by_cases hpieces : pieces = []
    · subst hpieces
      simp [names, hsplit] at hlast
    · rw [Text.join_append hpieces (by simp)] at hpath
      rw [hpath] at hslash
      simp [endsWithSlash, join] at hslash
  have hname : last = name := by
    simpa [names, hsplit, hnil] using hlast
  subst hname
  exact ⟨pieces, hpath, fun piece hpiece => hchars piece (by simp [hpiece]),
    hchars last (by simp)⟩

/-- Pieces without slashes come back from a path. -/
theorem splitOn_join_append {pieces : List Text} {name : Text}
    (h : ∀ piece ∈ pieces, '/' ∉ piece) (hslash : '/' ∉ name) :
    splitOn '/' (join ['/'] (pieces ++ [name])) = pieces ++ [name] := by
  apply Text.splitOn_join (by simp)
  intro piece hpiece
  rcases List.mem_append.mp hpiece with hmem | hmem
  · exact h piece hmem
  · rw [List.mem_singleton.mp hmem]
    exact hslash

/-! ## The last name and what stands before it -/

section Decomposed

variable {path start name : Text} {front : List Text}

/-- The directory of a path whose last name is known. -/
theorem parent?_of_decompose (h : decompose path = (start, front ++ [name])) :
    parent? path = some (start ++ join ['/'] (dropNameless front)) := by
  simp [parent?, h]

/-- The last name of a path. -/
theorem fileName?_of_decompose (h : decompose path = (start, front ++ [name]))
    (hname : name ≠ "..".toList) : fileName? path = some name := by
  rw [fileName?, h]
  simp only [List.getLast?_concat]
  exact if_neg hname

end Decomposed

/-- A path that starts with a slash, taken apart. -/
theorem decompose_slash {pieces : List Text} {name : Text} (hname : ¬Nameless name)
    (h : ∀ piece ∈ pieces, '/' ∉ piece) (hslash : '/' ∉ name) :
    decompose ('/' :: join ['/'] (pieces ++ [name])) = (['/'], pieces ++ [name]) := by
  simp [decompose, splitStart, splitOn_join_append h hslash, dropNameless_append hname]

/-- A path that starts with a single dot, taken apart. -/
theorem decompose_dot {pieces : List Text} {name : Text} (hname : ¬Nameless name)
    (h : ∀ piece ∈ pieces, '/' ∉ piece) (hslash : '/' ∉ name) :
    decompose ('.' :: '/' :: join ['/'] (pieces ++ [name])) =
      (['.'], ([] :: pieces) ++ [name]) := by
  have hsplit : splitOn '/' ('/' :: join ['/'] (pieces ++ [name])) = ([] :: pieces) ++ [name] := by
    simp [splitOn, splitOn_join_append h hslash]
  simp only [decompose, splitStart, hsplit, dropNameless_append hname]

/-- A path that starts with a name, taken apart. -/
theorem decompose_name {first : Text} {pieces : List Text} {name : Text}
    (hfirst : ¬Nameless first) (hname : ¬Nameless name) (hfirstSlash : '/' ∉ first)
    (h : ∀ piece ∈ pieces, '/' ∉ piece) (hslash : '/' ∉ name) :
    decompose (join ['/'] (first :: (pieces ++ [name]))) = ([], (first :: pieces) ++ [name]) := by
  have hsplit : splitOn '/' (join ['/'] (first :: (pieces ++ [name]))) =
      (first :: pieces) ++ [name] :=
    @splitOn_join_append (first :: pieces) name (by simpa [hfirstSlash] using h) hslash
  obtain ⟨c, chars, rfl⟩ : ∃ c chars, first = c :: chars := by
    cases first with
    | nil => exact absurd (.inl rfl) hfirst
    | cons c chars => exact ⟨c, chars, rfl⟩
  have hstart : splitStart (join ['/'] ((c :: chars) :: (pieces ++ [name]))) =
      ([], join ['/'] ((c :: chars) :: (pieces ++ [name]))) := by
    rw [Text.join_cons _ (by simp), List.cons_append]
    unfold splitStart
    split
    next heq => simp_all
    next heq =>
      obtain ⟨rfl, hrest⟩ := List.cons.inj heq
      simp at hrest
    next heq =>
      obtain ⟨rfl, hrest⟩ := List.cons.inj heq
      cases chars with
      | nil => exact absurd (.inr rfl) hfirst
      | cons d chars => simp_all
    next => rfl
  simp only [decompose, hstart, hsplit, dropNameless_append hname]

/-- A path that is just a name, taken apart. -/
theorem decompose_single {name : Text} (hname : ¬Nameless name) (hslash : '/' ∉ name) :
    decompose name = ([], [] ++ [name]) := by
  obtain ⟨c, chars, rfl⟩ : ∃ c chars, name = c :: chars := by
    cases name with
    | nil => exact absurd (.inl rfl) hname
    | cons c chars => exact ⟨c, chars, rfl⟩
  have hstart : splitStart (c :: chars) = ([], c :: chars) := by
    unfold splitStart
    split
    next heq => simp_all
    next heq => exact absurd (.inr heq) hname
    next heq => simp_all
    next => rfl
  have hkeep : dropNameless [c :: chars] = [] ++ [c :: chars] := dropNameless_append hname []
  simp only [decompose, hstart, Text.splitOn_of_not_mem hslash, hkeep]

/-- The kept pieces make a path that is not empty. -/
theorem directory_join_ne_nil (first : Text) (pieces : List Text) :
    (if first = [] then '/' :: join ['/'] (dropNameless pieces)
      else join ['/'] (first :: dropNameless pieces)) ≠ [] := by
  by_cases hnil : first = []
  · simp [hnil]
  rw [if_neg hnil]
  by_cases hdirectory : dropNameless pieces = []
  · simpa [hdirectory, join] using hnil
  · simp [Text.join_cons _ hdirectory]

section Joined

variable {first name : Text} {pieces : List Text} (hname : ¬Nameless name) (hslash : '/' ∉ name)
  (h : ∀ piece ∈ first :: pieces, '/' ∉ piece)
include hname hslash h

/-- A path of several pieces, taken apart: the last name, and a directory made of the pieces that
are kept. -/
theorem decompose_join :
    ∃ start front, decompose (join ['/'] (first :: (pieces ++ [name]))) = (start, front ++ [name]) ∧
      start ++ join ['/'] (dropNameless front) =
        if first = [] then '/' :: join ['/'] (dropNameless pieces)
        else join ['/'] (first :: dropNameless pieces) := by
  have hfirst : '/' ∉ first := h first List.mem_cons_self
  have hrest : ∀ piece ∈ pieces, '/' ∉ piece := fun piece hpiece => h piece (by simp [hpiece])
  by_cases hnil : first = []
  · subst hnil
    rw [if_pos rfl, Text.join_cons _ (by simp), List.nil_append,
      decompose_slash hname hrest hslash]
    exact ⟨_, _, rfl, rfl⟩
  rw [if_neg hnil]
  by_cases hdot : first = ['.']
  · subst hdot
    rw [Text.join_cons _ (by simp)]
    refine ⟨_, _, decompose_dot hname hrest hslash, ?_⟩
    rw [dropNameless_cons]
    by_cases hkept : dropNameless pieces = []
    · simp [hkept, join, Nameless]
    · simp [hkept, Text.join_cons _ hkept]
  · have hnameless : ¬Nameless first := by simp [Nameless, hnil, hdot]
    refine ⟨_, _, decompose_name hnameless hname hfirst hrest hslash, ?_⟩
    rw [dropNameless_cons, if_neg fun hdrop => hnameless hdrop.2, List.nil_append]

/-- The directory of a path of several pieces consists of those that are kept. -/
theorem parent?_join :
    parent? (join ['/'] (first :: (pieces ++ [name]))) =
      some (if first = [] then '/' :: join ['/'] (dropNameless pieces)
        else join ['/'] (first :: dropNameless pieces)) := by
  obtain ⟨start, front, hdecompose, hdirectory⟩ := decompose_join hname hslash h
  rw [parent?_of_decompose hdecompose, hdirectory]

/-- What stands before the last name is the directory of the path. -/
theorem directoryOf_join :
    directoryOf (join ['/'] (first :: (pieces ++ [name]))) =
      if first = [] then '/' :: join ['/'] (dropNameless pieces)
      else join ['/'] (first :: dropNameless pieces) := by
  rw [directoryOf, parent?_join hname hslash h]
  exact if_neg (directory_join_ne_nil first pieces)

/-- The names of the directory are the pieces that are kept. -/
theorem names_directoryOf_join :
    names (directoryOf (join ['/'] (first :: (pieces ++ [name])))) =
      (first :: dropNameless pieces).filter (· ≠ []) := by
  obtain ⟨dropped, hdrop, -⟩ := exists_eq_dropNameless_append pieces
  have hkept : ∀ piece ∈ first :: dropNameless pieces, '/' ∉ piece := by
    intro piece hpiece
    apply h piece
    rw [hdrop]
    rcases List.mem_cons.mp hpiece with rfl | hpiece
    · exact List.mem_cons_self
    · exact List.mem_cons_of_mem _ (List.mem_append_left _ hpiece)
  rw [directoryOf_join hname hslash h]
  by_cases hnil : first = []
  · subst hnil
    rw [if_pos rfl, names_slash]
    by_cases hdirectory : dropNameless pieces = []
    · simp [hdirectory, join, names, splitOn]
    · rw [names_join hdirectory fun piece hpiece => hkept piece (List.mem_cons_of_mem _ hpiece)]
      simp
  · rw [if_neg hnil, names_join (by simp) hkept]

/-- The directory stands at the front of the path. -/
theorem exists_eq_directoryOf_join_append :
    ∃ rest, join ['/'] (first :: (pieces ++ [name])) =
      directoryOf (join ['/'] (first :: (pieces ++ [name]))) ++ rest := by
  obtain ⟨dropped, hdrop, -⟩ := exists_eq_dropNameless_append pieces
  have hsplit (kept : List Text) (hkept : kept ≠ []) :
      join ['/'] (kept ++ (dropped ++ [name])) =
        join ['/'] kept ++ '/' :: join ['/'] (dropped ++ [name]) :=
    Text.join_append hkept (by simp)
  rw [directoryOf_join hname hslash h]
  by_cases hnil : first = []
  · subst hnil
    rw [if_pos rfl, Text.join_cons _ (by simp), List.nil_append]
    by_cases hdirectory : dropNameless pieces = []
    · exact ⟨join ['/'] (pieces ++ [name]), by rw [hdirectory]; rfl⟩
    · refine ⟨'/' :: join ['/'] (dropped ++ [name]), ?_⟩
      conv => lhs; rw [hdrop, List.append_assoc, hsplit _ hdirectory]
      rfl
  · refine ⟨'/' :: join ['/'] (dropped ++ [name]), ?_⟩
    rw [if_neg hnil]
    conv => lhs; rw [hdrop, List.append_assoc, ← List.cons_append, hsplit _ (by simp)]

/-- The directory is not the empty path. -/
theorem directoryOf_join_ne_nil : directoryOf (join ['/'] (first :: (pieces ++ [name]))) ≠ [] := by
  rw [directoryOf_join hname hslash h]
  exact directory_join_ne_nil first pieces

end Joined

/-- The last name of a path and the directory before it are found in its text. The directory and
the name lead the way of the path, but for single dots in between. -/
theorem directoryOf_cases {path name : Text} (hlast : (names path).getLast? = some name)
    (hslash : endsWithSlash path = false) (hdot : name ≠ ['.']) :
    (parent? path = some [] ∧ path = name ∧ '/' ∉ name) ∨
      parent? path = some (directoryOf path) ∧
        (∃ k, names path = names (directoryOf path) ++ List.replicate k ['.'] ++ [name]) ∧
        (∃ rest, path = directoryOf path ++ rest) ∧ directoryOf path ≠ [] := by
  obtain ⟨pieces, hpath, hpieces, hname⟩ := exists_join_eq hlast hslash
  have hnil : name ≠ [] := (of_mem_names (List.mem_of_getLast? hlast)).1
  have hnameless : ¬Nameless name := by simp [Nameless, hnil, hdot]
  cases pieces with
  | nil =>
    have hsingle : path = name := by simpa [join] using hpath
    exact .inl ⟨hsingle ▸ parent?_of_decompose (decompose_single hnameless hname), hsingle, hname⟩
  | cons first pieces =>
    rw [List.cons_append] at hpath
    subst hpath
    refine .inr ⟨?_, ?_, exists_eq_directoryOf_join_append hnameless hname hpieces,
      directoryOf_join_ne_nil hnameless hname hpieces⟩
    · rw [parent?_join hnameless hname hpieces, directoryOf_join hnameless hname hpieces]
    obtain ⟨dropped, hdrop, hdropped⟩ := exists_eq_dropNameless_append pieces
    obtain ⟨k, hk⟩ := filter_nameless hdropped
    refine ⟨k, ?_⟩
    have hall : ∀ piece ∈ first :: (pieces ++ [name]), '/' ∉ piece := by
      intro piece hpiece
      rw [← List.cons_append] at hpiece
      rcases List.mem_append.mp hpiece with hmem | hmem
      · exact hpieces piece hmem
      · rwa [List.mem_singleton.mp hmem]
    have hkeep : [name].filter (· ≠ []) = [name] := by simp [hnil]
    rw [names_directoryOf_join hnameless hname hpieces, names_join (by simp) hall]
    conv => lhs; rw [hdrop]
    rw [← hk, ← List.cons_append, ← List.cons_append, List.filter_append, List.filter_append,
      hkeep]

/-- The last name of a path is found in its text. -/
theorem fileName?_eq {path name : Text} (hlast : (names path).getLast? = some name)
    (hslash : endsWithSlash path = false) (hdot : name ≠ ['.']) (hdots : name ≠ "..".toList) :
    fileName? path = some name := by
  obtain ⟨pieces, hpath, hpieces, hname⟩ := exists_join_eq hlast hslash
  have hnil : name ≠ [] := (of_mem_names (List.mem_of_getLast? hlast)).1
  have hnameless : ¬Nameless name := by simp [Nameless, hnil, hdot]
  subst hpath
  cases pieces with
  | nil => exact fileName?_of_decompose (decompose_single hnameless hname) hdots
  | cons first pieces =>
    obtain ⟨start, front, hdecompose, -⟩ := decompose_join hnameless hname hpieces
    exact fileName?_of_decompose hdecompose hdots

/-- A path and what stands at its front start from the same place. -/
theorem isAbsolute_append {path : Text} (h : path ≠ []) (rest : Text) :
    isAbsolute (path ++ rest) = isAbsolute path := by
  cases path with
  | nil => exact absurd rfl h
  | cons c path => rfl

end HostKit.PathText
