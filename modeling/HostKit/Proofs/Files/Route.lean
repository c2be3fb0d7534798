import HostKit.Proofs.Files.Items
import HostKit.Proofs.Files.PathNames

/-!
# Routes of walks

A walk that gets somewhere is a row of moves, one for each name, with those of a link's target
put in its place. What holds of walks is proved by induction on these moves, without the ways in
which a walk may fail. Routes depend on directories and links only, up to the item at their
end.
-/

namespace HostKit.Files

variable {files before after : Files} {follow : Bool}

/-- A name that is looked up: not too long, and no dots. -/
structure LookedUp (name : Text) : Prop where
  length_le : ¬maxName < Text.utf8Length name
  ne_dot : name ≠ ".".toList
  ne_dots : name ≠ "..".toList

/-- The moves of a walk that gets somewhere. -/
inductive Route (files : Files) (follow : Bool) :
    Nat → Location → List Text → Bool → Found → Prop where
  | arrived {links here slash item} (hitem : files.item? here = some item) :
    Route files follow links here [] slash (.present here item)
  | dot {links here rest slash found} (route : Route files follow links here rest slash found) :
    Route files follow links here (".".toList :: rest) slash found
  | up {links here rest slash found}
    (route : Route files follow links here.dropLast rest slash found) :
    Route files follow links here ("..".toList :: rest) slash found
  | absent {links here name slash} (hname : LookedUp name)
    (hitem : files.item? (here ++ [name]) = none) :
    Route files follow links here [name] slash (.missing (here ++ [name]) slash)
  | enter {links here name rest slash mode found} (hname : LookedUp name)
    (hitem : files.item? (here ++ [name]) = some (.directory mode))
    (route : Route files follow links (here ++ [name]) rest slash found) :
    Route files follow links here (name :: rest) slash found
  | file {links here name mode content} (hname : LookedUp name)
    (hitem : files.item? (here ++ [name]) = some (.file mode content)) :
    Route files follow links here [name] false (.present (here ++ [name]) (.file mode content))
  | stay {links here name target} (hname : LookedUp name)
    (hitem : files.item? (here ++ [name]) = some (.link target)) (hfollow : follow = false) :
    Route files follow links here [name] false (.present (here ++ [name]) (.link target))
  | jump {links here name rest slash target found} (hname : LookedUp name)
    (hitem : files.item? (here ++ [name]) = some (.link target)) (htarget : target ≠ [])
    (hmove : rest = [] → follow = false → slash = true)
    (route : Route files follow links (if PathText.isAbsolute target then [] else here)
      (PathText.names target ++ rest) (slash || decide (rest = []) && PathText.endsWithSlash target)
      found) :
    Route files follow (links + 1) here (name :: rest) slash found

/-- A walk that gets somewhere takes a route. -/
theorem Route.of_walk {links : Nat} {here : Location} {names : List Text} {slash : Bool}
    {found : Found} (h : files.walk follow links here names slash = .ok found) :
    Route files follow links here names slash found := by
  fun_induction walk files follow links here names slash with
  | case1 links here slash item hitem =>
    obtain rfl := Except.ok.inj h
    exact .arrived hitem
  | case2 | case3 | case7 | case9 | case12 | case13 => cases h
  | case4 links here slash rest _ ih => exact .dot (ih h)
  | case5 links here slash rest _ _ ih => exact .up (ih h)
  | case6 links here slash name hlength hdot hdots there hitem =>
    obtain rfl := Except.ok.inj h
    exact .absent ⟨hlength, hdot, hdots⟩ hitem
  | case8 links here slash name rest hlength hdot hdots there mode hitem ih =>
    exact .enter ⟨hlength, hdot, hdots⟩ hitem (ih h)
  | case10 links here slash name rest hlength hdot hdots there mode content hitem hend =>
    obtain rfl := Except.ok.inj h
    obtain ⟨rfl, rfl⟩ : rest = [] ∧ slash = false := by simpa using hend
    exact .file ⟨hlength, hdot, hdots⟩ hitem
  | case11 links here slash name rest hlength hdot hdots there target hitem hend =>
    obtain rfl := Except.ok.inj h
    obtain ⟨rfl, hfollow, hslash⟩ := hend
    obtain rfl : slash = false := by simpa using hslash
    exact .stay ⟨hlength, hdot, hdots⟩ hitem (by simpa using hfollow)
  | case14 here slash name rest hlength hdot hdots there target hitem hend links htarget
      start slash' ih =>
    refine .jump ⟨hlength, hdot, hdots⟩ hitem htarget (fun hrest hfollow => ?_) (ih h)
    simpa [hrest, hfollow] using hend

/-- A walk gets to where a route leads. -/
theorem Route.walk_eq {links : Nat} {here : Location} {names : List Text} {slash : Bool}
    {found : Found} (h : Route files follow links here names slash found) :
    files.walk follow links here names slash = .ok found := by
  induction h with
  | arrived hitem => rw [walk]; simp [hitem]
  | dot _ ih => rw [walk, if_neg (by decide), if_pos rfl]; exact ih
  | up _ ih => rw [walk, if_neg (by decide), if_neg (by decide), if_pos rfl]; exact ih
  | absent hname hitem =>
    rw [walk, if_neg hname.length_le, if_neg hname.ne_dot, if_neg hname.ne_dots]
    simp [hitem]
  | enter hname hitem _ ih =>
    rw [walk, if_neg hname.length_le, if_neg hname.ne_dot, if_neg hname.ne_dots]
    simpa [hitem] using ih
  | file hname hitem =>
    rw [walk, if_neg hname.length_le, if_neg hname.ne_dot, if_neg hname.ne_dots]
    simp [hitem]
  | stay hname hitem hfollow =>
    rw [walk, if_neg hname.length_le, if_neg hname.ne_dot, if_neg hname.ne_dots]
    simp [hitem, hfollow]
  | @jump links here name rest slash target found hname hitem htarget hmove _ ih =>
    have hend : ¬(rest = [] ∧ ¬follow = true ∧ ¬slash = true) := by
      rintro ⟨hrest, hfollow, hslash⟩
      exact hslash (hmove hrest (by simpa using hfollow))
    rw [walk, if_neg hname.length_le, if_neg hname.ne_dot, if_neg hname.ne_dots]
    simp only [hitem, if_neg hend, if_neg htarget]
    exact ih

/-- A walk gets somewhere exactly if there is a route. -/
theorem walk_eq_ok_iff {links : Nat} {here : Location} {names : List Text} {slash : Bool}
    {found : Found} :
    files.walk follow links here names slash = .ok found ↔
      Route files follow links here names slash found :=
  ⟨Route.of_walk, Route.walk_eq⟩

/-! ## The end of a route -/

/-- What leads to a place finds the item there, or the place itself. -/
def foundAt (files : Files) (l : Location) : Found :=
  match files.item? l with
  | some item => .present l item
  | none => .missing l false

theorem foundAt_of_some {l : Location} {item : Item} (h : files.item? l = some item) :
    files.foundAt l = .present l item := by
  simp [foundAt, h]

theorem foundAt_of_none {l : Location} (h : files.item? l = none) :
    files.foundAt l = .missing l false := by
  simp [foundAt, h]

theorem foundAt_eq_present {l l' : Location} {item : Item}
    (h : files.foundAt l = .present l' item) : l = l' ∧ files.item? l = some item := by
  unfold foundAt at h
  split at h <;> simp_all

theorem foundAt_eq_missing {l l' : Location} {slash : Bool}
    (h : files.foundAt l = .missing l' slash) :
    l = l' ∧ slash = false ∧ files.item? l = none := by
  unfold foundAt at h
  split at h <;> simp_all

@[simp] theorem location_foundAt (l : Location) : (files.foundAt l).location = l := by
  unfold foundAt
  split <;> rfl

/-- A route leads to one end only. -/
theorem Route.unique {links : Nat} {here : Location} {names : List Text} {slash : Bool}
    {found found' : Found} (h : Route files follow links here names slash found)
    (h' : Route files follow links here names slash found') : found = found' :=
  Except.ok.inj (h.walk_eq.symm.trans h'.walk_eq)

/-- A route leads to the same end where more links may be followed. -/
theorem Route.mono_links {links links' : Nat} {here : Location} {names : List Text} {slash : Bool}
    {found : Found} (h : Route files follow links here names slash found) (hle : links ≤ links') :
    Route files follow links' here names slash found := by
  induction h generalizing links' with
  | arrived hitem => exact .arrived hitem
  | dot _ ih => exact .dot (ih hle)
  | up _ ih => exact .up (ih hle)
  | absent hname hitem => exact .absent hname hitem
  | enter hname hitem _ ih => exact .enter hname hitem (ih hle)
  | file hname hitem => exact .file hname hitem
  | stay hname hitem hfollow => exact .stay hname hitem hfollow
  | jump hname hitem htarget hmove _ ih =>
    obtain ⟨more, rfl⟩ := Nat.exists_eq_add_of_le' hle
    exact .jump hname hitem htarget hmove (ih (Nat.le_add_left _ more))

/-- What is found at the end of a route is what the files have there. -/
theorem Route.item?_location {links : Nat} {here : Location} {names : List Text} {slash : Bool}
    {found : Found} (h : Route files follow links here names slash found) :
    (∃ l item, found = .present l item ∧ files.item? l = some item) ∨
      ∃ l slash', found = .missing l slash' ∧ files.item? l = none := by
  induction h with
  | arrived hitem => exact .inl ⟨_, _, rfl, hitem⟩
  | absent _ hitem => exact .inr ⟨_, _, rfl, hitem⟩
  | file _ hitem | stay _ hitem => exact .inl ⟨_, _, rfl, hitem⟩
  | dot _ ih | up _ ih | enter _ _ _ ih | jump _ _ _ _ _ ih => exact ih

/-- What a route arrives at is there. -/
theorem Route.item?_present {links : Nat} {here l : Location} {names : List Text} {slash : Bool}
    {item : Item} (h : Route files follow links here names slash (.present l item)) :
    files.item? l = some item := by
  rcases h.item?_location with ⟨l', item', hfound, hitem⟩ | ⟨l', slash', hfound, -⟩
  · obtain ⟨rfl, rfl⟩ := Found.present.inj hfound
    exact hitem
  · cases hfound

/-! ## Routes while files come and change -/

/-- An item stays an item. -/
theorem Grows.exists_some (h : Grows before after) {l : Location} {item : Item}
    (hl : before.item? l = some item) : ∃ item, after.item? l = some item := by
  cases item with
  | file mode content =>
    obtain ⟨_, _, hafter⟩ := h.file hl
    exact ⟨_, hafter⟩
  | directory mode => exact ⟨_, h.directory hl⟩
  | link target => exact ⟨_, h.link hl⟩

/-- What is there stays there. -/
theorem Grows.ne_none (h : Grows before after) {l : Location} (hl : before.item? l ≠ none) :
    after.item? l ≠ none := by
  obtain ⟨item, hitem⟩ := Option.ne_none_iff_exists'.mp hl
  obtain ⟨item', hafter⟩ := h.exists_some hitem
  simp [hafter]

/-- A route goes on leading to its place. -/
theorem Route.grows (hgrows : Grows before after) {links : Nat} {here : Location}
    {names : List Text} {slash : Bool} {l : Location}
    (h : Route before follow links here names slash (before.foundAt l)) :
    Route after follow links here names slash (after.foundAt l) := by
  generalize hfound : before.foundAt l = found at h
  induction h with
  | arrived hitem =>
    obtain ⟨rfl, -⟩ := foundAt_eq_present hfound
    obtain ⟨item, hafter⟩ := hgrows.exists_some hitem
    rw [foundAt_of_some hafter]
    exact .arrived hafter
  | dot _ ih => exact .dot (ih hfound)
  | up _ ih => exact .up (ih hfound)
  | absent hname hitem =>
    obtain ⟨rfl, rfl, -⟩ := foundAt_eq_missing hfound
    rcases isEnd_iff.mp (hgrows.isEnd hitem) with hafter | ⟨mode, content, hafter⟩
    · rw [foundAt_of_none hafter]
      exact .absent hname hafter
    · rw [foundAt_of_some hafter]
      exact .file hname hafter
  | enter hname hitem _ ih => exact .enter hname (hgrows.directory hitem) (ih hfound)
  | file hname hitem =>
    obtain ⟨rfl, -⟩ := foundAt_eq_present hfound
    obtain ⟨mode, content, hafter⟩ := hgrows.file hitem
    rw [foundAt_of_some hafter]
    exact .file hname hafter
  | stay hname hitem hfollow =>
    obtain ⟨rfl, -⟩ := foundAt_eq_present hfound
    rw [foundAt_of_some (hgrows.link hitem)]
    exact .stay hname (hgrows.link hitem) hfollow
  | jump hname hitem htarget hmove _ ih =>
    exact .jump hname (hgrows.link hitem) htarget hmove (ih hfound)

/-- The start of a jump is a directory. -/
theorem exists_jump_start {here : Location}
    (hhere : ∃ mode, files.item? here = some (.directory mode)) (target : Text) :
    ∃ mode, files.item? (if PathText.isAbsolute target then [] else here) =
      some (.directory mode) := by
  split
  · exact ⟨rootMode, item?_root files⟩
  · exact hhere

/-- A route that leads to a place led there before. -/
theorem Route.of_grows (hfiles : before.WellFormed) (hgrows : Grows before after) {links : Nat}
    {here : Location} {names : List Text} {slash : Bool} {l : Location}
    (h : Route after follow links here names slash (after.foundAt l))
    (hhere : ∃ mode, before.item? here = some (.directory mode)) :
    Route before follow links here names slash (before.foundAt l) := by
  generalize hfound : after.foundAt l = found at h
  induction h with
  | arrived =>
    obtain ⟨rfl, -⟩ := foundAt_eq_present hfound
    obtain ⟨mode, hmode⟩ := hhere
    rw [foundAt_of_some hmode]
    exact .arrived hmode
  | dot _ ih => exact .dot (ih hhere hfound)
  | up _ ih =>
    obtain ⟨mode, hmode⟩ := hhere
    exact .up (ih (hfiles.directory_dropLast hmode) hfound)
  | @absent links here name slash hname hitem =>
    obtain ⟨rfl, rfl, -⟩ := foundAt_eq_missing hfound
    have hnone : before.item? (here ++ [name]) = none := by
      cases hbefore : before.item? (here ++ [name]) with
      | none => rfl
      | some item =>
        obtain ⟨item', hafter⟩ := hgrows.exists_some hbefore
        simp [hitem] at hafter
    rw [foundAt_of_none hnone]
    exact .absent hname hnone
  | enter hname hitem _ ih =>
    have hdirectory := hgrows.of_directory hitem
    exact .enter hname hdirectory (ih ⟨_, hdirectory⟩ hfound)
  | @file links here name mode content hname hitem =>
    obtain ⟨rfl, -⟩ := foundAt_eq_present hfound
    have hend : IsEnd (before.item? (here ++ [name])) :=
      hgrows.of_isEnd (by simp [hitem, IsEnd])
    rcases isEnd_iff.mp hend with hnone | ⟨mode', content', hfile⟩
    · rw [foundAt_of_none hnone]
      exact .absent hname hnone
    · rw [foundAt_of_some hfile]
      exact .file hname hfile
  | stay hname hitem hfollow =>
    obtain ⟨rfl, -⟩ := foundAt_eq_present hfound
    rw [foundAt_of_some (hgrows.of_link hitem)]
    exact .stay hname (hgrows.of_link hitem) hfollow
  | @jump links here name rest slash target found hname hitem htarget hmove _ ih =>
    exact .jump hname (hgrows.of_link hitem) htarget hmove
      (ih (exists_jump_start hhere target) hfound)

/-- A route to a place where a path can end leads there whether links at the end are followed or
not. -/
theorem Route.follow_end {links : Nat} {here : Location} {names : List Text} {slash : Bool}
    {l : Location} (h : Route files false links here names slash (files.foundAt l))
    (hl : IsEnd (files.item? l)) : Route files follow links here names slash (files.foundAt l) := by
  generalize hfound : files.foundAt l = found at h
  induction h with
  | arrived hitem => exact .arrived hitem
  | dot _ ih => exact .dot (ih hfound)
  | up _ ih => exact .up (ih hfound)
  | absent hname hitem => exact .absent hname hitem
  | enter hname hitem _ ih => exact .enter hname hitem (ih hfound)
  | file hname hitem => exact .file hname hitem
  | stay =>
    obtain ⟨rfl, hitem⟩ := foundAt_eq_present hfound
    simp [hitem, IsEnd] at hl
  | jump hname hitem htarget hmove _ ih =>
    exact .jump hname hitem htarget (fun hrest _ => hmove hrest rfl) (ih hfound)

/-- Where a route finds nothing is a place in the tree. -/
theorem Route.isPlace (hfiles : files.WellFormed) {links : Nat} {here : Location}
    {names : List Text} {slash slash' : Bool} {l : Location}
    (h : Route files follow links here names slash (.missing l slash'))
    (hhere : ∃ mode, files.item? here = some (.directory mode))
    (hnames : ∀ name ∈ names, name ≠ [] ∧ '/' ∉ name ∧ '\x00' ∉ name) : files.IsPlace l := by
  generalize hfound : Found.missing l slash' = found at h
  induction h with
  | arrived => cases hfound
  | dot _ ih => exact ih hhere (fun name h => hnames name (List.mem_cons_of_mem _ h)) hfound
  | up _ ih =>
    obtain ⟨mode, hmode⟩ := hhere
    exact ih (hfiles.directory_dropLast hmode)
      (fun name h => hnames name (List.mem_cons_of_mem _ h)) hfound
  | absent hname =>
    cases hfound
    obtain ⟨hnil, hslash, hnul⟩ := hnames _ List.mem_cons_self
    obtain ⟨mode, hmode⟩ := hhere
    exact ⟨_, _, mode, rfl, ⟨hnil, hslash, hnul, hname.ne_dot, hname.ne_dots,
      Nat.le_of_not_lt hname.length_le⟩, hmode⟩
  | enter _ hitem _ ih =>
    exact ih ⟨_, hitem⟩ (fun name h => hnames name (List.mem_cons_of_mem _ h)) hfound
  | file => cases hfound
  | stay => cases hfound
  | jump _ hitem _ _ _ ih =>
    refine ih (exists_jump_start hhere _) (fun name h => ?_) hfound
    rcases List.mem_append.mp h with h | h
    · obtain ⟨hnil, hslash, hchars⟩ := PathText.of_mem_names h
      exact ⟨hnil, hslash, fun hnul => hfiles.nul_not_mem hitem (hchars _ hnul)⟩
    · exact hnames name (List.mem_cons_of_mem _ h)

/-! ## Routes to a directory -/

/-- A route to a directory leads there whether or not a slash asks for one. -/
theorem Route.change_slash {links : Nat} {here : Location} {names : List Text} {slash : Bool}
    {l : Location} {mode : Nat}
    (h : Route files true links here names slash (.present l (.directory mode))) (slash' : Bool) :
    Route files true links here names slash' (.present l (.directory mode)) := by
  generalize hfound : Found.present l (.directory mode) = found at h
  induction h generalizing slash' with
  | arrived hitem => exact .arrived hitem
  | dot _ ih => exact .dot (ih _ hfound)
  | up _ ih => exact .up (ih _ hfound)
  | absent => cases hfound
  | enter hname hitem _ ih => exact .enter hname hitem (ih _ hfound)
  | file => cases hfound
  | stay => cases hfound
  | jump hname hitem htarget _ _ ih =>
    exact .jump hname hitem htarget (fun _ hfollow => by simp at hfollow) (ih _ hfound)

/-- A route to a directory does not need a single dot at its end. -/
theorem Route.drop_dot {links : Nat} {here : Location} {names : List Text} {slash : Bool}
    {l : Location} {mode : Nat}
    (h : Route files true links here (names ++ [".".toList]) slash
      (.present l (.directory mode))) :
    Route files true links here names slash (.present l (.directory mode)) := by
  generalize hfound : Found.present l (.directory mode) = found at h
  generalize hall : names ++ [".".toList] = all at h
  induction h generalizing names with
  | arrived => simp at hall
  | @dot links here rest slash found route ih =>
    cases names with
    | nil =>
      obtain rfl : [] = rest := by simpa using hall
      exact route
    | cons name names =>
      obtain ⟨rfl, rfl⟩ := List.cons.inj hall
      exact .dot (ih hfound rfl)
  | up _ ih =>
    cases names with
    | nil => simp at hall
    | cons name names =>
      obtain ⟨rfl, rfl⟩ := List.cons.inj hall
      exact .up (ih hfound rfl)
  | absent => cases hfound
  | enter hname hitem _ ih =>
    cases names with
    | nil => exact absurd (List.cons.inj hall).1.symm hname.ne_dot
    | cons name names =>
      obtain ⟨rfl, rfl⟩ := List.cons.inj hall
      exact .enter hname hitem (ih hfound rfl)
  | file => cases hfound
  | stay => cases hfound
  | jump hname hitem htarget _ _ ih =>
    cases names with
    | nil => exact absurd (List.cons.inj hall).1.symm hname.ne_dot
    | cons name names =>
      obtain ⟨rfl, rfl⟩ := List.cons.inj hall
      refine .jump hname hitem htarget (fun _ hfollow => by simp at hfollow) ?_
      have hroute := ih hfound (List.append_assoc _ _ _)
      rw [← hfound] at hroute ⊢
      exact hroute.change_slash _

/-- A route to a directory does not need single dots at its end. -/
theorem Route.drop_dots {links : Nat} {here : Location} {names : List Text} {slash : Bool}
    {l : Location} {mode : Nat} (k : Nat)
    (h : Route files true links here (names ++ List.replicate k ".".toList) slash
      (.present l (.directory mode))) :
    Route files true links here names slash (.present l (.directory mode)) := by
  induction k with
  | zero => simpa using h
  | succ k ih =>
    rw [List.replicate_succ', ← List.append_assoc] at h
    exact ih h.drop_dot

/-! ## The last name of a route -/

/-- A route to a directory and a step from there make a route. -/
theorem Route.append {links : Nat} {here directory : Location} {names : List Text} {mode : Nat}
    {name : Text} {slash slash' : Bool} {found : Found}
    (h : Route files true links here names slash' (.present directory (.directory mode)))
    (hlast : ∀ links, Route files follow links directory [name] slash found) :
    Route files follow links here (names ++ [name]) slash found := by
  generalize hend : Found.present directory (.directory mode) = last at h
  induction h with
  | arrived => cases hend; exact hlast _
  | dot _ ih => exact .dot (ih hend)
  | up _ ih => exact .up (ih hend)
  | absent => cases hend
  | enter hname hitem _ ih => exact .enter hname hitem (ih hend)
  | file => cases hend
  | stay => cases hend
  | @jump links here name' rest slash' target found' hname hitem htarget _ _ ih =>
    have hrest : rest ++ [name] ≠ [] := by simp
    refine .jump hname hitem htarget (fun hnil => absurd hnil hrest) ?_
    simpa [hrest] using ih hend

/-- A route goes to a directory and takes the last name from there. -/
theorem Route.exists_directory (hfiles : files.WellFormed) {links : Nat} {here : Location}
    {names : List Text} {name : Text} {slash : Bool} {found : Found}
    (h : Route files follow links here (names ++ [name]) slash found) (hname : LookedUp name)
    (hhere : ∃ mode, files.item? here = some (.directory mode)) :
    ∃ directory mode links',
      Route files true links here names true (.present directory (.directory mode)) ∧
        links' ≤ links ∧ Route files follow links' directory [name] slash found := by
  generalize hall : names ++ [name] = all at h
  induction h generalizing names with
  | arrived => simp at hall
  | @dot links here rest slash found route ih =>
    cases names with
    | nil => exact absurd (List.cons.inj hall).1 hname.ne_dot
    | cons first names =>
      obtain ⟨rfl, rfl⟩ := List.cons.inj hall
      obtain ⟨directory, mode, links', hroute, hle, hlast⟩ := ih hhere rfl
      exact ⟨directory, mode, links', .dot hroute, hle, hlast⟩
  | @up links here rest slash found route ih =>
    cases names with
    | nil => exact absurd (List.cons.inj hall).1 hname.ne_dots
    | cons first names =>
      obtain ⟨rfl, rfl⟩ := List.cons.inj hall
      obtain ⟨mode, hmode⟩ := hhere
      obtain ⟨directory, mode, links', hroute, hle, hlast⟩ :=
        ih (hfiles.directory_dropLast hmode) rfl
      exact ⟨directory, mode, links', .up hroute, hle, hlast⟩
  | @absent links here name' slash hname' hitem =>
    obtain ⟨rfl, rfl⟩ : names = [] ∧ name = name' := by
      simpa [List.append_eq_singleton_iff] using hall
    obtain ⟨mode, hmode⟩ := hhere
    exact ⟨here, mode, links, .arrived hmode, Nat.le_refl _, .absent hname' hitem⟩
  | @enter links here name' rest slash mode' found hname' hitem route ih =>
    cases names with
    | nil =>
      obtain ⟨rfl, rfl⟩ := List.cons.inj hall
      obtain ⟨mode, hmode⟩ := hhere
      exact ⟨here, mode, links, .arrived hmode, Nat.le_refl _, .enter hname' hitem route⟩
    | cons first names =>
      obtain ⟨rfl, rfl⟩ := List.cons.inj hall
      obtain ⟨directory, mode, links', hroute, hle, hlast⟩ := ih ⟨mode', hitem⟩ rfl
      exact ⟨directory, mode, links', .enter hname' hitem hroute, hle, hlast⟩
  | @file links here name' mode' content hname' hitem =>
    obtain ⟨rfl, rfl⟩ : names = [] ∧ name = name' := by
      simpa [List.append_eq_singleton_iff] using hall
    obtain ⟨mode, hmode⟩ := hhere
    exact ⟨here, mode, links, .arrived hmode, Nat.le_refl _, .file hname' hitem⟩
  | @stay links here name' target hname' hitem hfollow =>
    obtain ⟨rfl, rfl⟩ : names = [] ∧ name = name' := by
      simpa [List.append_eq_singleton_iff] using hall
    obtain ⟨mode, hmode⟩ := hhere
    exact ⟨here, mode, links, .arrived hmode, Nat.le_refl _, .stay hname' hitem hfollow⟩
  | @jump links here name' rest slash target found hname' hitem htarget hmove route ih =>
    cases names with
    | nil =>
      obtain ⟨rfl, rfl⟩ := List.cons.inj hall
      obtain ⟨mode, hmode⟩ := hhere
      exact ⟨here, mode, links + 1, .arrived hmode, Nat.le_refl _,
        .jump hname' hitem htarget hmove route⟩
    | cons first names =>
      obtain ⟨rfl, rfl⟩ := List.cons.inj hall
      obtain ⟨directory, mode, links', hroute, hle, hlast⟩ :=
        ih (exists_jump_start hhere target) (List.append_assoc _ _ _)
      refine ⟨directory, mode, links', .jump hname' hitem htarget (fun _ h => by simp at h)
        (hroute.change_slash _), Nat.le_succ_of_le hle, ?_⟩
      simpa using hlast

/-- The last name of a route is that of the place where it ends, unless it is that of a link which
is followed. -/
theorem Route.eq_or_link {links : Nat} {directory l : Location} {name : Text}
    (h : Route files follow links directory [name] false (files.foundAt l))
    (hname : LookedUp name) :
    l = directory ++ [name] ∨
      follow = true ∧ ∃ target, files.item? (directory ++ [name]) = some (.link target) := by
  generalize hfound : files.foundAt l = found at h
  cases h with
  | dot => exact absurd rfl hname.ne_dot
  | up => exact absurd rfl hname.ne_dots
  | absent => exact .inl (foundAt_eq_missing hfound).1
  | enter _ _ route =>
    cases route with
    | arrived => exact .inl (foundAt_eq_present hfound).1
  | file => exact .inl (foundAt_eq_present hfound).1
  | stay => exact .inl (foundAt_eq_present hfound).1
  | jump _ hitem _ hmove =>
    refine .inr ⟨?_, _, hitem⟩
    cases follow with
    | false => exact absurd (hmove rfl rfl) (by simp)
    | true => rfl

/-- A route to what is no directory ends with a name that is looked up, and no slash asks for a
directory. -/
theorem Route.exists_last (hfiles : files.WellFormed) {links : Nat} {here : Location}
    {names : List Text} {slash : Bool} {l : Location}
    (h : Route files follow links here names slash (files.foundAt l))
    (hl : ∀ mode, files.item? l ≠ some (.directory mode))
    (hhere : ∃ mode, files.item? here = some (.directory mode)) :
    slash = false ∧ ∃ front name, names = front ++ [name] ∧ LookedUp name := by
  generalize hfound : files.foundAt l = found at h
  induction h with
  | arrived =>
    obtain ⟨rfl, -⟩ := foundAt_eq_present hfound
    obtain ⟨mode, hmode⟩ := hhere
    exact absurd hmode (hl mode)
  | dot _ ih =>
    obtain ⟨hslash, front, name, rfl, hname⟩ := ih hhere hfound
    exact ⟨hslash, _ :: front, name, rfl, hname⟩
  | up _ ih =>
    obtain ⟨mode, hmode⟩ := hhere
    obtain ⟨hslash, front, name, rfl, hname⟩ := ih (hfiles.directory_dropLast hmode) hfound
    exact ⟨hslash, _ :: front, name, rfl, hname⟩
  | absent hname =>
    obtain ⟨-, hslash, -⟩ := foundAt_eq_missing hfound
    exact ⟨hslash, [], _, rfl, hname⟩
  | enter _ hitem _ ih =>
    obtain ⟨hslash, front, name, rfl, hname⟩ := ih ⟨_, hitem⟩ hfound
    exact ⟨hslash, _ :: front, name, rfl, hname⟩
  | file hname => exact ⟨rfl, [], _, rfl, hname⟩
  | stay hname => exact ⟨rfl, [], _, rfl, hname⟩
  | @jump links here name rest slash target found hname hitem htarget hmove route ih =>
    obtain ⟨hslash, front, last, hnames, hlast⟩ := ih (exists_jump_start hhere target) hfound
    refine ⟨(Bool.or_eq_false_iff.mp hslash).1, ?_⟩
    -- The last name is the link's own or one after it.
    rcases List.eq_nil_or_concat rest with rfl | ⟨middle, last', rfl⟩
    · exact ⟨[], name, rfl, hname⟩
    · have heq : last' = last := by
        rw [List.concat_eq_append, ← List.append_assoc] at hnames
        simpa using (List.append_inj' hnames rfl).2
      exact ⟨name :: middle, last', by simp, heq ▸ hlast⟩

end HostKit.Files
