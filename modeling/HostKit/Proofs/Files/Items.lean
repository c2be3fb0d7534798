import HostKit.Files.Basic

/-!
# Items and the tree they stand in

What is at each place after a change says all that matters about the files. Every item but the
root stands in a directory under a genuine name; this holds of every state that the operations
lead to. Files may come to be and change their content without any directory or link being
touched, and then paths go on leading to the same places.
-/

namespace HostKit.Files

variable {files before after : Files}

/-! ## Items after a change -/

@[simp] theorem item?_root (files : Files) : files.item? [] = some (.directory rootMode) := by
  simp [item?]

@[simp] theorem item?_erase {l : Location} (hl : l ≠ []) (l' : Location) :
    (files.erase l).item? l' = if l' = l then none else files.item? l' := by
  by_cases h : l' = l
  · subst h
    have hnone : (files.items.filter fun entry => entry.1 ≠ l').find?
        (fun entry => entry.1 = l') = none := by
      simp
    simp only [item?, erase, if_neg hl, if_true, hnone, Option.map_none]
  · have hfind : (files.items.filter fun entry => entry.1 ≠ l).find?
        (fun entry => entry.1 = l') = files.items.find? fun entry => entry.1 = l' := by
      rw [List.find?_filter]
      congr 1
      funext entry
      by_cases hentry : entry.1 = l' <;> simp [hentry, h]
    simp only [item?, erase, if_neg h, hfind]

@[simp] theorem item?_insert {l : Location} (hl : l ≠ []) (item : Item) (l' : Location) :
    (files.insert l item).item? l' = if l' = l then some item else files.item? l' := by
  by_cases h : l' = l
  · subst h
    simp [item?, insert, hl]
  · have herase : (files.erase l).item? l' = if l' = l then none else files.item? l' :=
      item?_erase hl l'
    simp only [if_neg h] at herase ⊢
    rw [← herase]
    simp [item?, insert, Ne.symm h]

/-- The item at a place other than the root is one of the items. -/
theorem mem_items_of_item? {files : Files} {l : Location} {item : Item} (hl : l ≠ [])
    (h : files.item? l = some item) : (l, item) ∈ files.items := by
  rw [item?, if_neg hl] at h
  obtain ⟨entry, hfind, rfl⟩ := Option.map_eq_some_iff.mp h
  have hentry : entry.1 = l := by simpa using List.find?_some hfind
  rw [← hentry]
  exact List.mem_of_find?_eq_some hfind

/-- Changing the content of a file puts a file with the new content in its place. -/
theorem modifyContent_of_file {l : Location} {mode : Nat} {content : Bytes}
    (h : files.item? l = some (.file mode content)) (change : Bytes → Bytes) :
    files.modifyContent l change = files.insert l (.file mode (change content)) := by
  simp [modifyContent, h]

/-- Changing the permission bits of a file puts a file with the new ones in its place. -/
theorem setMode_of_file {l : Location} {mode : Nat} {content : Bytes}
    (h : files.item? l = some (.file mode content)) (mode' : Nat) :
    files.setMode l mode' = files.insert l (.file mode' content) := by
  simp [setMode, h]

/-! ## Files that come and change -/

/-- A place where a path can only end: nothing is there, or a file. -/
def IsEnd : Option Item → Prop
  | none => True
  | some (.file _ _) => True
  | some _ => False

/-- Directories, links and the setting are as before, and where a file was there is a file still.
New files may have come and contents may have changed. -/
structure Grows (before after : Files) : Prop where
  setting : after.setting = before.setting
  isEnd : ∀ {l}, before.item? l = none → IsEnd (after.item? l)
  file : ∀ {l mode content}, before.item? l = some (.file mode content) →
    ∃ mode content, after.item? l = some (.file mode content)
  directory : ∀ {l mode}, before.item? l = some (.directory mode) →
    after.item? l = some (.directory mode)
  link : ∀ {l target}, before.item? l = some (.link target) → after.item? l = some (.link target)

theorem Grows.refl (files : Files) : Grows files files where
  setting := rfl
  isEnd h := by simp [h, IsEnd]
  file h := ⟨_, _, h⟩
  directory h := h
  link h := h

/-- An item that is a file or missing is either. -/
theorem isEnd_iff {item : Option Item} :
    IsEnd item ↔ item = none ∨ ∃ mode content, item = some (.file mode content) := by
  cases item with
  | none => simp [IsEnd]
  | some item => cases item <;> simp [IsEnd]

/-- A place where a path can end is not the root. -/
theorem IsEnd.ne_root {l : Location} (h : IsEnd (files.item? l)) : l ≠ [] := by
  rintro rfl
  simp [IsEnd] at h

/-- A place where a path can end is no directory. -/
theorem IsEnd.ne_directory {l : Location} (h : IsEnd (files.item? l)) (mode : Nat) :
    files.item? l ≠ some (.directory mode) := by
  intro hmode
  simp [hmode, IsEnd] at h

/-- What a path can end at, it can end at afterwards. -/
theorem Grows.isEnd_of_isEnd (h : Grows before after) {l : Location} (hl : IsEnd (before.item? l)) :
    IsEnd (after.item? l) := by
  rcases isEnd_iff.mp hl with hnone | ⟨mode, content, hfile⟩
  · exact h.isEnd hnone
  · obtain ⟨mode, content, hafter⟩ := h.file hfile
    simp [hafter, IsEnd]

theorem Grows.trans {middle : Files} (h : Grows before middle) (h' : Grows middle after) :
    Grows before after where
  setting := h'.setting.trans h.setting
  isEnd hl := h'.isEnd_of_isEnd (h.isEnd hl)
  file hl := by
    obtain ⟨_, _, hmiddle⟩ := h.file hl
    exact h'.file hmiddle
  directory hl := h'.directory (h.directory hl)
  link hl := h'.link (h.link hl)

/-- A directory that is there afterwards was there before. -/
theorem Grows.of_directory (h : Grows before after) {l : Location} {mode : Nat}
    (hl : after.item? l = some (.directory mode)) : before.item? l = some (.directory mode) := by
  cases hbefore : before.item? l with
  | none =>
    have hend := h.isEnd hbefore
    simp [hl, IsEnd] at hend
  | some item =>
    cases item with
    | file mode' content =>
      obtain ⟨_, _, hafter⟩ := h.file hbefore
      simp [hl] at hafter
    | directory mode' => exact (h.directory hbefore).symm.trans hl
    | link target =>
      have hafter := h.link hbefore
      simp [hl] at hafter

/-- A link that is there afterwards was there before. -/
theorem Grows.of_link (h : Grows before after) {l : Location} {target : Text}
    (hl : after.item? l = some (.link target)) : before.item? l = some (.link target) := by
  cases hbefore : before.item? l with
  | none =>
    have hend := h.isEnd hbefore
    simp [hl, IsEnd] at hend
  | some item =>
    cases item with
    | file mode' content =>
      obtain ⟨_, _, hafter⟩ := h.file hbefore
      simp [hl] at hafter
    | directory mode' =>
      have hafter := h.directory hbefore
      simp [hl] at hafter
    | link target' => exact (h.link hbefore).symm.trans hl

/-- Where a path can end afterwards, it could end before. -/
theorem Grows.of_isEnd (h : Grows before after) {l : Location} (hl : IsEnd (after.item? l)) :
    IsEnd (before.item? l) := by
  cases hbefore : before.item? l with
  | none => trivial
  | some item =>
    cases item with
    | file mode content => trivial
    | directory mode => simp [h.directory hbefore, IsEnd] at hl
    | link target => simp [h.link hbefore, IsEnd] at hl

/-- Files are put at places where a path can end, and all else stays as it is. -/
theorem Grows.of_item? (hsetting : after.setting = before.setting)
    (h : ∀ l, after.item? l = before.item? l ∨
      IsEnd (before.item? l) ∧ ∃ mode content, after.item? l = some (.file mode content)) :
    Grows before after where
  setting := hsetting
  isEnd {l} hl := by
    rcases h l with heq | ⟨-, mode, content, hafter⟩
    · simp [heq, hl, IsEnd]
    · simp [hafter, IsEnd]
  file {l mode content} hl := by
    rcases h l with heq | ⟨-, hafter⟩
    · exact ⟨mode, content, heq.trans hl⟩
    · exact hafter
  directory {l mode} hl := by
    rcases h l with heq | ⟨hend, -⟩
    · exact heq.trans hl
    · simp [hl, IsEnd] at hend
  link {l target} hl := by
    rcases h l with heq | ⟨hend, -⟩
    · exact heq.trans hl
    · simp [hl, IsEnd] at hend

/-- A file put at a place where a path can end. -/
theorem Grows.insert {l : Location} (hl : IsEnd (files.item? l)) (mode : Nat) (content : Bytes) :
    Grows files (files.insert l (.file mode content)) := by
  have hroot : l ≠ [] := hl.ne_root
  refine Grows.of_item? rfl fun l' => ?_
  by_cases h : l' = l
  · subst h; exact .inr ⟨hl, mode, content, by simp [hroot]⟩
  · exact .inl (by simp [hroot, h])

/-- The same items at the same places, in whatever order they are kept. -/
structure Alike (files files' : Files) : Prop where
  setting : files.setting = files'.setting
  item? : ∀ l, files.item? l = files'.item? l

theorem Alike.refl (files : Files) : Alike files files := ⟨rfl, fun _ => rfl⟩

theorem Alike.symm {files files' : Files} (h : Alike files files') : Alike files' files :=
  ⟨h.setting.symm, fun l => (h.item? l).symm⟩

theorem Alike.trans {files files' files'' : Files} (h : Alike files files')
    (h' : Alike files' files'') : Alike files files'' :=
  ⟨h.setting.trans h'.setting, fun l => (h.item? l).trans (h'.item? l)⟩

/-- What a change grows to may be replaced by what is alike. -/
theorem Grows.of_alike (h : Grows before files) (halike : Alike after files) :
    Grows before after :=
  h.trans (.of_item? halike.setting fun l => .inl (halike.item? l))

/-- Files have come where nothing was, and all that was there is as it was. -/
structure Gains (before after : Files) : Prop where
  setting : after.setting = before.setting
  kept : ∀ {l}, before.item? l ≠ none → after.item? l = before.item? l
  isEnd : ∀ {l}, before.item? l = none → IsEnd (after.item? l)

theorem Gains.refl (files : Files) : Gains files files :=
  ⟨rfl, fun _ => rfl, fun h => by simp [h, IsEnd]⟩

/-- Files that come are all that is new. -/
theorem Gains.grows (h : Gains before after) : Grows before after where
  setting := h.setting
  isEnd := h.isEnd
  file hl := ⟨_, _, (h.kept (by simp [hl])).trans hl⟩
  directory hl := (h.kept (by simp [hl])).trans hl
  link hl := (h.kept (by simp [hl])).trans hl

/-- A file put where nothing was comes to what is there. -/
theorem Gains.of_item? {l : Location} {mode : Nat} {content : Bytes} (hl : before.item? l = none)
    (hsetting : after.setting = before.setting)
    (h : ∀ l', after.item? l' =
      if l' = l then some (.file mode content) else before.item? l') : Gains before after where
  setting := hsetting
  kept {l'} hl' := by
    have hne : l' ≠ l := by
      rintro rfl
      exact hl' hl
    rw [h, if_neg hne]
  isEnd {l'} hl' := by
    rw [h]
    split
    · simp [IsEnd]
    · simp [hl', IsEnd]

/-! ## The tree -/

/-- A name that an item can have in a directory. -/
structure Genuine (name : Text) : Prop where
  ne_nil : name ≠ []
  slash_not_mem : '/' ∉ name
  nul_not_mem : '\x00' ∉ name
  ne_dot : name ≠ ".".toList
  ne_dots : name ≠ "..".toList
  length_le : Text.utf8Length name ≤ maxName

/-- A place in a directory that is there, under a genuine name. -/
def IsPlace (files : Files) (l : Location) : Prop :=
  ∃ directory name mode, l = directory ++ [name] ∧ Genuine name ∧
    files.item? directory = some (.directory mode)

/-- Every item but the root has a place in the tree, the working directory is a directory, and
no link leads to a name with a NUL. -/
structure WellFormed (files : Files) : Prop where
  isPlace : ∀ {l}, files.item? l ≠ none → l ≠ [] → files.IsPlace l
  workingDirectory : ∃ mode,
    files.item? files.setting.workingDirectory = some (.directory mode)
  nul_not_mem : ∀ {l target}, files.item? l = some (.link target) → '\x00' ∉ target

/-- A place is not the root. -/
theorem IsPlace.ne_root {l : Location} (h : files.IsPlace l) : l ≠ [] := by
  obtain ⟨directory, name, mode, rfl, -, -⟩ := h
  simp

/-- A place stays a place while only files come and change. -/
theorem IsPlace.grows {l : Location} (h : before.IsPlace l) (hgrows : Grows before after) :
    after.IsPlace l := by
  obtain ⟨directory, name, mode, rfl, hname, hdirectory⟩ := h
  exact ⟨directory, name, mode, rfl, hname, hgrows.directory hdirectory⟩

/-- The parent of a directory is a directory. -/
theorem WellFormed.directory_dropLast (h : files.WellFormed) {l : Location} {mode : Nat}
    (hl : files.item? l = some (.directory mode)) :
    ∃ mode, files.item? l.dropLast = some (.directory mode) := by
  by_cases hroot : l = []
  · exact ⟨rootMode, by simp [hroot]⟩
  · obtain ⟨directory, name, mode', rfl, -, hdirectory⟩ := h.isPlace (by simp [hl]) hroot
    exact ⟨mode', by simpa using hdirectory⟩

/-- The tree stays well-formed while files come at places of the tree and change. -/
theorem WellFormed.grows (h : before.WellFormed) (hgrows : Grows before after)
    (hnew : ∀ l, before.item? l = none → after.item? l ≠ none → before.IsPlace l) :
    after.WellFormed where
  isPlace {l} hl hroot := by
    by_cases hbefore : before.item? l = none
    · exact (hnew l hbefore hl).grows hgrows
    · exact (h.isPlace hbefore hroot).grows hgrows
  workingDirectory := by
    obtain ⟨mode, hmode⟩ := h.workingDirectory
    exact ⟨mode, by rw [hgrows.setting]; exact hgrows.directory hmode⟩
  nul_not_mem hl := h.nul_not_mem (hgrows.of_link hl)

end HostKit.Files
