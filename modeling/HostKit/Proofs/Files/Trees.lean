import HostKit.Proofs.Files.Paths

/-!
# Small trees

Two kinds of file systems that can be written down: some items in the root directory, and a row
of directories, each in the one before it. Both are well-formed if their names are genuine.
-/

namespace HostKit.Files

/-- The tests for a genuine name. -/
theorem genuine_iff {name : Text} :
    Genuine name ↔ name ≠ [] ∧ '/' ∉ name ∧ '\x00' ∉ name ∧ name ≠ ".".toList ∧
      name ≠ "..".toList ∧ Text.utf8Length name ≤ maxName :=
  ⟨fun h => ⟨h.ne_nil, h.slash_not_mem, h.nul_not_mem, h.ne_dot, h.ne_dots, h.length_le⟩,
    fun ⟨h1, h2, h3, h4, h5, h6⟩ => ⟨h1, h2, h3, h4, h5, h6⟩⟩

instance (name : Text) : Decidable (Genuine name) := decidable_of_iff _ genuine_iff.symm

/-- The items in the root directory, by their names. -/
def flat (items : List (Text × Item)) : Files where
  items := items.map fun entry => ([entry.1], entry.2)
  setting := { workingDirectory := [] }

/-- Items with genuine names in the root directory make a tree. -/
theorem wellFormed_flat {items : List (Text × Item)}
    (h : ∀ entry ∈ items, Genuine entry.1 ∧ ∀ target, entry.2 = .link target → '\x00' ∉ target) :
    (flat items).WellFormed where
  isPlace {l} hl hroot := by
    obtain ⟨item, hitem⟩ := Option.ne_none_iff_exists'.mp hl
    obtain ⟨entry, hentry, heq⟩ := List.mem_map.mp (mem_items_of_item? hroot hitem)
    obtain ⟨rfl, rfl⟩ := Prod.mk.inj heq
    exact ⟨[], entry.1, rootMode, rfl, (h entry hentry).1, item?_root _⟩
  workingDirectory := ⟨rootMode, item?_root _⟩
  nul_not_mem {l target} hl := by
    have hroot : l ≠ [] := by
      rintro rfl
      simp at hl
    obtain ⟨entry, hentry, heq⟩ := List.mem_map.mp (mem_items_of_item? hroot hl)
    exact (h entry hentry).2 target (Prod.mk.inj heq).2

/-- The text that a link leads by. -/
def linkText : Item → Text
  | .link target => target
  | _ => []

/-- The test for items in the root directory to make a tree. -/
theorem wellFormed_flat_of_all {items : List (Text × Item)}
    (h : ∀ entry ∈ items, Genuine entry.1 ∧ '\x00' ∉ linkText entry.2) :
    (flat items).WellFormed :=
  wellFormed_flat fun entry hentry =>
    ⟨(h entry hentry).1, fun target htarget => by
      simpa [htarget, linkText] using (h entry hentry).2⟩

/-- A plain name is looked up in the root directory. -/
theorem names_flat {items : List (Text × Item)} {name : Text} (hname : Genuine name)
    (hend : IsEnd ((flat items).item? [name])) : (flat items).Names name [name] :=
  hname.names hend.ne_directory

end HostKit.Files
