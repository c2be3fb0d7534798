import HostKit.Proofs.Yaml.LoadedValues
import HostKit.Proofs.Yaml.Keys

/-!
# Values that can be written

A mapping of one entry without a tag in front is written like any other one, but its key must be
neither under a tag nor such a mapping itself. No other key and no other value is refused, so a
value as a document can stand for it is written exactly if all these keys may stand where they do.
-/

namespace HostKit.Yaml

/-- The key of a mapping of one entry. -/
def soleKey : List (Value × Value) → List Value
  | [(key, _)] => [key]
  | _ => []

mutual

/-- The keys of the mappings of one entry in a value that no tag stands over. -/
def Value.onlyKeys : (isTagged : Bool) → Value → List Value
  | _, .sequence items => onlyKeysOfItems items
  | isTagged, .mapping entries =>
    (if isTagged then [] else soleKey entries) ++ onlyKeysOfEntries entries
  | _, .tagged _ value => Value.onlyKeys true value
  | _, _ => []

/-- The same for the items of a sequence. -/
def onlyKeysOfItems : List Value → List Value
  | [] => []
  | item :: rest => Value.onlyKeys false item ++ onlyKeysOfItems rest

/-- The same for the keys and values of a mapping. -/
def onlyKeysOfEntries : List (Value × Value) → List Value
  | [] => []
  | (key, value) :: rest =>
    Value.onlyKeys false key ++ Value.onlyKeys false value ++ onlyKeysOfEntries rest

end

/-- All these keys may stand where they do. -/
def Value.HasWritableKeys (isTagged : Bool) (value : Value) : Prop :=
  ∀ key ∈ value.onlyKeys isTagged, isOnlyKey key = true

/-- The keys of a mapping can be written if its only one can be. -/
theorem hasWritableKeys_iff {isTagged : Bool} {entries : List (Value × Value)} :
    hasWritableKeys isTagged entries = true ↔
      ∀ key ∈ (if isTagged then [] else soleKey entries), isOnlyKey key = true := by
  match isTagged, entries with
  | true, [] | true, [_] | true, _ :: _ :: _ => simp [hasWritableKeys]
  | false, [] | false, [_] | false, _ :: _ :: _ => simp [hasWritableKeys, soleKey]

namespace Value

variable {isTagged : Bool}

theorem HasWritableKeys.sequence_iff {items : List Value} :
    (Value.sequence items).HasWritableKeys isTagged ↔
      ∀ item ∈ items, item.HasWritableKeys false := by
  change (∀ key ∈ onlyKeysOfItems items, isOnlyKey key = true) ↔ _
  induction items with
  | nil => simp [onlyKeysOfItems]
  | cons item items ih =>
    rw [onlyKeysOfItems, List.forall_mem_append, ih, List.forall_mem_cons]
    rfl

theorem HasWritableKeys.mapping_iff {entries : List (Value × Value)} :
    (Value.mapping entries).HasWritableKeys isTagged ↔ hasWritableKeys isTagged entries = true ∧
      ∀ entry ∈ entries, entry.1.HasWritableKeys false ∧ entry.2.HasWritableKeys false := by
  have hentries : (∀ key ∈ onlyKeysOfEntries entries, isOnlyKey key = true) ↔
      ∀ entry ∈ entries, entry.1.HasWritableKeys false ∧ entry.2.HasWritableKeys false := by
    induction entries with
    | nil => simp [onlyKeysOfEntries]
    | cons entry entries ih =>
      rw [onlyKeysOfEntries, List.forall_mem_append, List.forall_mem_append, ih,
        List.forall_mem_cons]
      rfl
  rw [hasWritableKeys_iff, ← hentries, ← List.forall_mem_append]
  rfl

theorem IsScalar.hasWritableKeys {value : Value} (h : value.IsScalar) (isTagged : Bool) :
    value.HasWritableKeys isTagged := by
  cases h <;> exact fun key hkey => absurd hkey List.not_mem_nil

end Value

/-- A value without parts has no keys. -/
theorem hasWritableKeys_of_leafKeySize? {value : Value} {size : Nat}
    (h : leafKeySize? value = some size) (isTagged : Bool) : value.HasWritableKeys isTagged := by
  have hnone (hkeys : value.onlyKeys isTagged = []) : value.HasWritableKeys isTagged := by
    rw [Value.HasWritableKeys, hkeys]
    exact fun key hkey => absurd hkey List.not_mem_nil
  match value, h with
  | .null, _ | .bool _, _ | .int _, _ | .float _, _ | .string _, _ | .sequence [], _ =>
    exact hnone rfl
  | .mapping [], _ => exact hnone (by cases isTagged <;> rfl)

/-- A key before a colon has no keys. -/
theorem hasWritableKeys_of_isSimpleKey {key : Value} (h : isSimpleKey key = true) :
    key.HasWritableKeys false := by
  obtain ⟨size, -, hleaf, -⟩ | ⟨tag, value, size, rfl, hleaf, -⟩ := isSimpleKey_cases h
  · exact hasWritableKeys_of_leafKeySize? hleaf false
  · exact hasWritableKeys_of_leafKeySize? hleaf true

/-! ## Lists -/

/-- The items of a sequence are written if each one is. -/
theorem exists_printItems_iff {column : Nat} {items : List Value} :
    (∃ parts, printItems column items = .ok parts) ↔
      ∀ item ∈ items, ∃ text, printInline (.item column) item = .ok text := by
  induction items with
  | nil => simp [printItems]
  | cons item items ih =>
    simp only [printItems, Success.exists_bind_iff, List.forall_mem_cons, ← ih]
    simp

/-- The entries of a mapping are written if each key and value is, where a key before a colon always
is. -/
theorem exists_printEntries_iff {column : Nat} {entries : List (Value × Value)} :
    (∃ parts, printEntries column entries = .ok parts) ↔ ∀ entry ∈ entries,
      if isSimpleKey entry.1 then ∃ text, printAfter (.part column) false entry.2 = .ok text
      else (∃ text, printInline (.part column) entry.1 = .ok text) ∧
        ∃ text, printInline (.part column) entry.2 = .ok text := by
  induction entries with
  | nil => simp [printEntries]
  | cons entry entries ih =>
    obtain ⟨key, value⟩ := entry
    simp only [printEntries, List.forall_mem_cons, ← ih]
    split
    · simp [Success.exists_bind_iff]
    · simp [Success.exists_bind_iff, and_assoc]

/-- How a first entry is written: with its key before a colon, or below a question mark. -/
inductive EntryText (column : Nat) (key value : Value) (text : Text) : Prop
  | simple {after : Text} (hkey : isSimpleKey key = true)
      (hvalue : printAfter (.part column) false value = .ok after)
      (htext : text = printSimpleKey key ++ (":" ++ after))
  | marked {keyText valueText : Text} (hmarked : isSimpleKey key = false)
      (hkey : printInline (.part column) key = .ok keyText)
      (hvalue : printInline (.part column) value = .ok valueText)
      (htext : text = "? " ++ keyText ++ (spaces column ++ (": " ++ valueText)))

/-- The texts of the entries of a mapping. -/
theorem of_printEntries_cons {column : Nat} {key value : Value} {entries : List (Value × Value)}
    {parts : List Text} (h : printEntries column ((key, value) :: entries) = .ok parts) :
    ∃ text later, parts = text :: later ∧ printEntries column entries = .ok later ∧
      EntryText column key value text := by
  rw [printEntries] at h
  split at h
  · next hkey =>
    obtain ⟨after, hvalue, h⟩ := Success.of_bind h
    obtain ⟨text, htext, h⟩ := Success.of_bind h
    obtain ⟨later, hlater, h⟩ := Success.of_bind h
    refine ⟨text, later, (Except.ok.inj h).symm, hlater, .simple hkey hvalue ?_⟩
    rw [← Except.ok.inj htext, List.append_assoc]
  · next hmarked =>
    obtain ⟨keyText, hkey, h⟩ := Success.of_bind h
    obtain ⟨valueText, hvalue, h⟩ := Success.of_bind h
    obtain ⟨text, htext, h⟩ := Success.of_bind h
    obtain ⟨later, hlater, h⟩ := Success.of_bind h
    refine ⟨text, later, (Except.ok.inj h).symm, hlater,
      .marked (Bool.not_eq_true _ ▸ hmarked) hkey hvalue ?_⟩
    rw [← Except.ok.inj htext, List.append_assoc, List.append_assoc]

/-! ## Values -/

/-- Values without parts are written in every place. -/
theorem Value.IsLeaf.print {value : Value} (h : value.IsLeaf) (slot : Slot) (isTagged : Bool) :
    printInline slot value = .ok (endLine (printLeaf slot.text value)) ∧
      printAfter slot isTagged value = .ok (" " ++ endLine (printLeaf slot.text value)) := by
  cases h with
  | scalar h => cases h <;> exact ⟨rfl, rfl⟩
  | noItems | noEntries => exact ⟨rfl, rfl⟩

/-- A value is written on the line of an indicator if its keys can be, and after a key or a tag as
well, unless a tag would stand under another one. -/
structure Value.IsWrittenByKeys (value : Value) : Prop where
  inline : ∀ slot, (∃ text, printInline slot value = .ok text) ↔ value.HasWritableKeys false
  after : ∀ slot isTagged, (isTagged = true → value.isTagged = false) →
    ((∃ text, printAfter slot isTagged value = .ok text) ↔ value.HasWritableKeys isTagged)

namespace Value.IsWrittenByKeys

/-- Scalars have no keys. -/
theorem of_isScalar {value : Value} (h : value.IsScalar) : value.IsWrittenByKeys where
  inline slot := iff_of_true ⟨_, ((IsLeaf.scalar h).print slot false).1⟩ (h.hasWritableKeys false)
  after slot isTagged _ :=
    iff_of_true ⟨_, ((IsLeaf.scalar h).print slot isTagged).2⟩ (h.hasWritableKeys isTagged)

/-- A sequence is written if its items are. -/
theorem sequence {items : List Value} (h : ∀ item ∈ items, item.IsWrittenByKeys) :
    (Value.sequence items).IsWrittenByKeys := by
  have hitems (column : Nat) (isTagged : Bool) : (∃ parts, printItems column items = .ok parts) ↔
      (Value.sequence items).HasWritableKeys isTagged := by
    rw [exists_printItems_iff, HasWritableKeys.sequence_iff]
    exact forall₂_congr fun item hitem => (h item hitem).inline _
  refine ⟨fun slot => ?_, fun slot isTagged _ => ?_⟩
  · rw [← hitems slot.collection, printInline]
    cases items with
    | nil => simp [printItems]
    | cons item items => exact Success.exists_map_iff
  · rw [← hitems slot.sequence, printAfter]
    cases items with
    | nil => simp [printItems]
    | cons item items => simp [Success.exists_bind_iff]

/-- A mapping is written if its entries are and its only key can be one. -/
theorem mapping {entries : List (Value × Value)}
    (hkeys : ∀ entry ∈ entries, entry.1.IsWrittenByKeys)
    (hvalues : ∀ entry ∈ entries, entry.2.IsWrittenByKeys) :
    (Value.mapping entries).IsWrittenByKeys := by
  have hentries (column : Nat) (isTagged : Bool) :
      (hasWritableKeys isTagged entries = true ∧
        ∃ parts, printEntries column entries = .ok parts) ↔
        (Value.mapping entries).HasWritableKeys isTagged := by
    rw [exists_printEntries_iff, HasWritableKeys.mapping_iff]
    refine and_congr_right fun _ => forall₂_congr fun entry hentry => ?_
    split
    · next hsimple =>
      rw [(hvalues entry hentry).after _ false (by simp)]
      exact (and_iff_right (hasWritableKeys_of_isSimpleKey hsimple)).symm
    · rw [(hkeys entry hentry).inline, (hvalues entry hentry).inline]
  refine ⟨fun slot => ?_, fun slot isTagged _ => ?_⟩
  · rw [← hentries slot.collection, printInline]
    cases entries with
    | nil => simp [printEntries, hasWritableKeys]
    | cons entry entries =>
      cases hwritable : hasWritableKeys false (entry :: entries) with
      | false => simp
      | true => simpa [hwritable] using Success.exists_map_iff
  · rw [← hentries slot.collection, printAfter]
    cases entries with
    | nil => simp [printEntries, hasWritableKeys]
    | cons entry entries =>
      cases hwritable : hasWritableKeys isTagged (entry :: entries) with
      | false => simp
      | true => simp [Success.exists_bind_iff]

/-- A value that has no tag is written under one as it is after a key. -/
theorem tagged {value : Value} (h : value.IsWrittenByKeys) (untagged : value.isTagged = false)
    (tag : Text) : (Value.tagged tag value).IsWrittenByKeys := by
  have hunder (slot : Slot) (isTagged : Bool) : (∃ text, printAfter slot true value = .ok text) ↔
      (Value.tagged tag value).HasWritableKeys isTagged := h.after slot true fun _ => untagged
  refine ⟨fun slot => ?_, fun slot isTagged hnot => ?_⟩
  · rw [← hunder slot, printInline]
    simp [Success.exists_bind_iff]
  · cases isTagged with
    | true => exact absurd (hnot rfl) (by simp [isTagged])
    | false =>
      rw [← hunder slot, printAfter]
      simp [Success.exists_bind_iff]

end Value.IsWrittenByKeys

/-- A value as a document can stand for it is written exactly if its keys can be, in every place. -/
theorem Value.IsLoaded.isWrittenByKeys {depth : Nat} {value : Value} (h : value.IsLoaded depth) :
    value.IsWrittenByKeys := by
  induction h with
  | scalar h => exact .of_isScalar h
  | sequence parts ih => exact .sequence ih
  | mapping keys values differ ihKeys ihValues => exact .mapping ihKeys ihValues
  | @tagged depth tag value named untagged under ih => exact ih.tagged untagged tag

/-- A value as a document can stand for it is written exactly if its keys can be. -/
theorem exists_dump_iff {depth : Nat} {value : Value} (h : value.IsLoaded depth) :
    (∃ text, dump value = .ok text) ↔ value.HasWritableKeys false :=
  h.isWrittenByKeys.inline .document

end HostKit.Yaml
