import HostKit.Success
import HostKit.Toml.Document

/-!
# The keys of a document differ

However a table comes about, by a header, by dotted keys or between braces, a key is only put in
where there is none, or its value is replaced by one that goes on from it. So no table of a
document that is read, at any depth, has two entries with one key, and the value of a key is well
defined.
-/

namespace HostKit.Toml

open HostKit.Success

/-- The keys of every table in the value differ. -/
inductive Value.Distinct : Value → Prop
  | string (text : Text) : Distinct (.string text)
  | integer (value : Int) : Distinct (.integer value)
  | float (value : Binary64) : Distinct (.float value)
  | tooLarge : Distinct .tooLarge
  | boolean (value : Bool) : Distinct (.boolean value)
  | dateTime (text : Text) : Distinct (.dateTime text)
  | array {isOpen : Bool} {items : List Value} (values : ∀ item ∈ items, Distinct item) :
    Distinct (.array isOpen items)
  | table {origin : Origin} {entries : Entries} (keys : (entries.map Prod.fst).Nodup)
    (values : ∀ entry ∈ entries, Distinct entry.2) : Distinct (.table origin entries)

/-- The keys of the entries differ, and so do those of every table in their values. -/
structure Entries.Distinct (entries : Entries) : Prop where
  keys : (entries.map Prod.fst).Nodup
  values : ∀ entry ∈ entries, entry.2.Distinct

namespace Entries

variable {entries : Entries} {key : Text} {value : Value}

/-- There are no keys without entries. -/
theorem distinct_nil : Distinct [] := ⟨List.nodup_nil, by simp⟩

/-- The entries of a table whose keys differ. -/
theorem distinct_of_table {origin : Origin} (h : (Value.table origin entries).Distinct) :
    entries.Distinct := by
  cases h with
  | table keys values => exact ⟨keys, values⟩

/-- The entries make a table whose keys differ. -/
theorem Distinct.table (h : entries.Distinct) (origin : Origin) :
    (Value.table origin entries).Distinct := .table h.keys h.values

/-- The value of a key is that of an entry. -/
theorem mem_of_get? (h : entries.get? key = some value) : (key, value) ∈ entries := by
  rw [get?, Option.map_eq_some_iff] at h
  obtain ⟨entry, hentry, rfl⟩ := h
  have hkey : entry.1 = key := by simpa using List.find?_some hentry
  exact hkey ▸ List.mem_of_find?_eq_some hentry

/-- A key without a value is that of no entry. -/
theorem get?_eq_none_iff : entries.get? key = none ↔ key ∉ entries.map Prod.fst := by
  rw [get?, Option.map_eq_none_iff, List.find?_eq_none, List.mem_map, not_exists]
  simp

/-- The value of the first key, or of another one further on. -/
theorem get?_cons (entry : Text × Value) (entries : Entries) (key : Text) :
    get? (entry :: entries) key = if entry.1 = key then some entry.2 else entries.get? key := by
  by_cases h : entry.1 = key <;> simp [get?, h]

/-- Where the keys differ, the order of the entries does not matter for the value of a key. -/
theorem get?_perm {others : Entries} (h : entries.Perm others)
    (hkeys : (entries.map Prod.fst).Nodup) (key : Text) : entries.get? key = others.get? key := by
  induction h with
  | nil => rfl
  | cons entry _ ih =>
    rw [List.map_cons, List.nodup_cons] at hkeys
    rw [get?_cons, get?_cons, ih hkeys.2]
  | swap a b rest =>
    have hne : a.1 ≠ b.1 := by
      intro heq
      simp [heq] at hkeys
    rw [get?_cons, get?_cons, get?_cons, get?_cons]
    by_cases ha : a.1 = key
    · have hb : b.1 ≠ key := fun hb => hne (ha.trans hb.symm)
      rw [if_pos ha, if_neg hb, if_pos ha]
    · rw [if_neg ha, if_neg ha]
  | trans hfirst _ ih ih' =>
    rw [ih hkeys, ih' ((hfirst.map Prod.fst).nodup_iff.mp hkeys)]

/-- A new key can be put at the end. -/
theorem Distinct.append (h : entries.Distinct) (hkey : entries.get? key = none)
    (hvalue : value.Distinct) : Distinct (entries ++ [(key, value)]) where
  keys := by
    rw [List.map_append, List.nodup_append]
    refine ⟨h.keys, by simp, fun other hother key' hkey' heq => ?_⟩
    rw [List.map_singleton, List.mem_singleton] at hkey'
    rw [heq, hkey'] at hother
    exact get?_eq_none_iff.mp hkey hother
  values entry hentry := by
    rcases List.mem_append.mp hentry with hmem | hmem
    · exact h.values entry hmem
    · rw [List.mem_singleton.mp hmem]
      exact hvalue

/-- The value of a key can be replaced, or put at the end. -/
theorem Distinct.put (h : entries.Distinct) (hvalue : value.Distinct) :
    Distinct (entries.put key value) := by
  unfold Entries.put
  split
  · refine ⟨?_, fun entry hentry => ?_⟩
    · have hkeys : (entries.map fun entry => if entry.1 = key then (key, value) else entry).map
          Prod.fst = entries.map Prod.fst := by
        rw [List.map_map]
        apply List.map_congr_left
        intro entry _
        by_cases heq : entry.1 = key <;> simp [heq]
      rw [hkeys]
      exact h.keys
    · obtain ⟨before, hmem, rfl⟩ := List.mem_map.mp hentry
      split
      · exact hvalue
      · exact h.values before hmem
  · next hnone =>
    refine h.append (get?_eq_none_iff.mpr fun hmem => hnone ?_) hvalue
    obtain ⟨entry, hentry, rfl⟩ := List.mem_map.mp hmem
    exact List.any_eq_true.mpr ⟨entry, hentry, by simp⟩

/-- The value of a key is one of those whose keys differ. -/
theorem Distinct.of_get? (h : entries.Distinct) (hget : entries.get? key = some value) :
    value.Distinct := h.values _ (mem_of_get? hget)

end Entries

/-! ## Putting statements together -/

/-- What is done to the table at the end of a path keeps its keys apart. -/
def KeepsDistinct (change : Origin → Entries → Except Error (Origin × Entries)) : Prop :=
  ∀ origin entries origin' entries', entries.Distinct →
    change origin entries = .ok (origin', entries') → Entries.Distinct entries'

variable {change : Origin → Entries → Except Error (Origin × Entries)}
variable {path : List Text} {key : Text} {value : Value}

/-- A change at the end of a path keeps the keys of all tables apart, if it does so there. -/
theorem KeepsDistinct.descend (h : KeepsDistinct change) (dotted : Bool) (path : List Text) :
    KeepsDistinct (descend dotted change path) := by
  induction path with
  | nil => exact h
  | cons key rest ih =>
    intro origin entries origin' entries' hentries hrun
    rw [Toml.descend] at hrun
    split at hrun
    · -- A table on the way is made.
      obtain ⟨⟨o, e⟩, hrest, hput⟩ := of_bind hrun
      obtain ⟨rfl, rfl⟩ := Prod.mk.inj (Except.ok.inj hput)
      exact hentries.put ((ih _ _ _ _ Entries.distinct_nil hrest).table o)
    · cases hrun
    · next o e _ hget =>
      split at hrun
      · cases hrun
      · obtain ⟨⟨o', e'⟩, hrest, hput⟩ := of_bind hrun
        obtain ⟨rfl, rfl⟩ := Prod.mk.inj (Except.ok.inj hput)
        have hinner := Entries.distinct_of_table (hentries.of_get? hget)
        exact hentries.put ((ih _ _ _ _ hinner hrest).table o')
    · next items hget =>
      split at hrun
      · next o e hlast =>
        obtain ⟨⟨o', e'⟩, hrest, hput⟩ := of_bind hrun
        obtain ⟨rfl, rfl⟩ := Prod.mk.inj (Except.ok.inj hput)
        cases hentries.of_get? hget with
        | array hitems =>
          have hinner := Entries.distinct_of_table (hitems _ (List.mem_of_getLast? hlast))
          have htable := (ih _ _ _ _ hinner hrest).table o'
          refine hentries.put (.array fun item hitem => ?_)
          rcases List.mem_append.mp hitem with hmem | hmem
          · exact hitems item (List.dropLast_subset _ hmem)
          · rw [List.mem_singleton.mp hmem]
            exact htable
      · cases hrun
    · cases hrun

/-- A key with its value keeps the keys apart. -/
theorem keepsDistinct_defineEntry (hvalue : value.Distinct) :
    KeepsDistinct (defineEntry path key value) := by
  refine KeepsDistinct.descend (fun origin entries origin' entries' hentries hrun => ?_) true path
  split at hrun
  · cases hrun
  split at hrun
  · cases hrun
  next hnone =>
  obtain ⟨rfl, rfl⟩ := Prod.mk.inj (Except.ok.inj hrun)
  exact hentries.append (by simpa using hnone) hvalue

/-- A header keeps the keys apart. -/
theorem keepsDistinct_defineTable : KeepsDistinct (defineTable path key) := by
  refine KeepsDistinct.descend (fun origin entries origin' entries' hentries hrun => ?_) false path
  split at hrun
  · next hnone =>
    obtain ⟨rfl, rfl⟩ := Prod.mk.inj (Except.ok.inj hrun)
    exact hentries.append hnone (Entries.distinct_nil.table .header)
  · next e hget =>
    obtain ⟨rfl, rfl⟩ := Prod.mk.inj (Except.ok.inj hrun)
    exact hentries.put ((Entries.distinct_of_table (hentries.of_get? hget)).table .header)
  · cases hrun

/-- A header in double brackets keeps the keys apart. -/
theorem keepsDistinct_defineArrayTable : KeepsDistinct (defineArrayTable path key) := by
  have hempty : (Value.table .header []).Distinct := Entries.distinct_nil.table .header
  refine KeepsDistinct.descend (fun origin entries origin' entries' hentries hrun => ?_) false path
  split at hrun
  · next hnone =>
    obtain ⟨rfl, rfl⟩ := Prod.mk.inj (Except.ok.inj hrun)
    refine hentries.append hnone (.array fun item hitem => ?_)
    rw [List.mem_singleton.mp hitem]
    exact hempty
  · next items hget =>
    obtain ⟨rfl, rfl⟩ := Prod.mk.inj (Except.ok.inj hrun)
    cases hentries.of_get? hget with
    | array hitems =>
      refine hentries.put (.array fun item hitem => ?_)
      rcases List.mem_append.mp hitem with hmem | hmem
      · exact hitems item hmem
      · rw [List.mem_singleton.mp hmem]
        exact hempty
  · cases hrun

/-- The keys of all tables in a statement differ. -/
def Statement.Distinct : Statement → Prop
  | .entry _ _ value => value.Distinct
  | .table _ _ | .arrayTable _ _ => True

/-- A statement keeps the keys apart. -/
theorem distinct_of_addStatement {current current' : List Text} {entries entries' : Entries}
    {statement : Statement} (hentries : entries.Distinct) (hstatement : statement.Distinct)
    (hrun : addStatement current entries statement = .ok (current', entries')) :
    entries'.Distinct := by
  cases statement with
  | entry path key value =>
    obtain ⟨⟨o, e⟩, hdefine, hrest⟩ := of_bind hrun
    obtain ⟨-, rfl⟩ := Prod.mk.inj (Except.ok.inj hrest)
    exact (keepsDistinct_defineEntry hstatement).descend false current _ _ _ _ hentries hdefine
  | table path key =>
    obtain ⟨⟨o, e⟩, hdefine, hrest⟩ := of_bind hrun
    obtain ⟨-, rfl⟩ := Prod.mk.inj (Except.ok.inj hrest)
    exact keepsDistinct_defineTable _ _ _ _ hentries hdefine
  | arrayTable path key =>
    obtain ⟨⟨o, e⟩, hdefine, hrest⟩ := of_bind hrun
    obtain ⟨-, rfl⟩ := Prod.mk.inj (Except.ok.inj hrest)
    exact keepsDistinct_defineArrayTable _ _ _ _ hentries hdefine

/-- Statements one after the other keep the keys apart. -/
theorem distinct_of_assemble {current : List Text} {entries entries' : Entries}
    {statements : List Statement} (hentries : entries.Distinct)
    (hstatements : ∀ statement ∈ statements, statement.Distinct)
    (hrun : assemble current entries statements = .ok entries') : entries'.Distinct := by
  induction statements generalizing current entries with
  | nil => exact Except.ok.inj hrun ▸ hentries
  | cons statement rest ih =>
    obtain ⟨⟨between, e⟩, hadd, hrest⟩ := of_bind hrun
    rw [List.forall_mem_cons] at hstatements
    exact ih (distinct_of_addStatement hentries hstatements.1 hadd) hstatements.2 hrest

/-! ## Reading statements -/

/-- A scalar has no keys. -/
theorem distinct_of_scalar? {word : Text} (h : scalar? word = some value) : value.Distinct := by
  unfold scalar? at h
  split at h
  · exact Option.some.inj h ▸ .boolean true
  split at h
  · exact Option.some.inj h ▸ .boolean false
  split at h
  · exact Option.some.inj h ▸ .integer _
  · next x hfloat =>
    obtain rfl := Option.some.inj h
    have hfinite (x : Binary64) : (Value.ofFinite x).Distinct := by
      unfold Value.ofFinite
      split
      · exact .float x
      · exact .tooLarge
    unfold float? at hfloat
    simp only [] at hfloat
    split at hfloat
    · exact Option.some.inj hfloat ▸ .float _
    split at hfloat
    · exact Option.some.inj hfloat ▸ .float _
    split at hfloat
    · cases hfloat
    simp only [Option.bind_eq_bind] at hfloat
    obtain ⟨wholeRow, -, hfloat⟩ := Option.bind_eq_some_iff.mp hfloat
    split at hfloat
    all_goals
      obtain ⟨fractionRow, -, hfloat⟩ := Option.bind_eq_some_iff.mp hfloat
      split at hfloat
      all_goals
        obtain ⟨power, -, hfloat⟩ := Option.bind_eq_some_iff.mp hfloat
        exact Option.some.inj hfloat ▸ hfinite _
  · split at h
    · exact Option.some.inj h ▸ .dateTime _
    · cases h

/-- A scalar without quotes has no keys. -/
theorem distinct_of_readWord {text rest : Text} (h : readWord text = .ok (value, rest)) :
    value.Distinct := by
  unfold readWord at h
  simp only [] at h
  split at h
  · next hscalar =>
    obtain ⟨rfl, -⟩ := Prod.mk.inj (Except.ok.inj h)
    exact distinct_of_scalar? hscalar
  · cases h

mutual

/-- The keys in a value that is read differ. -/
theorem distinct_of_readValue {room bound : Nat} {text rest : Text} {value : Value}
    (h : readValue room bound text = .ok (value, rest)) : value.Distinct := by
  cases bound with
  | zero => cases h
  | succ bound =>
    rw [readValue.eq_def] at h
    simp only [] at h
    split at h
    · split at h
      · cases h
      · exact distinct_of_readItems (by simp) h
    · split at h
      · cases h
      · exact distinct_of_readEntries Entries.distinct_nil h
    · obtain ⟨⟨t, rest'⟩, -, hvalue⟩ := of_map h
      obtain ⟨rfl, -⟩ := Prod.mk.inj hvalue
      exact .string t
    · obtain ⟨⟨t, rest'⟩, -, hvalue⟩ := of_map h
      obtain ⟨rfl, -⟩ := Prod.mk.inj hvalue
      exact .string t
    · exact distinct_of_readWord h

/-- The keys in the items of an array that is read differ. -/
theorem distinct_of_readItems {room bound : Nat} {items : List Value} {text rest : Text}
    {value : Value} (hitems : ∀ item ∈ items, item.Distinct)
    (h : readItems room bound items text = .ok (value, rest)) : value.Distinct := by
  cases bound with
  | zero => cases h
  | succ bound =>
    rw [readItems] at h
    obtain ⟨first, -, h⟩ := of_bind h
    split at h
    · obtain ⟨rfl, -⟩ := Prod.mk.inj (Except.ok.inj h)
      exact .array hitems
    · obtain ⟨⟨item, later⟩, hitem, h⟩ := of_bind h
      have hall : ∀ other ∈ items ++ [item], other.Distinct := by
        intro other hother
        rcases List.mem_append.mp hother with hmem | hmem
        · exact hitems other hmem
        · rw [List.mem_singleton.mp hmem]
          exact distinct_of_readValue hitem
      obtain ⟨next, -, h⟩ := of_bind h
      split at h
      · exact distinct_of_readItems hall h
      · obtain ⟨rfl, -⟩ := Prod.mk.inj (Except.ok.inj h)
        exact .array hall
      · cases h

/-- The keys of a table in braces that is read differ. -/
theorem distinct_of_readEntries {room bound : Nat} {entries : Entries} {text rest : Text}
    {value : Value} (hentries : entries.Distinct)
    (h : readEntries room bound entries text = .ok (value, rest)) : value.Distinct := by
  cases bound with
  | zero => cases h
  | succ bound =>
    rw [readEntries] at h
    obtain ⟨first, -, h⟩ := of_bind h
    split at h
    · obtain ⟨rfl, -⟩ := Prod.mk.inj (Except.ok.inj h)
      exact hentries.table .braces
    · obtain ⟨⟨path, key, later⟩, -, h⟩ := of_bind h
      simp only [] at h
      split at h
      · obtain ⟨⟨inner, last⟩, hinner, h⟩ := of_bind h
        obtain ⟨⟨o, e⟩, hdefine, h⟩ := of_bind h
        have hall : Entries.Distinct e :=
          keepsDistinct_defineEntry (distinct_of_readValue hinner) _ _ _ _ hentries hdefine
        obtain ⟨next, -, h⟩ := of_bind h
        split at h
        · exact distinct_of_readEntries hall h
        · obtain ⟨rfl, -⟩ := Prod.mk.inj (Except.ok.inj h)
          exact hall.table .braces
        · cases h
      · cases h

end

/-- The keys in a statement that is read differ. -/
theorem distinct_of_readStatement {text rest : Text} {statement : Statement}
    (h : readStatement text = .ok (statement, rest)) : statement.Distinct := by
  unfold readStatement at h
  split at h
  · obtain ⟨⟨path, key, later⟩, -, h⟩ := of_bind h
    simp only [] at h
    split at h
    · obtain ⟨last, -, h⟩ := of_bind h
      obtain ⟨rfl, -⟩ := Prod.mk.inj (Except.ok.inj h)
      trivial
    · cases h
  · obtain ⟨⟨path, key, later⟩, -, h⟩ := of_bind h
    simp only [] at h
    split at h
    · obtain ⟨last, -, h⟩ := of_bind h
      obtain ⟨rfl, -⟩ := Prod.mk.inj (Except.ok.inj h)
      trivial
    · cases h
  · obtain ⟨⟨path, key, later⟩, -, h⟩ := of_bind h
    simp only [] at h
    split at h
    · obtain ⟨⟨value, after⟩, hvalue, h⟩ := of_bind h
      obtain ⟨last, -, h⟩ := of_bind h
      obtain ⟨rfl, -⟩ := Prod.mk.inj (Except.ok.inj h)
      exact distinct_of_readValue hvalue
    · cases h

/-- The keys in the statements of a text differ. -/
theorem distinct_of_readStatements {bound : Nat} {text : Text} {statements : List Statement}
    (h : readStatements bound text = .ok statements) :
    ∀ statement ∈ statements, statement.Distinct := by
  induction bound generalizing text statements with
  | zero => cases h
  | succ bound ih =>
    rw [readStatements] at h
    obtain ⟨first, -, h⟩ := of_bind h
    split at h
    · rw [← Except.ok.inj h]
      simp
    · obtain ⟨⟨statement, rest⟩, hstatement, h⟩ := of_bind h
      obtain ⟨others, hothers, h⟩ := of_bind h
      rw [← Except.ok.inj h, List.forall_mem_cons]
      exact ⟨distinct_of_readStatement hstatement, ih hothers⟩

/-- The keys in a document differ, those of its own table and those of every table in it. -/
theorem distinct_of_parse {document : Text} {entries : Entries}
    (h : parse document = .ok entries) : entries.Distinct := by
  obtain ⟨statements, hread, hassemble⟩ := of_bind h
  exact distinct_of_assemble Entries.distinct_nil (distinct_of_readStatements hread) hassemble

end HostKit.Toml
