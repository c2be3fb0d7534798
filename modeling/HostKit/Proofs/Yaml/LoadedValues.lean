import HostKit.Proofs.Yaml.Resolution
import HostKit.Proofs.Text.Utf8Encoding
import HostKit.Success
import HostKit.Yaml.Load

/-!
# Values that documents stand for

Not every value is what some document stands for. Collections are nested to a limited depth, the
keys of a mapping differ, a tag has a name and stands over a value without one, and numbers are in
the only form that they are read in.
-/

namespace HostKit.Yaml

/-- Whether a tag stands over the value. -/
def Value.isTagged : Value → Bool
  | .tagged _ _ => true
  | _ => false

/-- A value as a document can stand for it, with collections nested so deeply at most. -/
inductive Value.IsLoaded : Nat → Value → Prop
  | scalar {depth : Nat} {value : Value} (h : value.IsScalar) : IsLoaded depth value
  | sequence {depth : Nat} {items : List Value} (parts : ∀ item ∈ items, IsLoaded depth item) :
      IsLoaded (depth + 1) (.sequence items)
  | mapping {depth : Nat} {entries : List (Value × Value)}
      (keys : ∀ entry ∈ entries, IsLoaded depth entry.1)
      (values : ∀ entry ∈ entries, IsLoaded depth entry.2)
      (differ : entries.Pairwise fun entry later => entry.1.same later.1 = false) :
      IsLoaded (depth + 1) (.mapping entries)
  | tagged {depth : Nat} {tag : Text} {value : Value} (named : tag ≠ [])
      (untagged : value.isTagged = false) (under : IsLoaded depth value) :
      IsLoaded depth (.tagged tag value)

/-- No scalar has a tag. -/
theorem Value.IsScalar.not_isTagged {value : Value} (h : value.IsScalar) :
    value.isTagged = false := by
  cases h <;> rfl

namespace Tag

/-- The name of a tag is not empty. -/
theorem ne_nil_of_name? {tag : Bytes} {name : Text} (h : name? tag = some name) : name ≠ [] := by
  have hdecode {body : Bytes} (hbody : body ≠ []) : Utf8.decode body ≠ .ok [] := by
    cases body with
    | nil => exact absurd rfl hbody
    | cons b rest =>
      rw [Utf8.decode, Utf8.decodeFrom]
      split
      · intro h
        obtain ⟨text, -, hcons⟩ := Success.of_map h
        exact absurd hcons (List.cons_ne_nil _ _)
      · simp
      · simp
  rintro rfl
  simp only [name?] at h
  split at h
  · cases h
  · next body hbody =>
    have hne : body ≠ [] := by
      rintro rfl
      split at hbody
      · cases hbody
      · split at hbody
        · split at hbody
          · cases hbody
          · next hrest => exact hrest (Option.some.inj hbody)
        · cases hbody
    split at h
    · cases h
    · cases h
    · next hread => exact hdecode hne ((Option.some.inj h) ▸ hread)

end Tag

/-! ## Steps that count -/

/-- If two steps succeed together, the first succeeds and the second goes on from its result. -/
theorem Loading.of_bind {α β : Type} {first : Loading α} {next : α → Loading β}
    {count later : Nat} {b : β} (h : (first >>= next).run count = .ok (b, later)) :
    ∃ a middle, first.run count = .ok (a, middle) ∧ (next a).run middle = .ok (b, later) := by
  obtain ⟨⟨a, middle⟩, hfirst, hnext⟩ := Success.of_bind h
  exact ⟨a, middle, hfirst, hnext⟩

/-- The results of the items satisfy what the result of each item satisfies. -/
theorem Loading.forall_of_mapM {α β : Type} {load : α → Loading β} {p : β → Prop} {items : List α}
    (hload : ∀ item ∈ items, ∀ count b later, (load item).run count = .ok (b, later) → p b)
    {count later : Nat} {results : List β}
    (h : (items.mapM load).run count = .ok (results, later)) :
    ∀ b ∈ results, p b := by
  induction items generalizing count results with
  | nil =>
    obtain ⟨rfl, -⟩ := Prod.mk.inj (Except.ok.inj h)
    exact fun b hb => absurd hb List.not_mem_nil
  | cons item items ih =>
    rw [List.mapM_cons] at h
    obtain ⟨b, middle, hb, h⟩ := of_bind h
    obtain ⟨bs, last, hbs, h⟩ := of_bind h
    obtain ⟨rfl, rfl⟩ := Prod.mk.inj (Except.ok.inj h)
    exact List.forall_mem_cons.mpr ⟨hload item List.mem_cons_self _ _ _ hb,
      ih (fun item hitem => hload item (List.mem_cons_of_mem _ hitem)) hbs⟩

/-! ## Loading -/

/-- The meaning of a scalar is a scalar. -/
theorem isScalar_of_untaggedScalar {style : Style} {text : Text} {value : Value}
    (h : untaggedScalar style text = .ok value) : value.IsScalar := by
  unfold untaggedScalar at h
  split at h
  · exact isScalar_of_resolve h
  · exact Except.ok.inj h ▸ .string text

/-- The kind that a tag demands is that of a scalar. -/
theorem isScalar_of_taggedScalar {tag : Bytes} {style : Style} {text : Text} {value : Value}
    (h : taggedScalar tag style text = .ok value) : value.IsScalar := by
  have hdemand {value? : Option Value} (hvalue : ∀ value ∈ value?, value.IsScalar)
      (h : demand value? = .ok value) : value.IsScalar := by
    cases value? with
    | none => cases h
    | some found => exact Except.ok.inj h ▸ hvalue found rfl
  unfold taggedScalar at h
  split_ifs at h with hbool hint hfloat hnull hnothing hown
  · refine hdemand (fun value hvalue => ?_) h
    obtain ⟨b, -, rfl⟩ := Option.map_eq_some_iff.mp hvalue
    exact .bool b
  · cases hvalue : integerValue? text with
    | none => simp [hvalue] at h
    | some result => exact isScalar_of_integerValue? hvalue (by simpa [hvalue] using h)
  · refine hdemand (fun value hvalue => ?_) h
    obtain ⟨x, hx, rfl⟩ := Option.map_eq_some_iff.mp hvalue
    exact .float (isCanonical_of_float? hx)
  · exact hdemand (fun value hvalue => Option.some.inj hvalue ▸ .null) h
  · cases h
  · exact isScalar_of_untaggedScalar h
  · exact Except.ok.inj h ▸ .string text

/-- A scalar is the value, perhaps under a tag. -/
theorem isLoaded_of_scalarValue {tag : Option Bytes} {style : Style} {text : Text} {value : Value}
    (h : scalarValue tag style text = .ok value) (depth : Nat) : value.IsLoaded depth := by
  unfold scalarValue at h
  split at h
  · exact .scalar (isScalar_of_untaggedScalar h)
  · split at h
    · next hname =>
      obtain ⟨under, hunder, rfl⟩ := Success.of_map h
      have hscalar := isScalar_of_untaggedScalar hunder
      exact .tagged (Tag.ne_nil_of_name? hname) hscalar.not_isTagged (.scalar hscalar)
    · exact .scalar (isScalar_of_taggedScalar h)

/-- A value without a tag may be put under one. -/
theorem Value.IsLoaded.underTag {depth : Nat} {value : Value} (h : value.IsLoaded depth)
    (huntagged : value.isTagged = false) (tag : Option Bytes) :
    (Yaml.underTag tag value).IsLoaded depth := by
  unfold Yaml.underTag
  split
  · next hname =>
    obtain ⟨bytes, -, hname⟩ := Option.bind_eq_some_iff.mp hname
    exact .tagged (Tag.ne_nil_of_name? hname) huntagged h
  · exact h

/-- The parts of a mapping. -/
theorem Value.IsLoaded.of_mapping {depth : Nat} {entries : List (Value × Value)}
    (h : (Value.mapping entries).IsLoaded (depth + 1)) :
    (∀ entry ∈ entries, entry.1.IsLoaded depth ∧ entry.2.IsLoaded depth) ∧
      entries.Pairwise fun entry later => entry.1.same later.1 = false := by
  cases h with
  | scalar h => cases h
  | mapping keys values differ => exact ⟨fun entry h => ⟨keys entry h, values entry h⟩, differ⟩

/-- A mapping stays one with each entry whose key is not there yet. -/
theorem isLoaded_of_loadEntries {load : Node Nat → Loading Value} {depth : Nat}
    (hload : ∀ node count value later, (load node).run count = .ok (value, later) →
      value.IsLoaded depth) {entries : List (Node Nat × Node Nat)}
    {done result : List (Value × Value)} {count later : Nat}
    (hdone : (Value.mapping done.reverse).IsLoaded (depth + 1))
    (h : (loadEntries load done entries).run count = .ok (result, later)) :
    (Value.mapping result).IsLoaded (depth + 1) := by
  induction entries generalizing done count with
  | nil =>
    obtain ⟨rfl, -⟩ := Prod.mk.inj (Except.ok.inj h)
    exact hdone
  | cons entry entries ih =>
    rw [loadEntries] at h
    obtain ⟨key, middle, hkey, h⟩ := Loading.of_bind h
    split at h
    · cases h
    · next hnew =>
      obtain ⟨value, last, hvalue, h⟩ := Loading.of_bind h
      obtain ⟨hparts, hdiffer⟩ := hdone.of_mapping
      have hkey := hload _ _ _ _ hkey
      have hvalue := hload _ _ _ _ hvalue
      refine ih ?_ h
      rw [List.reverse_cons]
      have hall : ∀ entry ∈ done.reverse ++ [(key, value)],
          entry.1.IsLoaded depth ∧ entry.2.IsLoaded depth :=
        List.forall_mem_append.mpr ⟨hparts, List.forall_mem_singleton.mpr ⟨hkey, hvalue⟩⟩
      refine .mapping (fun entry h => (hall entry h).1) (fun entry h => (hall entry h).2) ?_
      refine List.pairwise_append.mpr ⟨hdiffer, List.pairwise_singleton _ _, ?_⟩
      simp only [List.mem_reverse, List.forall_mem_singleton]
      simpa using hnew

/-- The value of a node is one that documents stand for. -/
theorem Node.isLoaded_of_load {anchors : Anchors} {depth : Nat} {node : Node Nat} {value : Value}
    {count later : Nat} (h : (Node.load anchors depth node).run count = .ok (value, later)) :
    value.IsLoaded depth := by
  have hscalar {tag : Option Bytes} {style : Style} {text : Text} {value : Value}
    {middle later : Nat}
      (depth : Nat)
      (h : (liftM (scalarValue tag style text) : Loading Value).run middle = .ok (value, later)) :
      value.IsLoaded depth := by
    obtain ⟨found, hfound, h⟩ := Success.of_bind h
    obtain ⟨rfl, -⟩ := Prod.mk.inj (Except.ok.inj h)
    exact isLoaded_of_scalarValue hfound depth
  induction depth generalizing node value count later with
  | zero =>
    rw [Node.load] at h
    obtain ⟨node, middle, -, h⟩ := Loading.of_bind h
    match node, h with
    | .scalar _ _ _ _, h => exact hscalar 0 h
  | succ depth ih =>
    rw [Node.load] at h
    obtain ⟨node, middle, -, h⟩ := Loading.of_bind h
    match node, h with
    | .scalar _ _ _ _, h => exact hscalar (depth + 1) h
    | .sequence _ tag items, h =>
      obtain ⟨items, last, hitems, h⟩ := Loading.of_bind h
      obtain ⟨rfl, -⟩ := Prod.mk.inj (Except.ok.inj h)
      have hparts := Loading.forall_of_mapM (p := Value.IsLoaded depth)
        (fun item _ count value later h => ih h) hitems
      exact (Value.IsLoaded.sequence hparts).underTag rfl tag
    | .mapping _ tag entries, h =>
      obtain ⟨entries, last, hentries, h⟩ := Loading.of_bind h
      obtain ⟨rfl, -⟩ := Prod.mk.inj (Except.ok.inj h)
      have hnone : (Value.mapping ([] : List (Value × Value)).reverse).IsLoaded (depth + 1) :=
        .mapping (by simp) (by simp) .nil
      exact (isLoaded_of_loadEntries (fun node count value later h => ih h) hnone hentries).underTag
        rfl tag

/-- What a document stands for. -/
theorem isLoaded_of_load {document : Text} {value : Value} (h : load document = .ok value) :
    value.IsLoaded maxDepth := by
  unfold load at h
  obtain ⟨found, -, h⟩ := Success.of_bind h
  obtain ⟨node?, -, h⟩ := Success.of_bind h
  cases node? with
  | none => exact Except.ok.inj h ▸ .scalar .null
  | some node =>
    unfold Node.value at h
    obtain ⟨⟨node, names⟩, -, h⟩ := Success.of_bind h
    obtain ⟨⟨result, count⟩, hload, h⟩ := Success.of_bind h
    exact Except.ok.inj h ▸ Node.isLoaded_of_load hload

end HostKit.Yaml
