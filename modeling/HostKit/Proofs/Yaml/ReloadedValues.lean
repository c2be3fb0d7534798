import HostKit.Proofs.Yaml.WrittenNodes

/-!
# Values that are read back

The node of a written value has no anchors, so nothing in it is numbered and no alias is followed.
What it is loaded as differs from the value in the names of tags at most, and it is the value
exactly if every name is read back as itself.
-/

namespace HostKit.Yaml

/-! ## Numbering -/

namespace Node

/-- A node without anchors stays as it is. -/
def IsNumbered (node : Node Text) (numbered : Node Nat) : Prop :=
  ∀ names, node.number.run names = .ok (numbered, names)

theorem numberItems_ofItems {items : List Value}
    (h : ∀ item ∈ items, IsNumbered (ofValue none item) (ofValue none item)) (names : AnchorNames) :
    (numberItems (ofItems items)).run names = .ok (ofItems items, names) := by
  induction items with
  | nil => rfl
  | cons item items ih =>
    obtain ⟨hitem, hitems⟩ := List.forall_mem_cons.mp h
    have hrest := ih hitems
    simp only [ofItems, numberItems, StateT.run_bind, hitem names]
    simp [hrest]

theorem numberEntries_ofEntries {entries : List (Value × Value)}
    (hkeys : ∀ entry ∈ entries, IsNumbered (ofValue none entry.1) (ofValue none entry.1))
    (hvalues : ∀ entry ∈ entries, IsNumbered (ofValue none entry.2) (ofValue none entry.2))
    (names : AnchorNames) :
    (numberEntries (ofEntries entries)).run names = .ok (ofEntries entries, names) := by
  induction entries with
  | nil => rfl
  | cons entry entries ih =>
    obtain ⟨hkey, hkeys⟩ := List.forall_mem_cons.mp hkeys
    obtain ⟨hvalue, hvalues⟩ := List.forall_mem_cons.mp hvalues
    have hrest := ih hkeys hvalues
    simp only [ofEntries, numberEntries, StateT.run_bind, hkey names]
    simp [hvalue names, hrest]

/-- The node of a written value stays as it is. -/
theorem isNumbered_ofValue {depth : Nat} {value : Value} (h : value.IsLoaded depth)
    (tag : Option Bytes) :
    IsNumbered (ofValue tag value) (ofValue tag value) := by
  induction h generalizing tag with
  | scalar h => cases h <;> exact fun names => rfl
  | sequence parts ih =>
    intro names
    have hitems := numberItems_ofItems (fun item hitem => ih item hitem none) names
    simp only [ofValue, number, numberAnchor, StateT.run_bind]
    simp [hitems]
  | mapping keys values differ ihKeys ihValues =>
    intro names
    have hentries := numberEntries_ofEntries (fun entry hentry => ihKeys entry hentry none)
      (fun entry hentry => ihValues entry hentry none) names
    simp only [ofValue, number, numberAnchor, StateT.run_bind]
    simp [hentries]
  | tagged named untagged under ih => exact ih _

end Node

/-! ## Steps that give a result -/

/-- The step has the expected result exactly under the condition, and it follows no alias then. -/
def Gives {α : Type} (step : Loading α) (expected : α) (condition : Prop) : Prop :=
  ∀ count later, step.run count = .ok (expected, later) ↔ later = count ∧ condition

namespace Gives

variable {α β : Type} {step : Loading α} {next : α → Loading β} {expected : α} {result : β}
    {p q : Prop}

theorem pure_iff (a expected : α) : Gives (pure a) expected (a = expected) := by
  intro count later
  change Except.ok (a, count) = Except.ok (expected, later) ↔ _
  rw [Except.ok.injEq, Prod.mk.injEq]
  exact ⟨fun h => ⟨h.2.symm, h.1⟩, fun h => ⟨h.2, h.1.symm⟩⟩

/-- A step and another one after it, whose result tells that of the first one. -/
theorem andThen (hstep : Gives step expected p) (hnext : Gives (next expected) result q)
    (hsame : ∀ a count later, (next a).run count = .ok (result, later) → a = expected) :
    Gives (step >>= next) result (p ∧ q) := by
  intro count later
  refine ⟨fun h => ?_, fun ⟨hlater, hp, hq⟩ => ?_⟩
  · obtain ⟨a, middle, hfirst, hsecond⟩ := Loading.of_bind h
    obtain rfl := hsame a middle later hsecond
    obtain ⟨rfl, hp⟩ := (hstep count middle).mp hfirst
    obtain ⟨hlater, hq⟩ := (hnext middle later).mp hsecond
    exact ⟨hlater, hp, hq⟩
  · have hfirst := (hstep count count).mpr ⟨rfl, hp⟩
    have hsecond := (hnext count later).mpr ⟨hlater, hq⟩
    rw [StateT.run_bind, hfirst]
    exact hsecond

/-- A step whose result is changed in a way that can be undone. -/
theorem map (hstep : Gives step expected p) {change : α → β}
    (hsame : ∀ a, change a = change expected → a = expected) :
    Gives (do let a ← step; pure (change a)) (change expected) p := by
  have hpure : Gives (pure (change expected)) (change expected) True :=
    fun count later => (pure_iff _ _ count later).trans
      (and_congr_right fun _ => iff_of_true rfl trivial)
  have hall : Gives (step >>= fun a => pure (change a)) (change expected) (p ∧ True) :=
    hstep.andThen hpure fun a count later h => hsame a (Prod.mk.inj (Except.ok.inj h)).1
  exact fun count later =>
    (hall count later).trans (and_congr_right fun _ => iff_of_eq (and_true p))

theorem congr (h : Gives step expected p) (hiff : p ↔ q) : Gives step expected q :=
  fun count later => (h count later).trans (and_congr_right fun _ => hiff)

/-- The items of a sequence, one after the other. -/
theorem mapM_ofItems {load : Node Nat → Loading Value} {p : Value → Prop} {items : List Value}
    (h : ∀ item ∈ items, Gives (load (.ofValue none item)) item (p item)) :
    Gives ((Node.ofItems items).mapM load) items (∀ item ∈ items, p item) := by
  induction items with
  | nil => exact (pure_iff [] []).congr (by simp)
  | cons item items ih =>
    obtain ⟨hitem, hitems⟩ := List.forall_mem_cons.mp h
    rw [Node.ofItems, List.mapM_cons]
    refine (hitem.andThen ((ih hitems).map fun a h => (List.cons.inj h).2) ?_).congr
      List.forall_mem_cons.symm
    intro a count later h
    obtain ⟨rest, middle, -, h⟩ := Loading.of_bind h
    exact (List.cons.inj (Prod.mk.inj (Except.ok.inj h)).1).1

end Gives

/-- The entries that are there stay there. -/
theorem isPrefix_of_loadEntries {load : Node Nat → Loading Value}
    {entries : List (Node Nat × Node Nat)} {done result : List (Value × Value)} {count later : Nat}
    (h : (loadEntries load done entries).run count = .ok (result, later)) :
    done.reverse <+: result := by
  induction entries generalizing done count with
  | nil => exact (Prod.mk.inj (Except.ok.inj h)).1 ▸ List.prefix_rfl
  | cons entry entries ih =>
    rw [loadEntries] at h
    obtain ⟨key, middle, -, h⟩ := Loading.of_bind h
    split at h
    · cases h
    · obtain ⟨value, last, -, h⟩ := Loading.of_bind h
      have hprefix := ih h
      rw [List.reverse_cons] at hprefix
      exact (List.prefix_append _ _).trans hprefix

/-- The entry that comes next is the one that is there. -/
theorem eq_of_loadEntries {load : Node Nat → Loading Value} {rest : List (Node Nat × Node Nat)}
    {entry first : Value × Value} {done entries : List (Value × Value)} {count later : Nat}
    (h : (loadEntries load (entry :: done) rest).run count =
      .ok (done.reverse ++ first :: entries, later)) : entry = first := by
  have hprefix := isPrefix_of_loadEntries h
  rw [List.reverse_cons, List.prefix_append_right_inj, List.cons_prefix_cons] at hprefix
  exact hprefix.1

/-- The entries of a mapping, one after the other. -/
theorem Gives.loadEntries_ofEntries {load : Node Nat → Loading Value} {p : Value → Prop}
    {entries done : List (Value × Value)}
    (hkeys : ∀ entry ∈ entries, Gives (load (.ofValue none entry.1)) entry.1 (p entry.1))
    (hvalues : ∀ entry ∈ entries, Gives (load (.ofValue none entry.2)) entry.2 (p entry.2))
    (hdiffer : (done.reverse ++ entries).Pairwise fun entry later => entry.1.same later.1 = false) :
    Gives (loadEntries load done (Node.ofEntries entries)) (done.reverse ++ entries)
      (∀ entry ∈ entries, p entry.1 ∧ p entry.2) := by
  induction entries generalizing done with
  | nil =>
    rw [List.append_nil]
    exact (pure_iff _ _).congr (by simp)
  | cons entry entries ih =>
    obtain ⟨key, value⟩ := entry
    obtain ⟨(hkey : Gives (load (.ofValue none key)) key (p key)), hkeys⟩ :=
      List.forall_mem_cons.mp hkeys
    obtain ⟨(hvalue : Gives (load (.ofValue none value)) value (p value)), hvalues⟩ :=
      List.forall_mem_cons.mp hvalues
    have hnew : (done.any fun entry => entry.1.same key) = false := by
      have hbefore := (List.pairwise_append.mp hdiffer).2.2
      simp only [List.any_eq_false, Bool.not_eq_true]
      exact fun entry hentry =>
        hbefore entry (List.mem_reverse.mpr hentry) (key, value) List.mem_cons_self
    have happend : ((key, value) :: done).reverse ++ entries =
        done.reverse ++ (key, value) :: entries := by
      simp
    have hrest := ih hkeys hvalues (happend ▸ hdiffer)
    rw [happend] at hrest
    have hentry : Gives (do
        let w ← load (.ofValue none value)
        loadEntries load ((key, w) :: done) (Node.ofEntries entries))
        (done.reverse ++ (key, value) :: entries)
            (p value ∧ ∀ entry ∈ entries, p entry.1 ∧ p entry.2) :=
      hvalue.andThen hrest fun w count later h => (Prod.mk.inj (eq_of_loadEntries h)).2
    rw [Node.ofEntries, loadEntries]
    refine (hkey.andThen (q := p value ∧ ∀ entry ∈ entries, p entry.1 ∧ p entry.2) ?_ ?_).congr ?_
    · simpa [hnew] using hentry
    · intro a count later h
      split at h
      · cases h
      · obtain ⟨w, middle, -, h⟩ := Loading.of_bind h
        exact (Prod.mk.inj (eq_of_loadEntries h)).1
    · rw [List.forall_mem_cons, and_assoc]

/-! ## Loading -/

/-- The name is read back from the tag that it is written as. -/
def Tag.IsReread (name : Text) : Prop := Tag.name? (Tag.bytesOf name) = some name

/-- The value under the tag, if there is one. -/
def Value.under (front : Option Text) (value : Value) : Value :=
  match front with
  | none => value
  | some name => .tagged name value

/-- A tag in front is part of the value, and the same one if its name is read back. -/
theorem underTag_eq_under_iff {front : Option Text} {value expected : Value} :
    underTag (front.map Tag.bytesOf) value = expected.under front ↔
      value = expected ∧ ∀ name ∈ front, Tag.IsReread name := by
  cases front with
  | none => simp [underTag, Value.under]
  | some name =>
    have hname := Tag.name?_bytesOf name
    simp [underTag, Value.under, Tag.IsReread, hname, and_comm]

/-- The text of a scalar means the scalar. -/
theorem Value.IsScalar.exists_ofValue {value : Value} (h : value.IsScalar) (tag : Option Bytes) :
    ∃ style text, (Node.ofValue tag value : Node Nat) = .scalar none tag style text ∧
      untaggedScalar style text = .ok value := by
  cases h with
  | null => exact ⟨_, _, rfl, rfl⟩
  | bool b => cases b <;> exact ⟨_, _, rfl, rfl⟩
  | int fits => exact ⟨_, _, rfl, resolve_ofInt fits⟩
  | float canonical => exact ⟨_, _, rfl, resolve_printFloat canonical⟩
  | string text =>
    refine ⟨_, _, rfl, ?_⟩
    unfold untaggedScalar
    split
    · next hplain =>
      obtain ⟨h, -⟩ | h | ⟨-, h, -⟩ | ⟨h, -⟩ := Style.ofString_cases text
      · rw [h] at hplain; cases hplain
      · rw [h] at hplain; cases hplain
      · exact resolve_of_isPlainString h
      · rw [h] at hplain; cases hplain
    · rfl

/-- A scalar with a tag in front. -/
theorem scalarValue_eq {style : Style} {text : Text} {value : Value}
    (h : untaggedScalar style text = .ok value) (front : Option Text) :
    scalarValue (front.map Tag.bytesOf) style text =
        .ok (underTag (front.map Tag.bytesOf) value) := by
  cases front with
  | none => exact h
  | some name =>
    have hname := Tag.name?_bytesOf name
    simp [scalarValue, underTag, hname, h, Except.map]

/-- A step whose result goes under the tag in front. -/
theorem Gives.underTag {α : Type} {step : Loading α} {expected : α} {p : Prop}
    (hstep : Gives step expected p) {f : α → Value}
    (hsame : ∀ a, f a = f expected → a = expected) (front : Option Text) :
    Gives (do let a ← step; pure (Yaml.underTag (front.map Tag.bytesOf) (f a)))
      ((f expected).under front) ((∀ name ∈ front, Tag.IsReread name) ∧ p) := by
  have hlast := (Gives.pure_iff (Yaml.underTag (front.map Tag.bytesOf) (f expected))
    ((f expected).under front)).congr (underTag_eq_under_iff.trans (and_iff_right rfl))
  refine (hstep.andThen hlast fun a count later h => ?_).congr and_comm
  exact hsame a (underTag_eq_under_iff.mp (Prod.mk.inj (Except.ok.inj h)).1).1

/-- From its node, with any tag in front that may stand there, the value is loaded exactly if the
names of all tags are read back. -/
def Value.IsReloaded (anchors : Anchors) (depth : Nat) (value : Value) : Prop :=
  ∀ front : Option Text, (front.isSome → value.isTagged = false) →
    Gives (Node.load anchors depth (.ofValue (front.map Tag.bytesOf) value)) (value.under front)
      ((∀ name ∈ front, Tag.IsReread name) ∧ value.AllTags Tag.IsReread)

/-- The node without a tag in front. -/
theorem Value.IsReloaded.gives {anchors : Anchors} {depth : Nat} {value : Value}
    (h : value.IsReloaded anchors depth) :
    Gives (Node.load anchors depth (.ofValue none value)) value (value.AllTags Tag.IsReread) :=
  (h none (by simp)).congr (by simp)

namespace Value.IsReloaded

variable {anchors : Anchors} {depth : Nat}

/-- A scalar. -/
theorem of_isScalar {value : Value} (h : value.IsScalar) : value.IsReloaded anchors depth := by
  intro front _
  obtain ⟨style, text, hnode, hvalue⟩ := h.exists_ofValue (front.map Tag.bytesOf)
  have hload : Node.load anchors depth (.scalar none (front.map Tag.bytesOf) style text) =
      pure (Yaml.underTag (front.map Tag.bytesOf) value) := by
    rw [Node.load.eq_def]
    simp only [follow, pure_bind, scalarValue_eq hvalue front]
    rfl
  have htags : value.AllTags Tag.IsReread := (Value.IsLeaf.scalar h).allTags
  rw [hnode, hload]
  exact (Gives.pure_iff _ _).congr (underTag_eq_under_iff.trans (by simp [htags]))

/-- A sequence, whose items are loaded one after the other. -/
theorem sequence {items : List Value} (h : ∀ item ∈ items, item.IsReloaded anchors depth) :
    (Value.sequence items).IsReloaded anchors (depth + 1) := by
  intro front _
  have hload : Node.load anchors (depth + 1) (.ofValue (front.map Tag.bytesOf) (.sequence items)) =
      (do
        let items ← (Node.ofItems items).mapM (Node.load anchors depth)
        pure (Yaml.underTag (front.map Tag.bytesOf) (.sequence items))) := by
    rw [Node.ofValue, Node.load.eq_def]
    simp only [follow, pure_bind]
  have hitems : Gives ((Node.ofItems items).mapM (Node.load anchors depth)) items _ :=
    Gives.mapM_ofItems fun item hitem => (h item hitem).gives
  rw [hload]
  exact (hitems.congr Value.AllTags.sequence_iff.symm).underTag (f := .sequence)
    (fun a heq => Value.sequence.inj heq) front

/-- A mapping, whose entries are loaded one after the other. -/
theorem mapping {entries : List (Value × Value)}
    (hkeys : ∀ entry ∈ entries, entry.1.IsReloaded anchors depth)
    (hvalues : ∀ entry ∈ entries, entry.2.IsReloaded anchors depth)
    (differ : entries.Pairwise fun entry other => entry.1.same other.1 = false) :
    (Value.mapping entries).IsReloaded anchors (depth + 1) := by
  intro front _
  have hload : Node.load anchors (depth + 1) (.ofValue (front.map Tag.bytesOf) (.mapping entries)) =
      (do
        let entries ← loadEntries (Node.load anchors depth) [] (Node.ofEntries entries)
        pure (Yaml.underTag (front.map Tag.bytesOf) (.mapping entries))) := by
    rw [Node.ofValue, Node.load.eq_def]
    simp only [follow, pure_bind]
  have hentries : Gives
      (loadEntries (Node.load anchors depth) [] (Node.ofEntries entries)) entries _ :=
    Gives.loadEntries_ofEntries (fun entry hentry => (hkeys entry hentry).gives)
      (fun entry hentry => (hvalues entry hentry).gives) differ
  rw [hload]
  exact (hentries.congr Value.AllTags.mapping_iff.symm).underTag (f := .mapping)
    (fun a heq => Value.mapping.inj heq) front

/-- A value under a tag, which no other tag may stand in front of. -/
theorem tagged {value : Value} (h : value.IsReloaded anchors depth)
    (untagged : value.isTagged = false) (tag : Text) :
    (Value.tagged tag value).IsReloaded anchors depth := by
  intro front hfront
  cases front with
  | some name => exact absurd (hfront rfl) (by simp [isTagged])
  | none =>
    refine (h (some tag) fun _ => untagged).congr ?_
    simp [Value.AllTags.tagged_iff]

end Value.IsReloaded

/-- The node of a written value is loaded as the value if the names of its tags allow it. -/
theorem isReloaded_of_isLoaded {depth : Nat} {value : Value} (h : value.IsLoaded depth)
    (anchors : Anchors) : value.IsReloaded anchors depth := by
  induction h with
  | scalar h => exact .of_isScalar h
  | sequence parts ih => exact .sequence ih
  | mapping keys values differ ihKeys ihValues => exact .mapping ihKeys ihValues differ
  | @tagged depth tag value named untagged under ih => exact ih.tagged untagged tag

/-! ## Documents -/

/-- No tag of a value that documents stand for is without a name. -/
theorem Value.IsLoaded.allTags_ne_nil {depth : Nat} {value : Value} (h : value.IsLoaded depth) :
    value.AllTags (· ≠ []) := by
  induction h with
  | scalar h => exact (Value.IsLeaf.scalar h).allTags
  | sequence parts ih => exact Value.AllTags.sequence_iff.mpr ih
  | mapping keys values differ ihKeys ihValues =>
    exact Value.AllTags.mapping_iff.mpr fun entry h => ⟨ihKeys entry h, ihValues entry h⟩
  | tagged named untagged under ih => exact Value.AllTags.tagged_iff.mpr ⟨named, ih⟩

/-- A name that is not empty is read back as it is exactly if it can be read and is the same
then. -/
theorem Tag.isWritable_iff {name : Text} (hne : name ≠ []) :
    IsWritable name ↔ IsReadable name ∧ IsReread name := by
  rw [IsReread, name?_bytesOf_eq_iff hne]
  exact ⟨fun h => ⟨h.readable, h.noZero, h.noMark⟩, fun h => ⟨h.1, h.2.1, h.2.2⟩⟩

/-- The node of a written value stands for the value exactly if the names of all tags are read
back. -/
theorem Node.value_ofValue_iff {value : Value} (h : value.IsLoaded maxDepth) :
    Node.value (.ofValue none value) = .ok value ↔ value.AllTags Tag.IsReread := by
  have hnumber := Node.isNumbered_ofValue h none []
  have hload := (isReloaded_of_isLoaded h (.ofNode (.ofValue none value))).gives
  rw [Node.value, hnumber, Success.bind_ok]
  refine ⟨fun hvalue => ?_, fun htags => ?_⟩
  · obtain ⟨⟨found, count⟩, hfound, hvalue⟩ := Success.of_bind hvalue
    obtain rfl := Except.ok.inj hvalue
    exact ((hload 0 count).mp hfound).2
  · have hfound := (hload 0 0).mpr ⟨rfl, htags⟩
    simp [hfound]

/-- A value that has been written is read back as it is exactly if every name of a tag in it is. -/
theorem load_dump_iff {value : Value} (h : value.IsLoaded maxDepth) {text : Text}
    (htext : dump value = .ok text) : load text = .ok value ↔ value.AllTags Tag.IsWritable := by
  have hwritable : value.AllTags Tag.IsWritable ↔
      value.AllTags Tag.IsReadable ∧ value.AllTags Tag.IsReread := by
    rw [Value.AllTags, Value.AllTags, Value.AllTags, ← forall₂_and]
    exact forall₂_congr fun tag htag => Tag.isWritable_iff (h.allTags_ne_nil tag htag)
  obtain ⟨hreads, hfails⟩ := tokens_dump h htext
  rw [hwritable]
  by_cases hreadable : value.AllTags Tag.IsReadable
  · rw [and_iff_right hreadable, ← Node.value_ofValue_iff h, load, hreads hreadable,
      Success.bind_ok,
      Node.ofTokens?_tokensOf h, Success.bind_ok]
  · obtain ⟨error, herror⟩ := hfails hreadable
    simp [load, herror, hreadable]

end HostKit.Yaml
