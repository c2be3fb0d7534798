import HostKit.Proofs.Yaml.WrittenTokens

/-!
# The nodes of written values

The tokens of a written value are read as one node that says what the value is: no anchors and
aliases, the style of each scalar as it was chosen, and a tag on the node of the value under it. The
induction is on the value; what is read has at least one token for each step, so the bound is never
reached.
-/

namespace HostKit.Yaml.Node

/-! ## The node of a value -/

section ofValue

variable {Label : Type}

mutual

/-- The node that a value is written as, with the tag that stands over it. -/
def ofValue : (tag : Option Bytes) → Value → Node Label
  | _, .tagged name value => ofValue (some (Tag.bytesOf name)) value
  | tag, .sequence items => .sequence none tag (ofItems items)
  | tag, .mapping entries => .mapping none tag (ofEntries entries)
  | tag, .string text => .scalar none tag (Style.ofString text) text
  | tag, value => .scalar none tag .plain (printLeaf 0 value)

/-- The nodes of the items of a sequence. -/
def ofItems : List Value → List (Node Label)
  | [] => []
  | item :: rest => ofValue none item :: ofItems rest

/-- The nodes of the entries of a mapping. -/
def ofEntries : List (Value × Value) → List (Node Label × Node Label)
  | [] => []
  | (key, value) :: rest => (ofValue none key, ofValue none value) :: ofEntries rest

end

end ofValue

/-! ## Single steps -/

/-- The tokens of a tag in front of a node, if there is one. -/
def frontTokens : Option Text → List Token
  | none => []
  | some name => [.tag (Tag.ofBody (Tag.bodyOf name))]

section steps

variable {place : Place} {bound : Nat} {rest : List Token} (front : Option Text)

theorem read_scalar (style : Style) (text : Text) :
    read Tag.defaultHandles place (bound + 1) (frontTokens front ++ .scalar style text :: rest) =
      .ok (.scalar none (front.map Tag.bytesOf) style text, rest) := by
  cases front with
  | none => simp [frontTokens, read, properties]
  | some name => simp [frontTokens, read, properties, Tag.resolve_ofBody]

theorem read_brackets :
    read Tag.defaultHandles place (bound + 2)
      (frontTokens front ++ .openBracket :: .closeBracket :: rest) =
      .ok (.sequence none (front.map Tag.bytesOf) [], rest) := by
  cases front with
  | none => simp [frontTokens, read, properties, readFlowItems]
  | some name => simp [frontTokens, read, properties, Tag.resolve_ofBody, readFlowItems]

theorem read_braces :
    read Tag.defaultHandles place (bound + 2)
      (frontTokens front ++ .openBrace :: .closeBrace :: rest) =
      .ok (.mapping none (front.map Tag.bytesOf) [], rest) := by
  cases front with
  | none => simp [frontTokens, read, properties, readFlowEntries]
  | some name => simp [frontTokens, read, properties, Tag.resolve_ofBody, readFlowEntries]

theorem read_blockSequence (hplace : place ≠ .inFlow) {items : List (Node Text)} {left : List Token}
    (hitems : readItems Tag.defaultHandles bound rest = .ok (items, left)) :
    read Tag.defaultHandles place (bound + 1) (frontTokens front ++ .blockSequence :: rest) =
      .ok (.sequence none (front.map Tag.bytesOf) items, left) := by
  cases front with
  | none => simp [frontTokens, read, properties, hplace, hitems]
  | some name => simp [frontTokens, read, properties, Tag.resolve_ofBody, hplace, hitems]

theorem read_blockMapping (hplace : place ≠ .inFlow) {entries : List (Node Text × Node Text)}
    {left : List Token}
    (hentries : readEntries Tag.defaultHandles bound rest = .ok (entries, left)) :
    read Tag.defaultHandles place (bound + 1) (frontTokens front ++ .blockMapping :: rest) =
      .ok (.mapping none (front.map Tag.bytesOf) entries, left) := by
  cases front with
  | none => simp [frontTokens, read, properties, hplace, hentries]
  | some name => simp [frontTokens, read, properties, Tag.resolve_ofBody, hplace, hentries]

theorem read_openItems {items : List (Node Text)} {left : List Token}
    (hitems : readOpenItems Tag.defaultHandles bound (.hyphen :: rest) = .ok (items, left)) :
    read Tag.defaultHandles .ofMapping (bound + 1) (frontTokens front ++ .hyphen :: rest) =
      .ok (.sequence none (front.map Tag.bytesOf) items, left) := by
  cases front with
  | none => simp [frontTokens, read, properties, hitems]
  | some name => simp [frontTokens, read, properties, Tag.resolve_ofBody, hitems]

end steps

/-! ## First tokens -/

/-- Whether the written form of a value may start with the token. -/
def startsValue : Token → Bool
  | .tag _ | .scalar _ _ | .openBracket | .openBrace | .blockSequence | .blockMapping | .hyphen =>
    true
  | _ => false

/-- The tokens of a value start with one of these, and with a hyphen only in a mapping. -/
theorem exists_tokensOf_cons (place : Place) (isAfter : Bool) (value : Value) :
    ∃ token more, tokensOf place isAfter value = token :: more ∧ startsValue token = true ∧
      (token = .hyphen → place = .ofMapping) := by
  match value with
  | .tagged _ _ => exact ⟨_, _, rfl, rfl, by simp⟩
  | .sequence [] | .mapping [] => exact ⟨_, _, rfl, rfl, by simp⟩
  | .mapping (_ :: _) => exact ⟨_, _, rfl, rfl, by simp⟩
  | .sequence (item :: items) =>
    by_cases hopen : (isAfter && place = .ofMapping) = true
    · refine ⟨_, _, by rw [tokensOf, if_neg (by simp), if_pos hopen]; rfl, rfl, fun _ => ?_⟩
      exact of_decide_eq_true (Bool.and_eq_true_iff.mp hopen).2
    · exact ⟨_, _, by rw [tokensOf, if_neg (by simp), if_neg hopen], rfl, by simp⟩
  | .null | .bool _ | .int _ | .float _ | .string _ => exact ⟨_, _, rfl, rfl, by simp⟩

variable {place : Place} {isAfter : Bool} {value : Value}

/-- A value stands in the place of an item. -/
theorem not_isNoItem (isAfter : Bool) (value : Value) (rest : List Token) :
    isNoItem (tokensOf .item isAfter value ++ rest) = false ∧
      isNoOpenItem (tokensOf .item isAfter value ++ rest) = false := by
  obtain ⟨token, more, htokens, hstart, hhyphen⟩ := exists_tokensOf_cons .item isAfter value
  rw [htokens]
  cases token <;> first | exact absurd (hhyphen rfl) (by simp) | exact ⟨rfl, rfl⟩ | cases hstart

/-- A value stands in the place of a key or value. -/
theorem not_isNoEntryPart (place : Place) (isAfter : Bool) (value : Value) (rest : List Token) :
    isNoEntryPart (tokensOf place isAfter value ++ rest) = false := by
  obtain ⟨token, more, htokens, hstart, -⟩ := exists_tokensOf_cons place isAfter value
  rw [htokens]
  cases token <;> first | rfl | cases hstart

/-! ## Whole values -/

/-- A node that is read from the tokens of a value in each place, with as many steps as they
need. -/
def IsRead (value : Value) : Prop :=
  ∀ {place : Place} {isAfter : Bool} {front : Option Text} {bound : Nat} {rest : List Token},
    place ≠ .inFlow → (place = .ofMapping → rest.head? ≠ some .hyphen) →
      (front.isSome → value.isTagged = false) →
        2 * (tokensOf place isAfter value).length + 2 ≤ bound →
          read Tag.defaultHandles place bound
            (frontTokens front ++ (tokensOf place isAfter value ++ rest)) =
            .ok (ofValue (front.map Tag.bytesOf) value, rest)

/-- A value without a tag in front. -/
theorem IsRead.read_eq (h : IsRead value) (hplace : place ≠ .inFlow) (isAfter : Bool)
    {rest : List Token} (hrest : place = .ofMapping → rest.head? ≠ some .hyphen) {bound : Nat}
    (hbound : 2 * (tokensOf place isAfter value).length + 2 ≤ bound) :
    read Tag.defaultHandles place bound (tokensOf place isAfter value ++ rest) =
      .ok (ofValue none value, rest) :=
  @h place isAfter none bound rest hplace hrest (by simp) hbound

/-- The items of a sequence up to its end. -/
theorem readItems_tokensOfItems {items : List Value} (hitems : ∀ item ∈ items, IsRead item)
    {bound : Nat} (hbound : 2 * (tokensOfItems items).length + 1 ≤ bound) (rest : List Token) :
    readItems Tag.defaultHandles bound (tokensOfItems items ++ .blockEnd :: rest) =
      .ok (ofItems items, rest) := by
  induction items generalizing bound with
  | nil =>
    obtain ⟨bound, rfl⟩ := Nat.exists_eq_add_of_le' hbound
    rfl
  | cons item items ih =>
    obtain ⟨hitem, hitems⟩ := List.forall_mem_cons.mp hitems
    rw [tokensOfItems, List.length_cons, List.length_append] at hbound
    obtain ⟨bound, rfl⟩ := Nat.exists_eq_add_of_le' (Nat.le_trans (Nat.le_add_left 1 _) hbound)
    have hfirst : read Tag.defaultHandles .item bound
        (tokensOf .item false item ++ (tokensOfItems items ++ .blockEnd :: rest)) = _ :=
      hitem.read_eq (by simp) false (by simp) (by omega)
    have hothers : readItems Tag.defaultHandles bound
        (tokensOfItems items ++ .blockEnd :: rest) = _ :=
      ih hitems (by omega)
    rw [tokensOfItems, List.cons_append, List.append_assoc, readItems,
      (not_isNoItem false item _).1]
    simp [hfirst, hothers, ofItems]

/-- The items of a sequence that no token ends, up to what is no further item. -/
theorem readOpenItems_tokensOfItems {items : List Value} (hitems : ∀ item ∈ items, IsRead item)
    {bound : Nat} (hbound : 2 * (tokensOfItems items).length + 1 ≤ bound) {rest : List Token}
    (hrest : rest.head? ≠ some .hyphen) :
    readOpenItems Tag.defaultHandles bound (tokensOfItems items ++ rest) =
        .ok (ofItems items, rest) := by
  induction items generalizing bound with
  | nil =>
    obtain ⟨bound, rfl⟩ := Nat.exists_eq_add_of_le' hbound
    match rest, hrest with
    | [], _ => rfl
    | token :: more, hrest => cases token <;> first | exact absurd rfl hrest | rfl
  | cons item items ih =>
    obtain ⟨hitem, hitems⟩ := List.forall_mem_cons.mp hitems
    rw [tokensOfItems, List.length_cons, List.length_append] at hbound
    obtain ⟨bound, rfl⟩ := Nat.exists_eq_add_of_le' (Nat.le_trans (Nat.le_add_left 1 _) hbound)
    have hfirst : read Tag.defaultHandles .item bound
        (tokensOf .item false item ++ (tokensOfItems items ++ rest)) = _ :=
      hitem.read_eq (by simp) false (by simp) (by omega)
    have hothers : readOpenItems Tag.defaultHandles bound (tokensOfItems items ++ rest) = _ :=
      ih hitems (by omega)
    rw [tokensOfItems, List.cons_append, List.append_assoc, readOpenItems,
      (not_isNoItem false item _).2]
    simp [hfirst, hothers, ofItems]

/-- What follows the value of an entry is no item. -/
theorem head?_tokensOfEntries (entries : List (Value × Value)) (rest : List Token) :
    (tokensOfEntries entries ++ .blockEnd :: rest).head? ≠ some .hyphen := by
  match entries with
  | [] | _ :: _ => simp [tokensOfEntries]

/-- The entries of a mapping up to its end. -/
theorem readEntries_tokensOfEntries {entries : List (Value × Value)}
    (hkeys : ∀ entry ∈ entries, IsRead entry.1) (hvalues : ∀ entry ∈ entries, IsRead entry.2)
    {bound : Nat} (hbound : 2 * (tokensOfEntries entries).length + 1 ≤ bound) (rest : List Token) :
    readEntries Tag.defaultHandles bound (tokensOfEntries entries ++ .blockEnd :: rest) =
      .ok (ofEntries entries, rest) := by
  induction entries generalizing bound with
  | nil =>
    obtain ⟨bound, rfl⟩ := Nat.exists_eq_add_of_le' hbound
    rfl
  | cons entry entries ih =>
    obtain ⟨key, value⟩ := entry
    obtain ⟨(hkey : IsRead key), hkeys⟩ := List.forall_mem_cons.mp hkeys
    obtain ⟨(hvalue : IsRead value), hvalues⟩ := List.forall_mem_cons.mp hvalues
    simp only [tokensOfEntries, List.length_cons, List.length_append] at hbound
    obtain ⟨bound, rfl⟩ := Nat.exists_eq_add_of_le' (Nat.le_trans (Nat.le_add_left 1 _) hbound)
    have hfirst : read Tag.defaultHandles .ofMapping bound (tokensOf .ofMapping false key ++
        (.value :: (tokensOf .ofMapping (isSimpleKey key) value ++
          (tokensOfEntries entries ++ .blockEnd :: rest)))) = _ :=
      hkey.read_eq (by simp) false (by simp) (by omega)
    have hsecond : read Tag.defaultHandles .ofMapping bound
      (tokensOf .ofMapping (isSimpleKey key) value ++
        (tokensOfEntries entries ++ .blockEnd :: rest)) = _ :=
      hvalue.read_eq (by simp) (isSimpleKey key) (fun _ => head?_tokensOfEntries entries rest)
        (by omega)
    have hothers : readEntries Tag.defaultHandles bound
        (tokensOfEntries entries ++ .blockEnd :: rest) = _ :=
      ih hkeys hvalues (by omega)
    rw [tokensOfEntries, List.cons_append, List.append_assoc, List.cons_append, List.append_assoc,
      readEntries, not_isNoEntryPart]
    simp [hfirst, not_isNoEntryPart, hsecond, hothers, ofEntries]

/-- The node of a scalar. -/
theorem IsRead.of_isScalar {value : Value} (h : value.IsScalar) : IsRead value := by
  intro place isAfter front bound rest _ _ _ hbound
  obtain ⟨bound, rfl⟩ := Nat.exists_eq_add_of_le' (Nat.le_trans (Nat.le_add_left 1 _) hbound)
  cases h <;> exact read_scalar front _ _

/-- The node of a sequence, whose items are read one after the other. -/
theorem IsRead.sequence {items : List Value} (h : ∀ item ∈ items, IsRead item) :
    IsRead (.sequence items) := by
  intro place isAfter front bound rest hplace hrest _ hbound
  cases items with
  | nil =>
    obtain ⟨bound, rfl⟩ := Nat.exists_eq_add_of_le' (Nat.le_trans (Nat.le_add_left 2 _) hbound)
    exact read_brackets front
  | cons item items =>
    rw [tokensOf, if_neg (by simp)] at hbound ⊢
    obtain ⟨bound, rfl⟩ := Nat.exists_eq_add_of_le' (Nat.le_trans (Nat.le_add_left 1 _) hbound)
    split at hbound
    · next hopen =>
      obtain rfl := of_decide_eq_true (Bool.and_eq_true_iff.mp hopen).2
      rw [if_pos hopen]
      have hitems : readOpenItems Tag.defaultHandles bound
          (tokensOfItems (item :: items) ++ rest) = _ :=
        readOpenItems_tokensOfItems h (by omega) (hrest rfl)
      exact read_openItems front hitems
    · next hopen =>
      rw [if_neg hopen]
      simp only [List.length_cons, List.length_append, List.length_nil] at hbound
      have hitems : readItems Tag.defaultHandles bound
          (tokensOfItems (item :: items) ++ .blockEnd :: rest) = _ :=
        readItems_tokensOfItems h (by omega) rest
      rw [List.cons_append, List.append_assoc]
      exact read_blockSequence front hplace hitems

/-- The node of a mapping, whose entries are read one after the other. -/
theorem IsRead.mapping {entries : List (Value × Value)} (hkeys : ∀ entry ∈ entries, IsRead entry.1)
    (hvalues : ∀ entry ∈ entries, IsRead entry.2) : IsRead (.mapping entries) := by
  intro place isAfter front bound rest hplace _ _ hbound
  cases entries with
  | nil =>
    obtain ⟨bound, rfl⟩ := Nat.exists_eq_add_of_le' (Nat.le_trans (Nat.le_add_left 2 _) hbound)
    exact read_braces front
  | cons entry entries =>
    rw [tokensOf, if_neg (by simp)] at hbound ⊢
    obtain ⟨bound, rfl⟩ := Nat.exists_eq_add_of_le' (Nat.le_trans (Nat.le_add_left 1 _) hbound)
    simp only [List.length_cons, List.length_append, List.length_nil] at hbound
    have hentries : readEntries Tag.defaultHandles bound
        (tokensOfEntries (entry :: entries) ++ .blockEnd :: rest) = _ :=
      readEntries_tokensOfEntries hkeys hvalues (by omega) rest
    rw [List.cons_append, List.append_assoc]
    exact read_blockMapping front hplace hentries

/-- The node of a value under a tag, which no other tag may stand in front of. -/
theorem IsRead.tagged {value : Value} (h : IsRead value) (untagged : value.isTagged = false)
    (tag : Text) : IsRead (.tagged tag value) := by
  intro place isAfter front bound rest hplace hrest hfront hbound
  cases front with
  | some name => exact absurd (hfront rfl) (by simp [Value.isTagged])
  | none =>
    rw [tokensOf, List.length_cons] at hbound
    rw [tokensOf]
    exact @h place true (some tag) bound rest hplace hrest (fun _ => untagged) (by omega)

/-- The tokens of a written value are read as its node. -/
theorem isRead_of_isLoaded {depth : Nat} {value : Value} (h : value.IsLoaded depth) :
    IsRead value := by
  induction h with
  | scalar h => exact IsRead.of_isScalar h
  | sequence parts ih => exact IsRead.sequence ih
  | mapping keys values differ ihKeys ihValues => exact IsRead.mapping ihKeys ihValues
  | @tagged depth tag value named untagged under ih => exact IsRead.tagged ih untagged tag

/-- The node of a document that holds a written value only. -/
theorem ofTokens?_tokensOf {depth : Nat} {value : Value} (h : value.IsLoaded depth) :
    ofTokens? (tokensOf .item false value) = .ok (some (ofValue none value)) := by
  obtain ⟨token, more, htokens, hstart, -⟩ := exists_tokensOf_cons .item false value
  have hcontent : isNoContent (tokensOf .item false value) = false := by
    rw [htokens]
    cases token <;> first | rfl | cases hstart
  have hne : tokensOf .item false value ≠ [] := htokens ▸ List.cons_ne_nil _ _
  have hread : read Tag.defaultHandles .item (2 * (tokensOf .item false value).length + 2)
      (tokensOf .item false value ++ []) = _ :=
    IsRead.read_eq (isRead_of_isLoaded h) (by simp) false (by simp) (Nat.le_refl _)
  rw [List.append_nil] at hread
  rw [ofTokens?, if_neg hne, readDocument, hcontent]
  simp [hread]

end HostKit.Yaml.Node
