import HostKit.Proofs.Text.Pieces
import HostKit.Proofs.Yaml.WrittenValues
import HostKit.Yaml.Node

/-!
# The tokens of written values

A collection is written as parts at one column, one below the other. Each part leads from wherever
it starts to the tokens of its values, and a part followed by another one at the same column is a
part again, so a whole collection is one. By induction on a value the text that it is written as
leads to its tokens, unless a tag in it is refused.
-/

namespace HostKit.Yaml

/-! ## Tags -/

mutual

/-- The names of the tags in a value. -/
def Value.tags : Value → List Text
  | .sequence items => tagsOfItems items
  | .mapping entries => tagsOfEntries entries
  | .tagged tag value => tag :: Value.tags value
  | _ => []

/-- The names of the tags in the items of a sequence. -/
def tagsOfItems : List Value → List Text
  | [] => []
  | item :: rest => Value.tags item ++ tagsOfItems rest

/-- The names of the tags in the keys and values of a mapping. -/
def tagsOfEntries : List (Value × Value) → List Text
  | [] => []
  | (key, value) :: rest => Value.tags key ++ Value.tags value ++ tagsOfEntries rest

end

/-- Every tag in the value has the property. -/
def Value.AllTags (p : Text → Prop) (value : Value) : Prop := ∀ tag ∈ value.tags, p tag

section tags

variable {p : Text → Prop}

theorem Value.AllTags.sequence_iff {items : List Value} :
    (Value.sequence items).AllTags p ↔ ∀ item ∈ items, item.AllTags p := by
  change (∀ tag ∈ tagsOfItems items, p tag) ↔ _
  induction items with
  | nil => simp [tagsOfItems]
  | cons item items ih =>
    rw [tagsOfItems, List.forall_mem_append, ih, List.forall_mem_cons]
    rfl

theorem Value.AllTags.mapping_iff {entries : List (Value × Value)} :
    (Value.mapping entries).AllTags p ↔
      ∀ entry ∈ entries, entry.1.AllTags p ∧ entry.2.AllTags p := by
  change (∀ tag ∈ tagsOfEntries entries, p tag) ↔ _
  induction entries with
  | nil => simp [tagsOfEntries]
  | cons entry entries ih =>
    rw [tagsOfEntries, List.forall_mem_append, List.forall_mem_append, ih, List.forall_mem_cons]
    rfl

theorem Value.AllTags.tagged_iff {tag : Text} {value : Value} :
    (Value.tagged tag value).AllTags p ↔ p tag ∧ value.AllTags p := List.forall_mem_cons

/-- A value without parts has no tags. -/
theorem Value.IsLeaf.allTags {value : Value} (h : value.IsLeaf) : value.AllTags p := by
  cases h with
  | scalar h => cases h <;> exact fun tag htag => absurd htag List.not_mem_nil
  | noItems | noEntries => exact fun tag htag => absurd htag List.not_mem_nil

end tags

/-! ## Tokens -/

mutual

/-- The tokens of a value, on the line of an indicator or after a key or tag. A sequence after a
key, or after a tag in the place of a key or value, stands at the column of the mapping and is
neither opened nor closed. -/
def tokensOf : (place : Node.Place) → (isAfter : Bool) → Value → List Token
  | place, _, .tagged tag value =>
    .tag (Tag.ofBody (Tag.bodyOf tag)) :: tokensOf place true value
  | place, isAfter, .sequence items =>
    if items.isEmpty then leafTokens (.sequence [])
    else if isAfter && place = .ofMapping then tokensOfItems items
    else .blockSequence :: (tokensOfItems items ++ [.blockEnd])
  | _, _, .mapping entries =>
    if entries.isEmpty then leafTokens (.mapping [])
    else .blockMapping :: (tokensOfEntries entries ++ [.blockEnd])
  | _, _, value => leafTokens value

/-- The tokens of the items of a sequence. -/
def tokensOfItems : List Value → List Token
  | [] => []
  | item :: rest => .hyphen :: (tokensOf .item false item ++ tokensOfItems rest)

/-- The tokens of the entries of a mapping. The value of a key before a colon stands after it. -/
def tokensOfEntries : List (Value × Value) → List Token
  | [] => []
  | (key, value) :: rest =>
    .key :: (tokensOf .ofMapping false key ++
      .value :: (tokensOf .ofMapping (isSimpleKey key) value ++ tokensOfEntries rest))

end

/-- The tokens of a value without parts are the same in every place. -/
theorem Value.IsLeaf.tokensOf {value : Value} (h : value.IsLeaf) (place : Node.Place)
    (isAfter : Bool) :
    Yaml.tokensOf place isAfter value = leafTokens value := by
  cases h with
  | scalar h => cases h <;> rfl
  | noItems | noEntries => rfl

/-! ## Parts of a collection -/

/-- A text ends as its second half does. -/
theorem endsWith_append {test : Char → Bool} {text later : Text} (h : endsWith test later = true) :
    endsWith test (text ++ later) = true := by
  unfold endsWith at h ⊢
  cases hlast : later.getLast? with
  | none => simp [hlast] at h
  | some c => simpa [List.getLast?_append, hlast] using h

/-- A text starts as its first half does. -/
theorem start_append {text : Text} (h : ∃ c ∈ text.head?, isStart c = true) (later : Text) :
    ∃ c ∈ (text ++ later).head?, isStart c = true := by
  obtain ⟨c, hc, hstart⟩ := h
  exact ⟨c, by simp [List.head?_append, Option.mem_def.mp hc], hstart⟩

/-- A text at a column that leads to tokens inside a collection at this column, if it can be
read. -/
structure Part (column : Nat) (collection : Token) (readable : Prop) (text : Text)
    (found : List Token) : Prop where
  written : IsWritten text
  start : ∃ c ∈ text.head?, isStart c = true
  ended : endsWith isBreak text = true
  leads : ∀ {stage : Stage} {spot : Spot} {key : Option PossibleKey} {rest : Text},
    stage.inner ≤ column + 1 → spot.column = column → IsFree key → IsOutside (column + 1) rest →
      Lexer.Leads readable (Lexer.on stage spot (text ++ rest) key true)
        ((stage.opened column collection).emit found) (spot.after text) rest

theorem isWritten_append {text later : Text} (h : IsWritten text) (h' : IsWritten later) :
    IsWritten (text ++ later) := List.forall_mem_append.mpr ⟨h, h'⟩

theorem isWritten_spaces (count : Nat) : IsWritten (spaces count) := by
  intro c hc
  rw [List.eq_of_mem_replicate hc]
  decide

namespace Part

variable {column : Nat} {collection : Token} {p q : Prop} {text later : Text}
    {found more : List Token}

/-- What starts at a column is outside what is open further in. -/
theorem isOutside (h : Part column collection p text found) (rest : Text) :
    IsOutside (column + 1) (spaces column ++ (text ++ rest)) := by
  obtain ⟨c, hc, hstart⟩ := h.start
  obtain ⟨tail, rfl⟩ : ∃ tail, text = c :: tail := List.head?_eq_some_iff.mp hc
  exact .inr ⟨column, c, tail ++ rest, rfl, hstart, Nat.lt_succ_self _⟩

/-- A part and another one below it. -/
theorem append (h : Part column collection p text found)
    (h' : Part column collection q later more) :
    Part column collection (p ∧ q) (text ++ spaces column ++ later) (found ++ more) := by
  refine ⟨isWritten_append (isWritten_append h.written (isWritten_spaces column)) h'.written, ?_,
    endsWith_append h'.ended, ?_⟩
  · rw [List.append_assoc]
    exact start_append h.start _
  · intro stage spot key rest hinner hcolumn hkey hrest
    have hfirst := h.leads hinner hcolumn hkey (h'.isOutside rest)
    have hline := spot.after_of_endsWith h.ended
    have hopen : ((stage.opened column collection).emit found).inner = column + 1 :=
      Stage.inner_opened collection hinner
    have hstage :
        (((stage.opened column collection).emit found).opened column collection).emit more =
          (stage.opened column collection).emit (found ++ more) := by
      rw [Stage.opened_of_lt collection (by omega), Stage.emit_emit]
    rw [List.append_assoc, List.append_assoc, List.append_assoc, Spot.after_append,
      Spot.after_append,
      ← hstage]
    refine hfirst.andThen fun key hkey => ?_
    refine .after (Lexer.reads_spaces _ _ column _ key true) ?_
    refine h'.leads (Nat.le_of_eq hopen) ?_ hkey.isFree hrest
    rw [Spot.after_spaces, hline.1]
    exact Nat.zero_add column

/-- A part that is a whole collection. -/
theorem leads_bracketed (h : Part column collection p text found) {stage : Stage} {spot : Spot}
    {key : Option PossibleKey} {rest : Text} (hinner : stage.inner ≤ column + 1)
    (hcolumn : spot.column = column) (hkey : IsFree key) (hrest : IsOutside stage.inner rest) :
    Lexer.Leads p (Lexer.on stage spot (text ++ rest) key true)
      (stage.emit (stage.bracketed column collection found)) (spot.after text) rest :=
  (h.leads hinner hcolumn hkey (hrest.mono hinner)).close fun key =>
    Lexer.reads_bracketed hrest column collection found _ key (spot.after_of_endsWith h.ended).1

/-- A part and others below it. -/
theorem cons (h : Part column collection p text found) {others : List Text}
    (h' : Part column collection q (lines column others) more) :
    Part column collection (p ∧ q) (lines column (text :: others)) (found ++ more) := by
  cases others with
  | nil =>
    obtain ⟨c, hc, -⟩ := h'.start
    cases hc
  | cons other others => exact h.append h'

theorem congr (h : Part column collection p text found) (hiff : p ↔ q) :
    Part column collection q text found :=
  ⟨h.written, h.start, h.ended, fun hinner hcolumn hkey hrest =>
    (h.leads hinner hcolumn hkey hrest).congr hiff⟩

end Part

/-! ## Values in their slots -/

/-- The slot is one inside a collection whose lines start before the column: a value on the line of
an indicator stands further in, and so does a sequence on a line of its own, but for one in a
mapping. -/
structure Slot.Fits (slot : Slot) (place : Node.Place) (inner : Nat) : Prop where
  collection : inner ≤ slot.collection
  text : slot.text = inner - 1 + indentStep
  sequence :
    if place = .ofMapping then inner = slot.sequence + 1 else slot.sequence = slot.collection

theorem Slot.fits_document : Slot.document.Fits .item 0 := ⟨Nat.le_refl _, rfl, rfl⟩

theorem Slot.fits_item (column : Nat) : (Slot.item column).Fits .item (column + 1) :=
  ⟨Nat.le_succ _, rfl, rfl⟩

theorem Slot.fits_part (column : Nat) : (Slot.part column).Fits .ofMapping (column + 1) :=
  ⟨Nat.le_succ _, rfl, rfl⟩

/-- A sequence on a line of its own is open already exactly in a mapping. -/
theorem Slot.Fits.sequence_lt_iff {slot : Slot} {place : Node.Place} {inner : Nat}
    (h : slot.Fits place inner) :
    inner ≤ slot.sequence + 1 ∧ (slot.sequence < inner ↔ place = .ofMapping) := by
  have hsequence := h.sequence
  have hcollection := h.collection
  split at hsequence
  · next hplace => exact ⟨by omega, iff_of_true (by omega) hplace⟩
  · next hplace => exact ⟨by omega, iff_of_false (by omega) hplace⟩

/-- The text leads to the tokens of the value where the line of an indicator goes on. -/
structure WrittenInline (slot : Slot) (value : Value) (text : Text) : Prop where
  written : IsWritten text
  ended : endsWith isBreak text = true
  leads : ∀ {place : Node.Place} {stage : Stage} {spot : Spot} {key : Option PossibleKey}
    {rest : Text},
    slot.Fits place stage.inner → spot.column = slot.collection → IsHere spot key →
      IsOutside stage.inner rest →
        Lexer.Leads (value.AllTags Tag.IsReadable) (Lexer.on stage spot (text ++ rest) key true)
          (stage.emit (tokensOf place false value)) (spot.after text) rest

/-- The text leads to the tokens of the value after a key or a tag. -/
structure WrittenAfter (slot : Slot) (value : Value) (text : Text) : Prop where
  written : IsWritten text
  gap : ∃ c ∈ text.head?, isGap c = true
  ended : endsWith isBreak text = true
  leads : ∀ {place : Node.Place} {stage : Stage} {spot : Spot} {key : Option PossibleKey}
    {rest : Text},
    slot.Fits place stage.inner → stage.inner ≤ spot.column → IsHere spot key →
      IsOutside stage.inner rest →
        Lexer.Leads (value.AllTags Tag.IsReadable) (Lexer.on stage spot (text ++ rest) key false)
          (stage.emit (tokensOf place true value)) (spot.after text) rest

/-! ## Values without parts -/

section leaves

variable {slot : Slot} {value : Value}

/-- Further lines of a value without parts are indented in every slot. -/
theorem Value.IsLeaf.form_of_slot (h : value.IsLeaf) (hslot : slot.text ≠ 0) :
    LeafForm slot.text value :=
  h.form fun _ _ _ => hslot

theorem Value.IsLeaf.writtenInline (h : value.IsLeaf) (hslot : slot.text ≠ 0) :
    WrittenInline slot value (endLine (printLeaf slot.text value)) := by
  refine ⟨(h.form_of_slot hslot).isWritten, endsWith_endLine _, ?_⟩
  intro place stage spot key rest hfits hcolumn hkey hrest
  rw [h.tokensOf]
  exact ((h.form_of_slot hslot).leads hfits.text hkey (hcolumn ▸ hfits.collection) hrest).congr
    (iff_of_true trivial h.allTags)

theorem Value.IsLeaf.writtenAfter (h : value.IsLeaf) (hslot : slot.text ≠ 0) :
    WrittenAfter slot value (" " ++ endLine (printLeaf slot.text value)) := by
  have hspace : IsWritten " ".toList := by decide
  refine ⟨isWritten_append hspace (h.form_of_slot hslot).isWritten, ⟨' ', rfl, by decide⟩,
    endsWith_append (endsWith_endLine _), ?_⟩
  intro place stage spot key rest hfits hinner hkey hrest
  have hnext : spot.next ' ' = ⟨spot.index + 1, spot.line, spot.column + 1⟩ :=
    Spot.next_of_not_break spot (by decide)
  rw [h.tokensOf]
  refine .after (Lexer.reads_space stage spot _ key false) ?_
  refine ((h.form_of_slot hslot).leads hfits.text ?_ ?_ hrest).congr (iff_of_true trivial h.allTags)
  · exact hkey.mono (by rw [hnext])
  · rw [hnext]
    exact Nat.le_succ_of_le hinner

end leaves

/-! ## Items -/

section indicators

variable {column : Nat} {value : Value} {text rest : Text} {stage : Stage} {spot : Spot}

/-- A value after an indicator and a space, which open a collection at a column or are inside it. -/
theorem WrittenInline.leads_indicator {slot : Slot} {place : Node.Place}
    (h : WrittenInline slot value text)
    (hfits : slot.Fits place (column + 1)) (hslot : slot.collection = column + 2) {indicator : Char}
    (hbreak : isBreak indicator = false) (hinner : stage.inner = column + 1)
    (hcolumn : spot.column = column) (hrest : IsOutside (column + 1) rest) {lexer : Lexer}
    {token : Token} (hreads : lexer.Reads
      (Lexer.on (stage.emit [token]) (spot.after [indicator, ' ']) (text ++ rest)
      none true)) :
    lexer.Leads (value.AllTags Tag.IsReadable) (stage.emit (token :: tokensOf place false value))
      (spot.after (indicator :: ' ' :: text)) rest := by
  have hspace : isBreak ' ' = false := by decide
  have hafter : (spot.after [indicator, ' ']).column = slot.collection := by
    rw [Spot.after_of_not_break spot (by simp [hbreak, hspace]), hslot, ← hcolumn]
    rfl
  have hstage : (stage.emit [token]).inner = column + 1 := hinner
  have hleads := h.leads (hstage ▸ hfits) hafter (isHere_none _) (hstage ▸ hrest)
  rw [Stage.emit_emit] at hleads
  exact .after hreads hleads

/-- An item after its hyphen. -/
theorem WrittenInline.item (h : WrittenInline (.item column) value text) :
    Part column .blockSequence (value.AllTags Tag.IsReadable) ("- " ++ text)
      (.hyphen :: tokensOf .item false value) := by
  have hhyphen : IsWritten "- ".toList := by decide
  refine ⟨isWritten_append hhyphen h.written, ⟨'-', rfl, by decide⟩, endsWith_append h.ended, ?_⟩
  intro stage spot key rest hinner hcolumn hkey hrest
  have hreads := Lexer.reads_hyphen (text ++ rest) hkey (hcolumn ▸ hinner)
  rw [hcolumn] at hreads
  exact h.leads_indicator (Slot.fits_item column) rfl (by decide)
    (Stage.inner_opened .blockSequence hinner) hcolumn hrest hreads

/-- A key after its question mark. -/
theorem WrittenInline.leads_question (h : WrittenInline (.part column) value text)
    (hinner : stage.inner ≤ column + 1) (hcolumn : spot.column = column) {key : Option PossibleKey}
    (hkey : IsFree key) (hrest : IsOutside (column + 1) rest) :
    Lexer.Leads (value.AllTags Tag.IsReadable) (Lexer.on stage spot ("? " ++ text ++ rest) key true)
      ((stage.opened column .blockMapping).emit (.key :: tokensOf .ofMapping false value))
      (spot.after ("? " ++ text)) rest := by
  have hreads := Lexer.reads_question (text ++ rest) hkey (hcolumn ▸ hinner)
  rw [hcolumn] at hreads
  exact h.leads_indicator (Slot.fits_part column) rfl (by decide)
    (Stage.inner_opened .blockMapping hinner) hcolumn hrest hreads

/-- The value below a key, after its colon. -/
theorem WrittenInline.leads_value (h : WrittenInline (.part column) value text)
    (hinner : stage.inner = column + 1) (hcolumn : spot.column = 0) {key : Option PossibleKey}
    (hkey : IsPast spot key) (hrest : IsOutside (column + 1) rest) :
    Lexer.Leads (value.AllTags Tag.IsReadable)
      (Lexer.on stage spot (spaces column ++ (": " ++ text) ++ rest) key true)
      (stage.emit (.value :: tokensOf .ofMapping false value))
      (spot.after (spaces column ++ (": " ++ text))) rest := by
  have hafter := Spot.after_spaces spot column
  have hcolumn' : (spot.after (spaces column)).column = column := by
    rw [hafter, hcolumn]
    exact Nat.zero_add column
  have hpast : IsPast (spot.after (spaces column)) key := hkey.mono (by rw [hafter])
  have hspaces := Lexer.reads_spaces stage spot column (": " ++ text ++ rest) key true
  have hreads := Lexer.reads_value (text ++ rest) hpast (hcolumn'.symm ▸ hinner)
  have hleads := h.leads_indicator (Slot.fits_part column) rfl (by decide) hinner hcolumn' hrest
    (hspaces.trans hreads)
  rw [List.append_assoc, Spot.after_append]
  exact hleads

end indicators

/-- In each place where the value is written, its text leads to its tokens. -/
structure Value.LeadsToTokens (value : Value) : Prop where
  inline : ∀ slot text, slot.text ≠ 0 → printInline slot value = .ok text →
    WrittenInline slot value text
  after : ∀ slot isTagged text, slot.text ≠ 0 → printAfter slot isTagged value = .ok text →
    WrittenAfter slot value text

/-- The items of a sequence. -/
theorem part_items {column : Nat} {items : List Value}
    (hitems : ∀ item ∈ items, item.LeadsToTokens)
    {parts : List Text} (hparts : printItems column items = .ok parts) (hne : items ≠ []) :
    Part column .blockSequence (∀ item ∈ items, item.AllTags Tag.IsReadable) (lines column parts)
      (tokensOfItems items) := by
  induction items generalizing parts with
  | nil => exact absurd rfl hne
  | cons item items ih =>
    obtain ⟨hitem, hitems⟩ := List.forall_mem_cons.mp hitems
    obtain ⟨text, htext, hparts⟩ := Success.of_bind hparts
    obtain ⟨later, hlater, hparts⟩ := Success.of_bind hparts
    obtain rfl := Except.ok.inj hparts
    have hfirst := (hitem.inline _ text (Nat.succ_ne_zero _) htext).item
    cases items with
    | nil =>
      obtain rfl := Except.ok.inj hlater
      simpa [lines, Text.join, tokensOfItems] using hfirst
    | cons next items =>
      exact (hfirst.cons (ih hitems hlater (List.cons_ne_nil _ _))).congr List.forall_mem_cons.symm

/-! ## Entries -/

/-- A key after a question mark and the value below it. -/
theorem WrittenInline.entry {column : Nat} {key value : Value} {keyText text : Text}
    (hkey : WrittenInline (.part column) key keyText)
    (hvalue : WrittenInline (.part column) value text) :
    Part column .blockMapping (key.AllTags Tag.IsReadable ∧ value.AllTags Tag.IsReadable)
      ("? " ++ keyText ++ (spaces column ++ (": " ++ text)))
      (.key :: (tokensOf .ofMapping false key ++ .value :: tokensOf .ofMapping false value)) := by
  have hmark : IsWritten "? ".toList := by decide
  have hcolon : IsWritten ": ".toList := by decide
  refine ⟨isWritten_append (isWritten_append hmark hkey.written) (isWritten_append
    (isWritten_spaces column) (isWritten_append hcolon hvalue.written)), ⟨'?', rfl, by decide⟩,
    endsWith_append (endsWith_append (endsWith_append hvalue.ended)), ?_⟩
  intro stage spot possible rest hinner hcolumn hfree hrest
  have hbelow : IsOutside (column + 1) (spaces column ++ (": " ++ text) ++ rest) :=
    .inr ⟨column, ':', ' ' :: (text ++ rest), by simp, by decide, Nat.lt_succ_self column⟩
  have hended : endsWith isBreak ("? " ++ keyText) = true := endsWith_append hkey.ended
  have hopened : ((stage.opened column .blockMapping).emit
      (.key :: tokensOf .ofMapping false key)).inner = column + 1 :=
    Stage.inner_opened .blockMapping hinner
  have hleads := (hkey.leads_question hinner hcolumn hfree hbelow).andThen fun _ hpast =>
    hvalue.leads_value hopened (spot.after_of_endsWith hended).1 hpast hrest
  rw [Stage.emit_emit] at hleads
  rw [List.append_assoc, Spot.after_append]
  exact hleads

/-- A key before a colon: where it can be read it is the row of its tokens, and else it is
refused. -/
structure IsKeyOf (key : Value) (text : Text) : Prop where
  inLine : ∀ c ∈ text, IsInLine c
  start : ∃ c ∈ text.head?, isStart c = true
  length_le : text.length ≤ Lexer.maxKeyLength
  reads : key.AllTags Tag.IsReadable → IsKeyText text (tokensOf .ofMapping false key)
  fails : ¬key.AllTags Tag.IsReadable →
    ∀ {stage : Stage} {spot : Spot} {possible : Option PossibleKey},
    IsFree possible → stage.inner ≤ spot.column + 1 → ∀ rest : Text,
      (Lexer.on stage spot (text ++ rest) possible true).Fails

/-- A value that counts as a key has no parts. -/
theorem Value.IsLoaded.isLeaf {depth : Nat} {value : Value} (h : value.IsLoaded depth) {size : Nat}
    (hsize : leafKeySize? value = some size) : value.IsLeaf := by
  cases h with
  | scalar h => exact .scalar h
  | @sequence _ items _ =>
    cases items with
    | nil => exact .noItems
    | cons _ _ => cases hsize
  | @mapping _ entries _ _ _ =>
    cases entries with
    | nil => exact .noEntries
    | cons _ _ => cases hsize
  | tagged _ _ _ => cases hsize

/-- A value that stands before a colon. -/
theorem isKeyOf_printSimpleKey {depth : Nat} {key : Value} (h : key.IsLoaded depth)
    (hsimple : isSimpleKey key = true) : IsKeyOf key (printSimpleKey key) := by
  have hlength := length_printSimpleKey_le hsimple
  obtain ⟨size, -, hleaf, hprint⟩ | ⟨tag, value, size, rfl, hleaf, -⟩ := isSimpleKey_cases hsimple
  · have hvalue := h.isLeaf hleaf
    have hkey := hvalue.isKeyText hleaf
    rw [hprint] at hlength ⊢
    refine ⟨hkey.inLine, hkey.start, hlength, fun _ => ?_, fun hnot => absurd hvalue.allTags hnot⟩
    rw [hvalue.tokensOf]
    exact hkey
  · have under : value.IsLoaded depth := by
      cases h with
      | scalar h => cases h
      | tagged _ _ under => exact under
    have hvalue := under.isLeaf hleaf
    have hkey := hvalue.isKeyText hleaf
    have htags : (Value.tagged tag value).AllTags Tag.IsReadable ↔ Tag.IsReadable tag :=
      Value.AllTags.tagged_iff.trans (and_iff_left hvalue.allTags)
    refine ⟨isInLine_tagged hkey.inLine tag, start_tagged tag _, hlength, fun hreadable => ?_,
      fun hnot stage spot possible hfree hinner rest => ?_⟩
    · rw [Yaml.tokensOf, hvalue.tokensOf]
      exact hkey.tagged (htags.mp hreadable)
    · rw [printSimpleKey, List.append_assoc, List.append_assoc]
      exact fails_write (mt htags.mpr hnot) (fun _ => hfree) hinner _

/-- A key before a colon and the value after it. -/
theorem WrittenAfter.entry {column : Nat} {key value : Value} {keyText text : Text}
    (hkey : IsKeyOf key keyText) (hvalue : WrittenAfter (.part column) value text) :
    Part column .blockMapping (key.AllTags Tag.IsReadable ∧ value.AllTags Tag.IsReadable)
      (keyText ++ (":" ++ text))
      (.key :: (tokensOf .ofMapping false key ++ .value :: tokensOf .ofMapping true value)) := by
  have hcolon : IsWritten ":".toList := by decide
  have hwritten : IsWritten keyText := fun c hc => (hkey.inLine c hc).1
  refine ⟨isWritten_append hwritten (isWritten_append hcolon hvalue.written), ?_,
    endsWith_append (endsWith_append hvalue.ended), ?_⟩
  · exact start_append hkey.start _
  intro stage spot possible rest hinner hcolumn hfree hrest
  have hinner' : stage.inner ≤ spot.column + 1 := hcolumn ▸ hinner
  by_cases hreadable : key.AllTags Tag.IsReadable
  · have hafter : spot.after keyText =
        ⟨spot.index + keyText.length, spot.line, spot.column + keyText.length⟩ :=
      Spot.after_of_not_break spot fun c hc => (hkey.inLine c hc).2
    have hnext : ((spot.after keyText).next ':').column = spot.column + keyText.length + 1 := by
      rw [Spot.next_of_not_break _ (by decide), hafter]
    have hgap : Source.atGap (((spot.after keyText).next ':').source (text ++ rest)) = true := by
      obtain ⟨c, hc, hgap⟩ := hvalue.gap
      obtain ⟨tail, rfl⟩ := List.head?_eq_some_iff.mp hc
      exact hgap
    have hreads := (hkey.reads hreadable).reads_colon hkey.length_le hfree hinner' hgap
    rw [hcolumn] at hreads
    have hopened : ((stage.opened column .blockMapping).emit
        (.key :: (tokensOf .ofMapping false key ++ [.value]))).inner = column + 1 :=
      Stage.inner_opened .blockMapping hinner
    have hleads := hvalue.leads (hopened ▸ Slot.fits_part column) (by rw [hopened, hnext]; omega)
      (isHere_none _) (hopened ▸ hrest)
    have hfound :
        Token.key :: (tokensOf .ofMapping false key ++ [.value]) ++ tokensOf .ofMapping true value =
          .key :: (tokensOf .ofMapping false key ++ .value :: tokensOf .ofMapping true value) := by
      simp
    rw [Stage.emit_emit, hfound] at hleads
    rw [Spot.after_append, List.append_assoc]
    exact .after hreads (hleads.congr (and_iff_right hreadable).symm)
  · exact ⟨fun h => absurd h.1 hreadable, fun _ =>
      (List.append_assoc keyText _ rest) ▸ hkey.fails hreadable hfree hinner' _⟩

/-- The entries of a mapping. -/
theorem part_entries {column depth : Nat} {entries : List (Value × Value)}
    (hloaded : ∀ entry ∈ entries, entry.1.IsLoaded depth)
    (hkeys : ∀ entry ∈ entries, entry.1.LeadsToTokens)
    (hvalues : ∀ entry ∈ entries, entry.2.LeadsToTokens)
    {parts : List Text} (hparts : printEntries column entries = .ok parts) (hne : entries ≠ []) :
    Part column .blockMapping
      (∀ entry ∈ entries, entry.1.AllTags Tag.IsReadable ∧ entry.2.AllTags Tag.IsReadable)
      (lines column parts) (tokensOfEntries entries) := by
  induction entries generalizing parts with
  | nil => exact absurd rfl hne
  | cons entry entries ih =>
    obtain ⟨key, value⟩ := entry
    obtain ⟨hloadedKey, hloaded⟩ := List.forall_mem_cons.mp hloaded
    obtain ⟨hkey, hkeys⟩ := List.forall_mem_cons.mp hkeys
    obtain ⟨hvalue, hvalues⟩ := List.forall_mem_cons.mp hvalues
    obtain ⟨text, later, rfl, hlater, htext⟩ := of_printEntries_cons hparts
    have hfirst : Part column .blockMapping
        (key.AllTags Tag.IsReadable ∧ value.AllTags Tag.IsReadable) text
        (.key :: (tokensOf .ofMapping false key ++
          .value :: tokensOf .ofMapping (isSimpleKey key) value)) := by
      cases htext with
      | simple hsimple hvalueText htext =>
        rw [hsimple, htext]
        exact (hvalue.after _ _ _ (Nat.succ_ne_zero _) hvalueText).entry
          (isKeyOf_printSimpleKey hloadedKey hsimple)
      | marked hmarked hkeyText hvalueText htext =>
        rw [hmarked, htext]
        exact (hkey.inline _ _ (Nat.succ_ne_zero _) hkeyText).entry
          (hvalue.inline _ _ (Nat.succ_ne_zero _) hvalueText)
    cases entries with
    | nil =>
      obtain rfl := Except.ok.inj hlater
      simpa [lines, Text.join, tokensOfEntries] using hfirst
    | cons next entries =>
      have hall := hfirst.cons (ih hloaded hkeys hvalues hlater (List.cons_ne_nil _ _))
      rw [List.forall_mem_cons]
      simpa [tokensOfEntries] using hall

/-! ## Values with a tag -/

section tagged

variable {slot : Slot} {value : Value} {text : Text}

/-- A tag and the value under it. -/
theorem WrittenAfter.leads_tagged (h : WrittenAfter slot value text) (tag : Text)
    {place : Node.Place} {stage : Stage} {spot : Spot}
    {key : Option PossibleKey} {keyAllowed : Bool} {rest : Text}
    (hfits : slot.Fits place stage.inner) (hinner : stage.inner ≤ spot.column)
    (hkey : IsHere spot key) (hrest : IsOutside stage.inner rest) :
    Lexer.Leads ((Value.tagged tag value).AllTags Tag.IsReadable)
      (Lexer.on stage spot (Tag.write tag ++ text ++ rest) key keyAllowed)
      (stage.emit (.tag (Tag.ofBody (Tag.bodyOf tag)) :: tokensOf place true value))
      (spot.after (Tag.write tag ++ text)) rest := by
  have hinner' : stage.inner ≤ spot.column + 1 := Nat.le_succ_of_le hinner
  rw [List.append_assoc, Spot.after_append]
  by_cases htag : Tag.IsReadable tag
  · have hgap : ∀ c ∈ (text ++ rest).head?, isGap c = true := by
      obtain ⟨c, hc, hgap⟩ := h.gap
      obtain ⟨tail, rfl⟩ := List.head?_eq_some_iff.mp hc
      simpa using hgap
    have hafter := after_write spot tag
    have hhere : IsHere (spot.after (Tag.write tag))
        (Lexer.noted stage (spot.placed '!') key keyAllowed) :=
      (Lexer.isHere_noted hkey fun _ => hinner).mono (spot.line_le_after _)
    have hcolumn : stage.inner ≤ (spot.after (Tag.write tag)).column := by
      rw [hafter]
      exact Nat.le_trans hinner (Nat.le_add_right _ _)
    have hleads := @h.leads place (stage.emit [.tag (Tag.ofBody (Tag.bodyOf tag))])
      (spot.after (Tag.write tag)) _ rest hfits hcolumn hhere hrest
    rw [Stage.emit_emit] at hleads
    refine .after (reads_write htag (fun _ => hkey.isFree) hinner' (text ++ rest) hgap) ?_
    exact hleads.congr ((and_iff_right htag).symm.trans Value.AllTags.tagged_iff.symm)
  · exact ⟨fun h => absurd (Value.AllTags.tagged_iff.mp h).1 htag, fun _ =>
      fails_write htag (fun _ => hkey.isFree) hinner' _⟩

/-- A tag on the line of an indicator. -/
theorem WrittenAfter.tagged_inline (h : WrittenAfter slot value text) (tag : Text) :
    WrittenInline slot (.tagged tag value) (Tag.write tag ++ text) := by
  have hwritten : IsWritten (Tag.write tag) := fun c hc => (Tag.isInLine_write tag c hc).1
  refine ⟨isWritten_append hwritten h.written, endsWith_append h.ended, ?_⟩
  intro place stage spot key rest hfits hcolumn hkey hrest
  rw [tokensOf]
  exact h.leads_tagged tag hfits (hcolumn ▸ hfits.collection) hkey hrest

/-- A tag after a key. -/
theorem WrittenAfter.tagged_after (h : WrittenAfter slot value text) (tag : Text) :
    WrittenAfter slot (.tagged tag value) (" " ++ (Tag.write tag ++ text)) := by
  have hspace : IsWritten " ".toList := by decide
  have hwritten : IsWritten (Tag.write tag) := fun c hc => (Tag.isInLine_write tag c hc).1
  refine ⟨isWritten_append hspace (isWritten_append hwritten h.written), ⟨' ', rfl, by decide⟩,
    endsWith_append (endsWith_append h.ended), ?_⟩
  intro place stage spot key rest hfits hinner hkey hrest
  have hnext : spot.next ' ' = ⟨spot.index + 1, spot.line, spot.column + 1⟩ :=
    Spot.next_of_not_break spot (by decide)
  rw [tokensOf]
  refine .after (Lexer.reads_space stage spot _ key false) ?_
  refine h.leads_tagged tag hfits ?_ ?_ hrest
  · rw [hnext]
    exact Nat.le_succ_of_le hinner
  · exact hkey.mono (by rw [hnext])

end tagged

/-! ## Collections -/

section collections

variable {slot : Slot} {value : Value} {collection : Token} {p : Prop} {text : Text}
    {found : List Token}

/-- A collection on the line of an indicator. -/
theorem Part.writtenInline (h : Part slot.collection collection p text found)
    (hp : p ↔ value.AllTags Tag.IsReadable)
    (hfound : ∀ place, tokensOf place false value = collection :: (found ++ [.blockEnd])) :
    WrittenInline slot value text := by
  refine ⟨h.written, h.ended, ?_⟩
  intro place stage spot key rest hfits hcolumn hkey hrest
  have hleads := h.leads_bracketed (Nat.le_succ_of_le hfits.collection) hcolumn hkey.isFree hrest
  rw [Stage.bracketed, if_neg (Nat.not_lt.mpr hfits.collection)] at hleads
  rw [hfound]
  exact hleads.congr hp

/-- A collection on lines of its own. -/
theorem Part.writtenAfter {column : Nat} (h : Part column collection p text found)
    (hp : p ↔ value.AllTags Tag.IsReadable)
    (hfound : ∀ place inner, slot.Fits place inner →
      inner ≤ column + 1 ∧ tokensOf place true value =
      if column < inner then found else collection :: (found ++ [.blockEnd])) :
    WrittenAfter slot value ("\n" ++ (spaces column ++ text)) := by
  have hfeed : IsWritten "\n".toList := by decide
  refine ⟨isWritten_append hfeed (isWritten_append (isWritten_spaces column) h.written),
    ⟨'\n', rfl, by decide⟩, endsWith_append (endsWith_append h.ended), ?_⟩
  intro place stage spot key rest hfits hinner hkey hrest
  obtain ⟨hcolumn, hfound⟩ := hfound place stage.inner hfits
  have hnext : spot.next '\n' = ⟨spot.index + 1, spot.line + 1, 0⟩ :=
    Spot.next_of_break spot (by decide)
  have hspaces : ((spot.next '\n').after (spaces column)).column = column := by
    rw [Spot.after_spaces, hnext]
    exact Nat.zero_add column
  have hleads := h.leads_bracketed hcolumn hspaces hkey.isFree hrest
  rw [hfound, Spot.after_append, Spot.after_append, List.append_assoc, List.append_assoc]
  refine .after (Lexer.reads_break stage spot _ key false (by decide)) ?_
  refine .after (Lexer.reads_spaces stage (spot.next '\n') column _ key true) ?_
  exact hleads.congr hp

end collections

/-! ## Whole values -/

namespace Value.LeadsToTokens

/-- A value without parts. -/
theorem of_isLeaf {value : Value} (h : value.IsLeaf) : value.LeadsToTokens where
  inline slot text hslot htext := by
    rw [(h.print slot false).1] at htext
    exact Except.ok.inj htext ▸ h.writtenInline hslot
  after slot isTagged text hslot htext := by
    rw [(h.print slot isTagged).2] at htext
    exact Except.ok.inj htext ▸ h.writtenAfter hslot

/-- A sequence of items. -/
theorem sequence {items : List Value} (h : ∀ item ∈ items, item.LeadsToTokens)
    (hne : items ≠ []) : (Value.sequence items).LeadsToTokens := by
  have hempty : items.isEmpty = false := by simpa using hne
  have hpart {column : Nat} {texts : List Text} (htexts : printItems column items = .ok texts) :
      Part column .blockSequence (∀ item ∈ items, item.AllTags Tag.IsReadable)
        (lines column texts) (tokensOfItems items) :=
    part_items h htexts hne
  refine ⟨fun slot text _ htext => ?_, fun slot isTagged text _ htext => ?_⟩
  · rw [printInline, hempty] at htext
    obtain ⟨texts, htexts, rfl⟩ := Success.of_map htext
    refine (hpart htexts).writtenInline AllTags.sequence_iff.symm fun place => ?_
    simp [Yaml.tokensOf, hempty]
  · rw [printAfter, hempty] at htext
    obtain ⟨texts, htexts, htext⟩ := Success.of_bind htext
    obtain rfl := Except.ok.inj htext
    rw [List.append_assoc]
    refine (hpart htexts).writtenAfter AllTags.sequence_iff.symm fun place inner hfits => ?_
    obtain ⟨hinner, hopen⟩ := hfits.sequence_lt_iff
    refine ⟨hinner, ?_⟩
    simp [Yaml.tokensOf, hempty, hopen]

/-- A mapping with entries. -/
theorem mapping {depth : Nat} {entries : List (Value × Value)}
    (hloaded : ∀ entry ∈ entries, entry.1.IsLoaded depth)
    (hkeys : ∀ entry ∈ entries, entry.1.LeadsToTokens)
    (hvalues : ∀ entry ∈ entries, entry.2.LeadsToTokens) (hne : entries ≠ []) :
    (Value.mapping entries).LeadsToTokens := by
  have hempty : entries.isEmpty = false := by simpa using hne
  have hpart {column : Nat} {texts : List Text} (htexts : printEntries column entries = .ok texts) :
      Part column .blockMapping
        (∀ entry ∈ entries, entry.1.AllTags Tag.IsReadable ∧ entry.2.AllTags Tag.IsReadable)
        (lines column texts) (tokensOfEntries entries) :=
    part_entries hloaded hkeys hvalues htexts hne
  refine ⟨fun slot text _ htext => ?_, fun slot isTagged text _ htext => ?_⟩
  · rw [printInline, hempty] at htext
    cases hwritable : hasWritableKeys false entries with
    | false => simp [hwritable] at htext
    | true =>
      rw [hwritable] at htext
      obtain ⟨texts, htexts, rfl⟩ := Success.of_map htext
      refine (hpart htexts).writtenInline AllTags.mapping_iff.symm fun place => ?_
      simp [Yaml.tokensOf, hempty]
  · rw [printAfter, hempty] at htext
    cases hwritable : hasWritableKeys isTagged entries with
    | false => simp [hwritable] at htext
    | true =>
      rw [hwritable] at htext
      obtain ⟨texts, htexts, htext⟩ := Success.of_bind htext
      obtain rfl := Except.ok.inj htext
      rw [List.append_assoc]
      refine (hpart htexts).writtenAfter AllTags.mapping_iff.symm fun place inner hfits => ?_
      have hinner := hfits.collection
      refine ⟨Nat.le_succ_of_le hinner, ?_⟩
      simp [Yaml.tokensOf, hempty, Nat.not_lt.mpr hinner]

/-- A value under a tag. -/
theorem tagged {value : Value} (h : value.LeadsToTokens) (tag : Text) :
    (Value.tagged tag value).LeadsToTokens := by
  refine ⟨fun slot text hslot htext => ?_, fun slot isTagged text hslot htext => ?_⟩
  · obtain ⟨valueText, hvalue, htext⟩ := Success.of_bind htext
    exact Except.ok.inj htext ▸ (h.after slot true valueText hslot hvalue).tagged_inline tag
  · rw [printAfter] at htext
    split at htext
    · cases htext
    · obtain ⟨valueText, hvalue, htext⟩ := Success.of_bind htext
      rw [← Except.ok.inj htext, List.append_assoc]
      exact (h.after slot true valueText hslot hvalue).tagged_after tag

end Value.LeadsToTokens

/-- The text that a value is written as leads to its tokens. -/
theorem Value.IsLoaded.leadsToTokens {depth : Nat} {value : Value} (h : value.IsLoaded depth) :
    value.LeadsToTokens := by
  induction h with
  | scalar h => exact .of_isLeaf (.scalar h)
  | @sequence depth items parts ih =>
    by_cases hne : items = []
    · exact hne ▸ .of_isLeaf .noItems
    · exact .sequence ih hne
  | @mapping depth entries keys values differ ihKeys ihValues =>
    by_cases hne : entries = []
    · exact hne ▸ .of_isLeaf .noEntries
    · exact .mapping keys ihKeys ihValues hne
  | @tagged depth tag value named untagged under ih => exact ih.tagged tag

/-- The tokens of a dumped document are those of the value, unless a tag is refused. -/
theorem tokens_dump {depth : Nat} {value : Value} (h : value.IsLoaded depth) {text : Text}
    (htext : dump value = .ok text) :
    (value.AllTags Tag.IsReadable → tokens text = .ok (tokensOf .item false value)) ∧
      (¬value.AllTags Tag.IsReadable → ∃ error, tokens text = .error error) := by
  have hwritten := h.leadsToTokens.inline .document text (Nat.succ_ne_zero _) htext
  have hleads := @hwritten.leads .item .start .start none [] Slot.fits_document rfl (isHere_none _)
    (.inl rfl)
  rw [List.append_nil] at hleads
  refine ⟨fun hreadable => ?_, fun hnot => tokens_of_fails hwritten.written (hleads.fails hnot)⟩
  obtain ⟨key, hkey, hreads⟩ := hleads.reads hreadable
  refine tokens_of_reads hwritten.written hreads fun bound => ?_
  rw [Lexer.run, Lexer.skip_on_nil]
  change (do Except.ok (← Lexer.forgetKey ((Lexer.on _ _ [] key true).close 0)).tokens) = _
  rw [Lexer.close_on _ _ _ _ _ (Nat.le_refl 0), Lexer.forgetKey_on hkey.isFree]
  rfl

end HostKit.Yaml
