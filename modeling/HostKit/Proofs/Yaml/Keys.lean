import HostKit.Proofs.Yaml.Leaves

/-!
# Keys before a colon

A key that stands before a colon is a value without parts on one line, perhaps with a tag in front.
What stands for a character takes at most four characters for each of its bytes, so a key that is
written so is short enough for its colon to be found.
-/

namespace HostKit.Yaml

/-! ## Keys without a tag -/

/-- A key that stands on one line before its colon. -/
structure IsKeyText (text : Text) (found : List Token) : Prop where
  inLine : ∀ c ∈ text, IsInLine c
  start : ∃ c ∈ text.head?, isStart c = true
  reads : ∀ {stage : Stage} {spot : Spot} {key : Option PossibleKey} {keyAllowed : Bool},
    (keyAllowed = true → IsFree key) → stage.inner ≤ spot.column + 1 →
      ∀ rest : Text, Source.atGap (((spot.after text).next ':').source rest) = true →
        ∃ c, (Lexer.on stage spot (text ++ ':' :: rest) key keyAllowed).Reads
          (Lexer.on (stage.emit found) (spot.after text) (':' :: rest)
            (Lexer.noted stage (spot.placed c) key keyAllowed) false)

/-- A value counts as a key if its text has no line ends. -/
theorem not_isBreak_of_leafKeySize? {text : Text} {size : Nat}
    (h : leafKeySize? (.string text) = some size) : ∀ c ∈ text, isBreak c = false := by
  rw [leafKeySize?] at h
  split at h
  · cases h
  · next hnone => simpa using hnone

/-- A value without parts that does not span lines is a key. -/
theorem Value.IsLeaf.isKeyText {value : Value} (h : value.IsLeaf) {size : Nat}
    (hsize : leafKeySize? value = some size) :
    IsKeyText (printLeaf 0 value) (leafTokens value) := by
  have hlines : ∀ text, value = .string text → ∀ c ∈ text, isBreak c = false := by
    rintro text rfl
    exact not_isBreak_of_leafKeySize? hsize
  have hform : LeafForm 0 value := h.form fun text heq ⟨c, hc, hbreak⟩ =>
    absurd hbreak (by rw [hlines text heq c hc]; exact Bool.false_ne_true)
  cases hform with
  | plain text hne hfound =>
    refine ⟨fun c hc => ⟨text.written c hc, text.noBreak c hc⟩, ?_, ?_⟩
    · obtain ⟨c, rest, hcons⟩ := List.exists_cons_of_ne_nil hne
      exact ⟨c, by rw [hcons]; rfl, (hcons ▸ text).head.1⟩
    · intro stage spot key keyAllowed hkey hinner rest hrest
      rw [hfound]
      exact text.reads_key hne hkey hinner hrest
  | closed text hbreak =>
    refine ⟨fun c hc => ⟨text.written c hc, hbreak hlines c hc⟩, text.start, ?_⟩
    · intro stage spot key keyAllowed hkey hinner rest _
      exact text.reads hkey hinner (':' :: rest) (by simp)
  | literal heq hfeed => exact absurd (hlines _ heq _ hfeed) (by decide)


/-- A key that is short enough opens a mapping at its column, unless one is open there, and its
colon comes before the value. -/
theorem IsKeyText.reads_colon {text : Text} {found : List Token} (h : IsKeyText text found)
    (hlength : text.length ≤ Lexer.maxKeyLength) {stage : Stage} {spot : Spot}
    {key : Option PossibleKey} (hkey : IsFree key)
    (hinner : stage.inner ≤ spot.column + 1) {rest : Text}
    (hrest : Source.atGap (((spot.after text).next ':').source rest) = true) :
    (Lexer.on stage spot (text ++ ':' :: rest) key true).Reads
      (Lexer.on ((stage.opened spot.column .blockMapping).emit (.key :: (found ++ [.value])))
        ((spot.after text).next ':') rest none false) := by
  have hafter : spot.after text =
      ⟨spot.index + text.length, spot.line, spot.column + text.length⟩ :=
    Spot.after_of_not_break spot fun c hc => (h.inLine c hc).2
  obtain ⟨c, hreads⟩ := h.reads (fun _ => hkey) hinner rest hrest
  rw [Lexer.noted_true] at hreads
  refine hreads.trans (Lexer.reads_colon found rest hrest ?_ ?_ ?_)
  · rw [hafter]
    rfl
  · rw [hafter]
    exact Nat.add_le_add_left hlength spot.index
  · rw [hafter]
    exact Nat.le_trans hinner (Nat.succ_le_succ (Nat.le_add_right _ _))

/-! ## Keys with a tag -/

section tags

variable {stage : Stage} {spot : Spot} {key : Option PossibleKey} {keyAllowed : Bool} {tag : Text}

/-- A written tag before a gap. -/
theorem reads_write (htag : Tag.IsReadable tag) (hkey : keyAllowed = true → IsFree key)
    (hinner : stage.inner ≤ spot.column + 1) (rest : Text)
    (hrest : ∀ c ∈ rest.head?, isGap c = true) :
    (Lexer.on stage spot (Tag.write tag ++ rest) key keyAllowed).Reads
      (Lexer.on (stage.emit [.tag (Tag.ofBody (Tag.bodyOf tag))]) (spot.after (Tag.write tag)) rest
        (Lexer.noted stage (spot.placed '!') key keyAllowed) false) := by
  have hread := Tag.read_afterMark htag spot hrest
  rw [Tag.write_eq] at hread ⊢
  exact Lexer.reads_tag hkey hinner hread

/-- A written tag with a comma or square bracket is refused. -/
theorem fails_write (htag : ¬Tag.IsReadable tag) (hkey : keyAllowed = true → IsFree key)
    (hinner : stage.inner ≤ spot.column + 1) (rest : Text) :
    (Lexer.on stage spot (Tag.write tag ++ rest) key keyAllowed).Fails := by
  rw [Tag.write_eq]
  exact Lexer.fails_tag hkey hinner (Tag.read_afterMark_error htag (spot.next '!') rest)

/-- A written tag stands on its line. -/
theorem after_write (spot : Spot) (tag : Text) : spot.after (Tag.write tag) =
    ⟨spot.index + (Tag.write tag).length, spot.line, spot.column + (Tag.write tag).length⟩ :=
  Spot.after_of_not_break spot fun c hc => (Tag.isInLine_write tag c hc).2

end tags

/-- A tag and the key after it stand on one line. -/
theorem isInLine_tagged {text : Text} (h : ∀ c ∈ text, IsInLine c) (tag : Text) :
    ∀ c ∈ Tag.write tag ++ " " ++ text, IsInLine c := by
  have hspace : ∀ c ∈ " ".toList, IsInLine c := by
    intro c hc
    obtain rfl := List.mem_singleton.mp hc
    exact isInLine_of_ascii (by decide) (by decide)
  exact List.forall_mem_append.mpr ⟨List.forall_mem_append.mpr ⟨Tag.isInLine_write tag, hspace⟩, h⟩

/-- A tag and the key after it start with the mark. -/
theorem start_tagged (tag text : Text) :
    ∃ c ∈ (Tag.write tag ++ " " ++ text).head?, isStart c = true :=
  ⟨'!', by rw [Tag.write_eq]; rfl, by decide⟩

/-- A tag before a key is a part of the key. -/
theorem IsKeyText.tagged {text : Text} {found : List Token} (h : IsKeyText text found) {tag : Text}
    (htag : Tag.IsReadable tag) :
    IsKeyText (Tag.write tag ++ " " ++ text) (.tag (Tag.ofBody (Tag.bodyOf tag)) :: found) := by
  refine ⟨isInLine_tagged h.inLine tag, start_tagged tag _, ?_⟩
  · intro stage spot key keyAllowed hkey hinner rest hrest
    have hafter : spot.after (Tag.write tag ++ " " ++ text) =
        ((spot.after (Tag.write tag)).next ' ').after text := by
      rw [Spot.after_append, Spot.after_append]
      rfl
    have hgap : ∀ c ∈ (' ' :: (text ++ ':' :: rest)).head?, isGap c = true := by
      simp only [List.head?_cons, Option.mem_def, Option.some.injEq]
      rintro c rfl
      decide
    have hcolumn : stage.inner ≤ ((spot.after (Tag.write tag)).next ' ').column + 1 := by
      rw [after_write, Spot.next_of_not_break _ (by decide)]
      change stage.inner ≤ spot.column + (Tag.write tag).length + 1 + 1
      omega
    have htagged := reads_write htag hkey hinner (' ' :: (text ++ ':' :: rest)) hgap
    have hspaced := Lexer.reads_space (stage.emit [.tag (Tag.ofBody (Tag.bodyOf tag))])
      (spot.after (Tag.write tag)) (text ++ ':' :: rest)
      (Lexer.noted stage (spot.placed '!') key keyAllowed) false
    rw [hafter] at hrest ⊢
    obtain ⟨c, hreads⟩ := @h.reads (stage.emit [.tag (Tag.ofBody (Tag.bodyOf tag))])
      ((spot.after (Tag.write tag)).next ' ')
        (Lexer.noted stage (spot.placed '!') key keyAllowed) false
      (fun h => absurd h Bool.false_ne_true) hcolumn rest hrest
    refine ⟨'!', ?_⟩
    have hall := (htagged.trans hspaced).trans hreads
    rw [Stage.emit_emit, Lexer.noted_false] at hall
    simpa using hall

/-! ## Lengths -/

/-- A text has at most as many characters as bytes. -/
theorem length_le_utf8Length (text : Text) : text.length ≤ Text.utf8Length text := by
  induction text with
  | nil => exact Nat.le_refl _
  | cons c text ih =>
    have hlength : Text.utf8Length (c :: text) = c.utf8Size + Text.utf8Length text := rfl
    have hpos := Char.utf8Size_pos c
    rw [hlength, List.length_cons]
    omega

/-- A character with a larger number has more bytes. -/
theorem le_utf8Size (c : Char) :
    (0x80 ≤ c.toNat → 2 ≤ c.utf8Size) ∧ (0x800 ≤ c.toNat → 3 ≤ c.utf8Size) := by
  have hval : c.val.toNat = c.toNat := rfl
  simp only [Char.utf8Size, UInt32.le_iff_toNat_le, hval]
  split
  · next h => exact ⟨fun h' => absurd (Nat.le_trans h' h) (by decide),
      fun h' => absurd (Nat.le_trans h' h) (by decide)⟩
  · split
    · next h => exact ⟨fun _ => Nat.le_refl _, fun h' => absurd (Nat.le_trans h' h) (by decide)⟩
    · split
      · exact ⟨fun _ => by decide, fun _ => by decide⟩
      · exact ⟨fun _ => by decide, fun _ => by decide⟩

/-- What stands for a character in double quotes takes at most four characters for each byte. -/
theorem length_inQuotes_le (c : Char) : (inQuotes c).length ≤ 4 * c.utf8Size := by
  have hpos := Char.utf8Size_pos c
  obtain ⟨htwo, hthree⟩ := le_utf8Size c
  unfold inQuotes
  split
  · rw [List.length_singleton]
    omega
  · unfold Escape.write
    split
    · simp only [List.length_cons, List.length_nil]
      omega
    · split
      · simp only [List.length_cons, Escape.length_digits]
        omega
      · split
        · simp only [List.length_cons, Escape.length_digits]
          omega
        · simp only [List.length_cons, Escape.length_digits]
          omega

theorem length_doubleQuoted_le (text : Text) :
    (doubleQuoted text).length ≤ 4 * Text.utf8Length text + 2 := by
  have hinside : (text.flatMap inQuotes).length ≤ 4 * Text.utf8Length text := by
    induction text with
    | nil => exact Nat.le_refl _
    | cons c text ih =>
      have hlength : Text.utf8Length (c :: text) = c.utf8Size + Text.utf8Length text := rfl
      have hfirst := length_inQuotes_le c
      rw [List.flatMap_cons, List.length_append, hlength]
      omega
  rw [doubleQuoted_eq, List.length_cons, List.length_append, List.length_singleton]
  omega

/-- Without indentation no spaces are put in. -/
theorem length_indentLines_zero (atStart : Bool) (text : Text) :
    (indentLines 0 atStart text).length = text.length := by
  induction text generalizing atStart with
  | nil => rfl
  | cons c text ih =>
    rw [indentLines]
    split
    · rw [List.length_cons, ih, List.length_cons]
    · rw [List.length_append, List.length_cons, ih, List.length_cons]
      simp [spaces]

theorem length_singleQuoted_le {text : Text} :
    (singleQuoted 0 text).length ≤ 2 * Text.utf8Length text + 2 := by
  have hdoubled : (text.flatMap fun c => if c = '\'' then ['\'', '\''] else [c]).length ≤
      2 * text.length := by
    induction text with
    | nil => exact Nat.le_refl _
    | cons c text ih =>
      have hfirst : (if c = '\'' then ['\'', '\''] else [c]).length ≤ 2 := by
        split
        · exact Nat.le_refl 2
        · exact Nat.le_succ 1
      rw [List.flatMap_cons, List.length_append, List.length_cons]
      omega
  have hbytes := length_le_utf8Length text
  have hquote : "'".toList.length = 1 := by decide
  have hspaces : (if endsWith isBreak text then spaces 0 else []).length = 0 := by simp [spaces]
  simp only [singleQuoted, List.length_append, length_indentLines_zero, hquote, hspaces]
  omega

/-- The text of a key without a tag takes at most four characters for each byte, and two for its
quotes or brackets. -/
theorem length_printLeaf_le {value : Value} {size : Nat} (hsize : leafKeySize? value = some size) :
    (printLeaf 0 value).length ≤ 4 * size + 2 := by
  have hother (hprint : Text.utf8Length (printLeaf 0 value) = size) :
      (printLeaf 0 value).length ≤ 4 * size + 2 := by
    have hbytes := length_le_utf8Length (printLeaf 0 value)
    omega
  match value, hsize with
  | .null, hsize | .bool _, hsize | .int _, hsize | .float _, hsize =>
    exact hother (Option.some.inj hsize)
  | .sequence [], _ | .mapping [], _ => exact Nat.le_add_left 2 _
  | .string text, hsize =>
    have hlines := not_isBreak_of_leafKeySize? hsize
    have hbytes := length_le_utf8Length text
    rw [leafKeySize?, if_neg (by simpa using hlines), Option.some.injEq] at hsize
    rw [printLeaf, printString]
    split
    · next hstyle =>
      obtain ⟨-, hfeed, -⟩ | h | h | h := Style.ofString_cases text
      · exact absurd (hlines _ hfeed) (by decide)
      · rw [h] at hstyle; cases hstyle
      · rw [h.1] at hstyle; cases hstyle
      · rw [h.1] at hstyle; cases hstyle
    · have hsingle := @length_singleQuoted_le text
      omega
    · have hdouble := length_doubleQuoted_le text
      omega
    · omega

/-- A key before a colon has no parts, and either no tag in front or one. -/
theorem isSimpleKey_cases {key : Value} (h : isSimpleKey key = true) :
    (∃ size ≤ maxSimpleKey, leafKeySize? key = some size ∧ printSimpleKey key = printLeaf 0 key) ∨
    ∃ tag value size, key = .tagged tag value ∧ leafKeySize? value = some size ∧
      Tag.size tag + size ≤ maxSimpleKey := by
  obtain ⟨size, hsize, hle⟩ := (Option.any_eq_true ..).mp h
  have hle := of_decide_eq_true hle
  cases key with
  | tagged tag value =>
    rw [keySize?, Option.map_eq_some_iff] at hsize
    obtain ⟨leafSize, hleaf, rfl⟩ := hsize
    exact .inr ⟨tag, value, leafSize, rfl, hleaf, hle⟩
  | _ => exact .inl ⟨size, hle, hsize, rfl⟩

/-- A key before a colon is short enough for its colon to be found. -/
theorem length_printSimpleKey_le {key : Value} (h : isSimpleKey key = true) :
    (printSimpleKey key).length ≤ Lexer.maxKeyLength := by
  rw [Lexer.maxKeyLength]
  obtain ⟨size, hle, hleaf, hprint⟩ | ⟨tag, value, size, rfl, hleaf, hle⟩ := isSimpleKey_cases h
  · have hlength := length_printLeaf_le hleaf
    rw [maxSimpleKey] at hle
    rw [hprint]
    omega
  · have htag := Tag.length_write_le tag
    have hlength := length_printLeaf_le hleaf
    have hspace : " ".toList.length = 1 := by decide
    rw [maxSimpleKey] at hle
    rw [printSimpleKey, List.length_append, List.length_append, hspace]
    omega

end HostKit.Yaml
