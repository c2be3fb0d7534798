import HostKit.Proofs.Yaml.Lexing

/-!
# Rules for tokens

Outside brackets each token that is written has a rule of its own: what the run over a document that
starts with it goes on with. An indicator opens a collection unless one is open at its column, a
colon does so for the key before it, and every part that a key may start with is kept in mind if a
key may start there. What the part means is left to its reader, and stands in the rule as an
equation.
-/

namespace HostKit.Yaml.Lexer

variable {stage : Stage} {spot : Spot} {key : Option PossibleKey} {keyAllowed : Bool}

/-- A token that starts right here. -/
theorem reads_of_take {c : Char} {rest : Text} {middle later : Lexer} (hstart : isStart c = true)
    (htake : (on stage spot (c :: rest) key keyAllowed).takeToken (spot.placed c)
      ((spot.next c).source rest) = .ok middle)
    (hskip : middle.skip = later.skip) (hlength : later.source.length < rest.length + 1) :
    (on stage spot (c :: rest) key keyAllowed).Reads later := by
  have hsame := skip_on_start stage spot rest key keyAllowed hstart
  have hsource : (on stage spot (c :: rest) key keyAllowed).skip.source =
      spot.placed c :: (spot.next c).source rest := by
    rw [hsame]
    rfl
  apply Reads.of_token hsource (hsame.symm ▸ htake) hskip
  simpa using hlength

/-- A space is skipped. -/
theorem skip_on_space (stage : Stage) (spot : Spot) (rest : Text) (key : Option PossibleKey)
    (keyAllowed : Bool) : (on stage spot (' ' :: rest) key keyAllowed).skip =
      (on stage (spot.next ' ') rest key keyAllowed).skip :=
  skip_on_spaces stage spot 1 rest key keyAllowed

theorem reads_space (stage : Stage) (spot : Spot) (rest : Text) (key : Option PossibleKey)
    (keyAllowed : Bool) : (on stage spot (' ' :: rest) key keyAllowed).Reads
      (on stage (spot.next ' ') rest key keyAllowed) :=
  reads_spaces stage spot 1 rest key keyAllowed

/-- After a line end a key may start. -/
theorem reads_break (stage : Stage) (spot : Spot) {c : Char} (rest : Text)
    (key : Option PossibleKey) (keyAllowed : Bool) (h : isBreak c = true) :
    (on stage spot (c :: rest) key keyAllowed).Reads (on stage (spot.next c) rest key true) := by
  apply Reads.of_skip (skip_on_break stage spot rest key keyAllowed h)
  simp

/-! ## Marks of documents -/

/-- A place is no mark of a document if its character is not the first one of a mark. -/
theorem not_atMark {p : Placed} (rest : Source) (hhyphen : p.char ≠ '-') (hpoint : p.char ≠ '.') :
    Source.atMark (p :: rest) = false := by
  unfold Source.atMark
  split
  · next heq =>
    obtain ⟨rfl, -⟩ := List.cons.inj heq
    simp [hhyphen, hpoint]
  · rfl

/-- A place is no mark of a document if it is not at the start of a line. -/
theorem not_atMark_of_column {p : Placed} (rest : Source) (h : p.column ≠ 0) :
    Source.atMark (p :: rest) = false := by
  unfold Source.atMark
  split
  · next heq =>
    obtain ⟨rfl, -⟩ := List.cons.inj heq
    simp [h]
  · rfl

/-- A place is no mark of a document if the next character is another one. -/
theorem not_atMark_of_ne {p q : Placed} (rest : Source) (h : q.char ≠ p.char) :
    Source.atMark (p :: q :: rest) = false := by
  cases rest with
  | nil => rfl
  | cons r rest => simp [Source.atMark, h]

/-! ## Indicators -/

/-- A collection is opened by its token after all tokens so far. -/
theorem openAt_on (text : Text) (column : Nat) (collection : Token) :
    (on stage spot text key keyAllowed).openAt column stage.tokens.length collection =
      on (stage.opened column collection) spot text key keyAllowed := by
  rcases Nat.lt_or_ge column stage.inner with hlt | hge
  · rw [Stage.opened_of_lt collection hlt]
    simp [openAt, hlt]
  · rw [Stage.opened_of_le collection hge]
    simp [openAt, Nat.not_lt.mpr hge, on, inFlow, Array.insertIdxIfInBounds]

/-- The indicator of an entry or key, which opens a collection unless one is open. -/
theorem takeIndicator_on (text rest : Text) (collection token : Token) (p : Placed) (later : Spot)
    (hkey : IsFree key) :
    (on stage spot text key true).takeIndicator collection token true p (later.source rest) =
      .ok (on ((stage.opened p.column collection).emit [token]) later rest none true) := by
  have hsize : (on stage spot text key true).tokens.size = stage.tokens.length := by simp [on]
  rw [takeIndicator, inFlow_on, keyAllowed_on, hsize, openAt_on, forgetKey_on hkey]
  exact congrArg Except.ok (take_on _ _ _ _ _ _ _ _ _)

/-- An indicator and the space after it. -/
theorem reads_indicator {mark : Char} {collection token : Token} (rest : Text) (hkey : IsFree key)
    (hstart : isStart mark = true)
    (htoken : (on stage spot (mark :: ' ' :: rest) key true).takeToken (spot.placed mark)
        ((spot.next mark).source (' ' :: rest)) =
      (on stage spot (mark :: ' ' :: rest) key true).takeIndicator collection token true
        (spot.placed mark) ((spot.next mark).source (' ' :: rest))) :
    (on stage spot (mark :: ' ' :: rest) key true).Reads
      (on ((stage.opened spot.column collection).emit [token]) (spot.after [mark, ' ']) rest none
        true) := by
  have hskip := skip_on_space ((stage.opened spot.column collection).emit [token]) (spot.next mark)
    rest none true
  refine reads_of_take hstart (htoken.trans (takeIndicator_on _ _ _ _ _ _ hkey)) hskip ?_
  simp only [source_on, Spot.length_source, List.length_cons]
  omega

/-- A hyphen before an item. -/
theorem reads_hyphen (rest : Text) (hkey : IsFree key) (hinner : stage.inner ≤ spot.column + 1) :
    (on stage spot ('-' :: ' ' :: rest) key true).Reads
      (on ((stage.opened spot.column .blockSequence).emit [.hyphen])
        (spot.after ['-', ' ']) rest none
        true) := by
  have hgap : isGap ' ' = true := by decide
  have hmark := not_atMark_of_ne (p := spot.placed '-') (q := (spot.next '-').placed ' ')
    (((spot.next '-').next ' ').source rest) (show ' ' ≠ '-' by decide)
  apply reads_indicator rest hkey (by decide)
  rw [takeToken, close_on _ _ _ _ _ (by simpa using hinner)]
  simp [Source.atGap, hgap, hmark]

/-- A question mark before a key. -/
theorem reads_question (rest : Text) (hkey : IsFree key) (hinner : stage.inner ≤ spot.column + 1) :
    (on stage spot ('?' :: ' ' :: rest) key true).Reads
      (on ((stage.opened spot.column .blockMapping).emit [.key]) (spot.after ['?', ' ']) rest none
        true) := by
  have hgap : isGap ' ' = true := by decide
  have hmark := not_atMark_of_ne (p := spot.placed '?') (q := (spot.next '?').placed ' ')
    (((spot.next '?').next ' ').source rest) (show ' ' ≠ '?' by decide)
  apply reads_indicator rest hkey (by decide)
  rw [takeToken, close_on _ _ _ _ _ (by simpa using hinner)]
  simp [Source.atGap, hgap, hmark]

/-! ## Colons -/

/-- A key that started on an earlier line does not end at a colon. -/
theorem liveKey_on_past (text : Text) {colon : Placed} (hkey : IsPast spot key)
    (hline : spot.line ≤ colon.line) :
    (on stage spot text key keyAllowed).liveKey colon = .ok none := by
  cases key with
  | none => rfl
  | some k =>
    obtain ⟨hrequired, hlt⟩ := hkey k rfl
    have hlate : k.place.line < colon.line := by omega
    simp [liveKey, on, hlate, hrequired]

/-- A colon at the start of a line, before the value of a key that did not stand before a colon. -/
theorem reads_value (rest : Text) (hkey : IsPast spot key)
    (hinner : stage.inner = spot.column + 1) :
    (on stage spot (':' :: ' ' :: rest) key true).Reads
      (on (stage.emit [.value]) (spot.after [':', ' ']) rest none true) := by
  have hgap : isGap ' ' = true := by decide
  have hmark := not_atMark_of_ne (p := spot.placed ':') (q := (spot.next ':').placed ' ')
    (((spot.next ':').next ' ').source rest) (show ' ' ≠ ':' by decide)
  have hopened : stage.opened spot.column .blockMapping = stage :=
    Stage.opened_of_lt Token.blockMapping (by omega)
  have htake : (on stage spot (':' :: ' ' :: rest) key true).takeColon (spot.placed ':')
      ((spot.next ':').source (' ' :: rest)) =
        .ok (on (stage.emit [.value]) (spot.next ':') (' ' :: rest) none true) := by
    have hsize : (on stage spot (':' :: ' ' :: rest) none true).tokens.size =
        stage.tokens.length := by
      simp [on]
    rw [takeColon, liveKey_on_past _ hkey (Nat.le_refl _)]
    change Except.ok (((on stage spot (':' :: ' ' :: rest) none true).openAt spot.column
      (on stage spot (':' :: ' ' :: rest) none true).tokens.size .blockMapping).take .value
        ((spot.next ':').source (' ' :: rest)) true) = _
    rw [hsize, openAt_on, hopened, take_on]
  have hskip := skip_on_space (stage.emit [.value]) (spot.next ':') rest none true
  refine reads_of_take (by decide) ?_ hskip ?_
  · rw [takeToken, close_on _ _ _ _ _ (by simp [hinner])]
    simpa [Source.atGap, hgap, hmark] using htake
  · simp only [source_on, Spot.length_source, List.length_cons]
    omega

/-- A token is put in between the tokens before a place and those after it. -/
theorem insertIdxIfInBounds_append (before later : List Token) (token : Token) :
    (before ++ later).toArray.insertIdxIfInBounds before.length token =
      (before ++ token :: later).toArray := by
  have hbound : before.length ≤ (before ++ later).toArray.size := by simp
  have hinsert : (before ++ later).insertIdx before.length token = before ++ token :: later := by
    induction before with
    | nil => rfl
    | cons first before ih => simpa using ih (by simp)
  rw [Array.insertIdxIfInBounds, dif_pos hbound, List.insertIdx_toArray, hinsert]

/-- A mapping that is not open is opened before the key that has just been read. -/
theorem openAt_on_emit (text : Text) (column : Nat) (collection : Token) (read : List Token) :
    (on (stage.emit read) spot text key keyAllowed).openAt column stage.tokens.length collection =
      on ((stage.opened column collection).emit read) spot text key keyAllowed := by
  rcases Nat.lt_or_ge column stage.inner with hlt | hge
  · rw [Stage.opened_of_lt collection hlt]
    simp [openAt, hlt]
  · rw [Stage.opened_of_le collection hge]
    have hopen : ¬((on (stage.emit read) spot text key keyAllowed).inFlow ||
        column < (on (stage.emit read) spot text key keyAllowed).inner) = true := by
      change ¬(false || column < stage.inner) = true
      simpa using hge
    rw [openAt, if_neg hopen]
    simp only [on, Stage.emit, insertIdxIfInBounds_append, List.append_assoc, List.singleton_append]

/-- A colon right after a key on its line. -/
theorem reads_colon {p : Placed} {required : Bool} (read : List Token) (rest : Text)
    (hgap : Source.atGap ((spot.next ':').source rest) = true) (hline : p.line = spot.line)
    (hindex : spot.index ≤ p.index + maxKeyLength) (hinner : stage.inner ≤ spot.column + 1) :
    (on (stage.emit read) spot (':' :: rest) (some ⟨stage.tokens.length, p, required⟩) false).Reads
      (on ((stage.opened p.column .blockMapping).emit (.key :: (read ++ [.value])))
        (spot.next ':') rest
        none false) := by
  have hmark := not_atMark (p := spot.placed ':') ((spot.next ':').source rest)
    (show ':' ≠ '-' by decide) (show ':' ≠ '.' by decide)
  have hlive : (on (stage.emit read) spot (':' :: rest)
      (some ⟨stage.tokens.length, p, required⟩) false).liveKey (spot.placed ':') =
        .ok (some ⟨stage.tokens.length, p, required⟩) := by
    have hnear : ¬(p.line < spot.line || p.index + maxKeyLength < spot.index) = true := by
      simp only [Bool.or_eq_true, decide_eq_true_eq]
      omega
    exact if_neg hnear
  have hkey : { on (stage.emit read) spot (':' :: rest)
      (some ⟨stage.tokens.length, p, required⟩) false with
        tokens := (stage.emit read).tokens.toArray.insertIdxIfInBounds stage.tokens.length .key
        key := none } = on (stage.emit (.key :: read)) spot (':' :: rest) none false := by
    simp only [on, Stage.emit, insertIdxIfInBounds_append]
  have htake : (on (stage.emit read) spot (':' :: rest)
      (some ⟨stage.tokens.length, p, required⟩) false).takeColon (spot.placed ':')
        ((spot.next ':').source rest) =
          .ok (on ((stage.opened p.column .blockMapping).emit (.key :: (read ++ [.value])))
            (spot.next ':') rest none false) := by
    rw [takeColon, hlive]
    change Except.ok (({ on (stage.emit read) spot (':' :: rest)
      (some ⟨stage.tokens.length, p, required⟩) false with
        tokens := (stage.emit read).tokens.toArray.insertIdxIfInBounds stage.tokens.length .key
        key := none }.openAt p.column stage.tokens.length .blockMapping).take .value
          ((spot.next ':').source rest) false) = _
    rw [hkey, openAt_on_emit, take_on, Stage.emit_emit]
    rfl
  refine reads_of_take (by decide) ?_ rfl ?_
  · rw [takeToken, close_on _ _ _ _ _ (by simpa using hinner)]
    simpa [hgap, hmark] using htake
  · simp only [source_on, Spot.length_source]
    omega

/-! ## Parts of a node -/

/-- A part that a key may start with. -/
theorem reads_part {c : Char} {text rest : Text} {token : Token}
    (hkey : keyAllowed = true → IsFree key) (hstart : isStart c = true)
    (hpart : (on stage spot (c :: (text ++ rest)) key keyAllowed).takeToken (spot.placed c)
        ((spot.next c).source (text ++ rest)) =
      (on stage spot (c :: (text ++ rest)) key keyAllowed).takePart (spot.placed c)
        (.ok (token, (spot.after (c :: text)).source rest))) :
    (on stage spot (c :: (text ++ rest)) key keyAllowed).Reads
      (on (stage.emit [token]) (spot.after (c :: text)) rest
        (noted stage (spot.placed c) key keyAllowed) false) := by
  refine reads_of_take hstart (hpart.trans (takePart_on _ hkey _ _ _)) rfl ?_
  simp only [source_on, Spot.length_source, List.length_append]
  omega

/-- A tag. -/
theorem reads_tag {text rest : Text} {written : Tag.Written} (hkey : keyAllowed = true → IsFree key)
    (hinner : stage.inner ≤ spot.column + 1)
    (hread : Tag.read false ((spot.next '!').source (text ++ rest)) =
      .ok (written, (spot.after ('!' :: text)).source rest)) :
    (on stage spot ('!' :: (text ++ rest)) key keyAllowed).Reads
      (on (stage.emit [.tag written]) (spot.after ('!' :: text)) rest
        (noted stage (spot.placed '!') key keyAllowed) false) := by
  have hmark := not_atMark (p := spot.placed '!') ((spot.next '!').source (text ++ rest))
    (show '!' ≠ '-' by decide) (show '!' ≠ '.' by decide)
  apply reads_part hkey (by decide)
  rw [takeToken, close_on _ _ _ _ _ (by simpa using hinner)]
  simp [hmark, hread, Except.map]

/-- A tag that is refused. -/
theorem fails_tag {text : Text} {error : Error} (hkey : keyAllowed = true → IsFree key)
    (hinner : stage.inner ≤ spot.column + 1)
    (hread : Tag.read false ((spot.next '!').source text) = .error error) :
    (on stage spot ('!' :: text) key keyAllowed).Fails := by
  have hmark := not_atMark (p := spot.placed '!') ((spot.next '!').source text)
    (show '!' ≠ '-' by decide) (show '!' ≠ '.' by decide)
  have hsame := skip_on_start stage spot text key keyAllowed (show isStart '!' = true by decide)
  have htake : (on stage spot ('!' :: text) key keyAllowed).takeToken (spot.placed '!')
      ((spot.next '!').source text) = .error error := by
    rw [takeToken, close_on _ _ _ _ _ (by simpa using hinner)]
    simp [hmark, hread, Except.map, takePart, noteKey_on _ hkey, bind, Except.bind]
  exact Fails.of_token (hsame.symm ▸ rfl) (hsame.symm ▸ htake)

/-- A scalar in single quotes. -/
theorem reads_single {text rest : Text} {meaning : Text} (hkey : keyAllowed = true → IsFree key)
    (hinner : stage.inner ≤ spot.column + 1)
    (hread : Quoted.readSingle ((spot.next '\'').source (text ++ rest)) =
      .ok (meaning, (spot.after ('\'' :: text)).source rest)) :
    (on stage spot ('\'' :: (text ++ rest)) key keyAllowed).Reads
      (on (stage.emit [.scalar .singleQuoted meaning]) (spot.after ('\'' :: text)) rest
        (noted stage (spot.placed '\'') key keyAllowed) false) := by
  have hmark := not_atMark (p := spot.placed '\'') ((spot.next '\'').source (text ++ rest))
    (show '\'' ≠ '-' by decide) (show '\'' ≠ '.' by decide)
  apply reads_part hkey (by decide)
  rw [takeToken, close_on _ _ _ _ _ (by simpa using hinner)]
  simp [hmark, hread, Except.map]

/-- A scalar in double quotes. -/
theorem reads_double {text rest : Text} {meaning : Text} (hkey : keyAllowed = true → IsFree key)
    (hinner : stage.inner ≤ spot.column + 1)
    (hread : Quoted.readDouble ((spot.next '"').source (text ++ rest)) =
      .ok (meaning, (spot.after ('"' :: text)).source rest)) :
    (on stage spot ('"' :: (text ++ rest)) key keyAllowed).Reads
      (on (stage.emit [.scalar .doubleQuoted meaning]) (spot.after ('"' :: text)) rest
        (noted stage (spot.placed '"') key keyAllowed) false) := by
  have hmark := not_atMark (p := spot.placed '"') ((spot.next '"').source (text ++ rest))
    (show '"' ≠ '-' by decide) (show '"' ≠ '.' by decide)
  apply reads_part hkey (by decide)
  rw [takeToken, close_on _ _ _ _ _ (by simpa using hinner)]
  simp [hmark, hread, Except.map]

/-- A literal scalar, after which a line starts. -/
theorem reads_literal {text rest meaning : Text} {left : Source} {later : Spot} (hkey : IsFree key)
    (hinner : stage.inner ≤ spot.column + 1)
    (hread : Block.read true stage.inner ((spot.next '|').source (text ++ rest)) =
      .ok (meaning, left))
    (hleft : skipFrom false false true left = skipFrom false false true (later.source rest)) :
    (on stage spot ('|' :: (text ++ rest)) key keyAllowed).Reads
      (on (stage.emit [.scalar .literal meaning]) later rest none true) := by
  have hmark := not_atMark (p := spot.placed '|') ((spot.next '|').source (text ++ rest))
    (show '|' ≠ '-' by decide) (show '|' ≠ '.' by decide)
  have htake : (on stage spot ('|' :: (text ++ rest)) key keyAllowed).takeBlock .literal
      ((spot.next '|').source (text ++ rest)) =
        .ok { on (stage.emit [.scalar .literal meaning]) spot [] none true with
          source := left } := by
    rw [takeBlock, forgetKey_on hkey]
    change (Block.read true stage.inner ((spot.next '|').source (text ++ rest))).bind _ = _
    rw [hread]
    simp [Except.bind, take, on, Stage.emit]
  have htoken : (on stage spot ('|' :: (text ++ rest)) key keyAllowed).takeToken (spot.placed '|')
      ((spot.next '|').source (text ++ rest)) =
        .ok { on (stage.emit [.scalar .literal meaning]) spot [] none true with
          source := left } := by
    rw [takeToken, close_on _ _ _ _ _ (by simpa using hinner)]
    simpa [hmark] using htake
  refine reads_of_take (by decide) htoken ?_ ?_
  · rw [skip_on, ← hleft]
    rfl
  · simp only [source_on, Spot.length_source, List.length_append]
    omega

/-- A plain scalar starts with a character that is no indicator, or stands for itself before a
word. -/
theorem takeToken_eq_takePlain {lexer : Lexer} {p : Placed} {rest : Source}
    (hflow : lexer.inFlow = false) (hclose : lexer.close (p.column + 1) = lexer)
    (hgap : isGap p.char = false) (hindicator : isIndicator p.char = false)
    (hword : p.char = '-' ∨ p.char = '?' ∨ p.char = ':' → Source.atGap rest = false)
    (hmark : Source.atMark (p :: rest) = false) :
    lexer.takeToken p rest = lexer.takePlain p rest := by
  have hall : ∀ d ∈ ['%', '[', ']', '\x7b', '\x7d', ',', '*', '&', '!', '|', '>', '\'', '"'],
      isIndicator d = true := by simp [isIndicator, isFlowIndicator]
  have hne : ∀ d ∈ ['%', '[', ']', '\x7b', '\x7d', ',', '*', '&', '!', '|', '>', '\'', '"'],
      p.char ≠ d := by
    intro d hd heq
    exact absurd (hall d hd) (by rw [← heq, hindicator]; exact Bool.false_ne_true)
  simp only [List.forall_mem_cons] at hne
  have hspace : p.char = '-' → Source.headSatisfies isSpace rest = false := by
    intro hhyphen
    have hnot := hword (.inl hhyphen)
    cases rest with
    | nil => rfl
    | cons q rest => exact not_isSpace_of_not_isGap hnot
  have hplain : startsPlain false p.char rest = true := by
    by_cases hhyphen : p.char = '-'
    · simp [startsPlain, hhyphen, hspace hhyphen]
    · by_cases hmarked : p.char = '?' ∨ p.char = ':'
      · simp [startsPlain, hhyphen, hmarked, hword (.inr hmarked)]
      · simp [startsPlain, hhyphen, hmarked, hgap, hindicator]
  rw [takeToken, hclose]
  by_cases hmarked : p.char = '-' ∨ p.char = '?' ∨ p.char = ':'
  · simp [hmark, hplain, hflow, hword hmarked, hne]
  · simp only [not_or] at hmarked
    simp [hmark, hplain, hflow, hmarked, hne]

/-- A plain scalar. -/
theorem reads_plain {c : Char} {text rest meaning : Text} {endsLine : Bool} {left : Source}
    {later : Spot} (hkey : keyAllowed = true → IsFree key) (hinner : stage.inner ≤ spot.column + 1)
    (hstart : isStart c = true) (hindicator : isIndicator c = false)
    (hword : c = '-' ∨ c = '?' ∨ c = ':' → Source.atGap ((spot.next c).source text) = false)
    (hmark : Source.atMark (spot.placed c :: (spot.next c).source text) = false)
    (hread : Plain.read false stage.inner (spot.source (c :: text)) = .ok ⟨meaning, endsLine, left⟩)
    (hleft : skipFrom false false endsLine left = skipFrom false false endsLine (later.source rest))
    (hlength : rest.length ≤ text.length) :
    (on stage spot (c :: text) key keyAllowed).Reads
      (on (stage.emit [.scalar .plain meaning]) later rest
        (noted stage (spot.placed c) key keyAllowed) endsLine) := by
  have htake : (on stage spot (c :: text) key keyAllowed).takePlain (spot.placed c)
      ((spot.next c).source text) =
        .ok { on (stage.emit [.scalar .plain meaning]) spot []
          (noted stage (spot.placed c) key keyAllowed) endsLine with source := left } := by
    rw [takePlain, noteKey_on _ hkey]
    change (Plain.read false stage.inner (spot.source (c :: text))).bind _ = _
    rw [hread]
    simp [Except.bind, take, on, Stage.emit]
  have htoken := takeToken_eq_takePlain (inFlow_on stage spot (c :: text) key keyAllowed)
    (close_on _ _ _ _ _ (by simpa using hinner)) (not_isGap_of_isStart hstart)
    hindicator hword hmark
  refine reads_of_take hstart (htoken.trans htake) ?_ ?_
  · rw [skip_on, ← hleft]
    rfl
  · simp only [source_on, Spot.length_source]
    omega

/-! ## Empty collections -/

/-- A pair of brackets with nothing in between. -/
theorem reads_brackets {opening closing : Char} {first last : Token} (rest : Text)
    (hkey : keyAllowed = true → IsFree key) (hstart : isStart opening = true)
    (hend : isStart closing = true)
    (hopen : (on stage spot (opening :: closing :: rest) key keyAllowed).takeToken
        (spot.placed opening) ((spot.next opening).source (closing :: rest)) =
      (on stage spot (opening :: closing :: rest) key keyAllowed).takeOpening first
        (spot.placed opening) ((spot.next opening).source (closing :: rest)))
    (hclose : ∀ (lexer : Lexer) (p : Placed) (rest : Source), lexer.inFlow = true →
      p.char = closing → lexer.takeToken p rest = lexer.takeClosing last rest) :
    (on stage spot (opening :: closing :: rest) key keyAllowed).Reads
      (on (stage.emit [first, last]) (spot.after [opening, closing]) rest
        (noted stage (spot.placed opening) key keyAllowed) false) := by
  let middle : Lexer :=
    { on (stage.emit [first]) (spot.next opening) (closing :: rest) none true with
    outerKeys := [noted stage (spot.placed opening) key keyAllowed] }
  have htake : (on stage spot (opening :: closing :: rest) key keyAllowed).takeOpening first
      (spot.placed opening) ((spot.next opening).source (closing :: rest)) = .ok middle := by
    rw [takeOpening, noteKey_on _ hkey]
    simp [bind, Except.bind, middle, on, take, Stage.emit]
  have hmiddle : middle.skip = middle := by
    have hskip : skipFrom true false true ((spot.next opening).source (closing :: rest)) =
        ((spot.next opening).source (closing :: rest), true) := skipFrom_start _ hend
    change { middle with
      source := (skipFrom true false true ((spot.next opening).source (closing :: rest))).1
      keyAllowed := (skipFrom true false true ((spot.next opening).source (closing :: rest))).2 } =
        middle
    rw [hskip]
    rfl
  have hlast : middle.takeToken ((spot.next opening).placed closing)
      (((spot.next opening).next closing).source rest) =
        .ok (on (stage.emit [first, last]) (spot.after [opening, closing]) rest
          (noted stage (spot.placed opening) key keyAllowed) false) := by
    rw [hclose middle _ _ rfl rfl, takeClosing]
    simp [bind, Except.bind, middle, on, take, forgetKey, Stage.emit]
  have hfirst : (on stage spot (opening :: closing :: rest) key keyAllowed).Reads middle :=
    reads_of_take hstart (hopen.trans htake) rfl (by simp [middle])
  apply hfirst.trans
  apply Reads.of_token (hmiddle.symm ▸ rfl) (hmiddle.symm ▸ hlast) rfl
  simp [middle]

/-- A pair of square brackets. -/
theorem reads_noItems (rest : Text) (hkey : keyAllowed = true → IsFree key)
    (hinner : stage.inner ≤ spot.column + 1) :
    (on stage spot ('[' :: ']' :: rest) key keyAllowed).Reads
      (on (stage.emit [.openBracket, .closeBracket]) (spot.after ['[', ']']) rest
        (noted stage (spot.placed '[') key keyAllowed) false) := by
  apply reads_brackets rest hkey (by decide) (by decide)
  · have hmark := not_atMark_of_ne (p := spot.placed '[') (q := (spot.next '[').placed ']')
      (((spot.next '[').next ']').source rest) (show ']' ≠ '[' by decide)
    rw [takeToken, close_on _ _ _ _ _ (by simpa using hinner)]
    simp [hmark]
  · intro lexer p rest hflow hp
    have hmark := not_atMark (p := p) rest (by rw [hp]; decide) (by rw [hp]; decide)
    simp [takeToken, close, hflow, hp, hmark]

/-- A pair of braces. -/
theorem reads_noEntries (rest : Text) (hkey : keyAllowed = true → IsFree key)
    (hinner : stage.inner ≤ spot.column + 1) :
    (on stage spot ('\x7b' :: '\x7d' :: rest) key keyAllowed).Reads
      (on (stage.emit [.openBrace, .closeBrace]) (spot.after ['\x7b', '\x7d']) rest
        (noted stage (spot.placed '\x7b') key keyAllowed) false) := by
  apply reads_brackets rest hkey (by decide) (by decide)
  · have hmark := not_atMark_of_ne (p := spot.placed '\x7b') (q := (spot.next '\x7b').placed '\x7d')
      (((spot.next '\x7b').next '\x7d').source rest) (show '\x7d' ≠ '\x7b' by decide)
    rw [takeToken, close_on _ _ _ _ _ (by simpa using hinner)]
    simp [hmark]
  · intro lexer p rest hflow hp
    have hmark := not_atMark (p := p) rest (by rw [hp]; decide) (by rw [hp]; decide)
    simp [takeToken, close, hflow, hp, hmark]

end HostKit.Yaml.Lexer
