import HostKit.Proofs.Yaml.Places
import HostKit.Yaml.Lexer
import HostKit.Yaml.Print

/-!
# Runs over tokens

A run is cut where a token ends: one document leads to another one if a run over the first goes on
as a run over the second, with so many steps in between that the characters read pay for them.
Outside brackets nothing of a document matters but the tokens so far, the columns at which
collections are open, and the place where a key may have started; two documents that agree from
their next token on are read alike, and it is the same whether a collection that the next token does
not belong to has been closed already.
-/

namespace HostKit.Yaml

/-! ## Leading from one document to another -/

namespace Lexer

/-- A run over the first document goes on as a run over the second one, and no more steps are taken
than characters are read. -/
def Reads (lexer later : Lexer) : Prop :=
  ∃ count, count + later.source.length ≤ lexer.source.length ∧
    ∀ bound, run (count + bound + 1) lexer = run (bound + 1) later

/-- A run over the document ends with an error, after no more steps than there are characters. -/
def Fails (lexer : Lexer) : Prop :=
  ∃ error count, count ≤ lexer.source.length ∧
    ∀ bound, run (count + bound + 1) lexer = .error error

variable {lexer middle later : Lexer}

theorem Reads.refl (lexer : Lexer) : Reads lexer lexer :=
  ⟨0, Nat.le_of_eq (Nat.zero_add _), fun bound => by rw [Nat.zero_add]⟩

theorem Reads.trans (first : Reads lexer middle) (second : Reads middle later) :
    Reads lexer later := by
  obtain ⟨count, hcount, hfirst⟩ := first
  obtain ⟨more, hmore, hsecond⟩ := second
  refine ⟨count + more, by omega, ?_⟩
  intro bound
  rw [← hsecond bound, ← hfirst (more + bound), Nat.add_assoc count more bound]

/-- A document that leads to one that is refused is refused. -/
theorem Reads.fails (first : Reads lexer middle) (second : Fails middle) : Fails lexer := by
  obtain ⟨count, hcount, hfirst⟩ := first
  obtain ⟨error, more, hmore, hsecond⟩ := second
  refine ⟨error, count + more, by omega, ?_⟩
  intro bound
  rw [← hsecond bound, ← hfirst (more + bound), Nat.add_assoc count more bound]

/-- A run depends only on the document from its next token on. -/
theorem run_congr_skip (h : lexer.skip = later.skip) (bound : Nat) :
    run (bound + 1) lexer = run (bound + 1) later := by
  simp only [run, h]

/-- Documents that are the same from their next token on. -/
theorem Reads.of_skip (h : lexer.skip = later.skip)
    (hlength : later.source.length ≤ lexer.source.length) : Reads lexer later :=
  ⟨0, by omega, fun bound => by rw [Nat.zero_add]; exact run_congr_skip h bound⟩

/-- A token and what is skipped before and after it. -/
theorem Reads.of_token {p : Placed} {rest : Source} (hsource : lexer.skip.source = p :: rest)
    (htoken : lexer.skip.takeToken p rest = .ok middle) (hskip : middle.skip = later.skip)
    (hlength : later.source.length < lexer.source.length) : Reads lexer later := by
  refine ⟨1, by omega, ?_⟩
  intro bound
  rw [← run_congr_skip hskip bound, Nat.add_comm 1 bound, run, hsource]
  exact congrArg (Except.bind · (run (bound + 1))) htoken

/-- A token that is refused. -/
theorem Fails.of_token {p : Placed} {rest : Source} {error : Error}
    (hsource : lexer.skip.source = p :: rest)
    (htoken : lexer.skip.takeToken p rest = .error error) :
    Fails lexer := by
  refine ⟨error, 0, Nat.zero_le _, ?_⟩
  intro bound
  rw [Nat.zero_add, run, hsource]
  exact congrArg (Except.bind · (run bound)) htoken

/-- A token is read as if the collections that it does not belong to had been closed. -/
theorem takeToken_congr_close {p : Placed} (rest : Source)
    (h : lexer.close (p.column + 1) = later.close (p.column + 1)) :
    lexer.takeToken p rest = later.takeToken p rest := by
  simp only [takeToken, h]

end Lexer

/-- The tokens of a written document are what a run over it finds. -/
theorem tokens_of_written {text : Text} (hwritten : IsWritten text) : tokens text =
    (Lexer.run (text.length + 1) (.ofSource (Spot.start.source text))).map Array.toList := by
  have hall : text.all isDocumentCharacter = true :=
    List.all_eq_true.mpr fun c hc => isDocumentCharacter_of_written (hwritten c hc)
  rw [tokens, if_pos hall, Source.ofText_eq hwritten]

/-- A document leads to its tokens if the run over it comes to an end with them. -/
theorem tokens_of_reads {text : Text} {found : List Token} {later : Lexer}
    (hwritten : IsWritten text) (hreads : (Lexer.ofSource (Spot.start.source text)).Reads later)
    (hend : ∀ bound, Lexer.run (bound + 1) later = .ok found.toArray) :
    tokens text = .ok found := by
  obtain ⟨count, hcount, hrun⟩ := hreads
  have hlength : (Lexer.ofSource (Spot.start.source text)).source.length = text.length :=
    Spot.length_source _ _
  have hbound : text.length + 1 = count + (text.length - count) + 1 := by omega
  rw [tokens_of_written hwritten, hbound, hrun, hend]
  rfl

/-- A document has no tokens if the run over it is refused. -/
theorem tokens_of_fails {text : Text} (hwritten : IsWritten text)
    (hfails : (Lexer.ofSource (Spot.start.source text)).Fails) :
    ∃ error, tokens text = .error error := by
  obtain ⟨error, count, hcount, hrun⟩ := hfails
  have hlength : (Lexer.ofSource (Spot.start.source text)).source.length = text.length :=
    Spot.length_source _ _
  have hbound : text.length + 1 = count + (text.length - count) + 1 := by omega
  rw [tokens_of_written hwritten, hbound, hrun]
  exact ⟨error, rfl⟩

/-! ## Outside brackets -/

/-- What has been read of a document outside brackets: its tokens, the first column inside the
innermost collection and the same for the collections around it. -/
structure Stage where
  tokens : List Token
  inner : Nat
  outer : List Nat

namespace Stage

/-- Before anything is read. -/
def start : Stage := ⟨[], 0, []⟩

/-- After further tokens. -/
def emit (stage : Stage) (more : List Token) :
    Stage := { stage with tokens := stage.tokens ++ more }

/-- Inside a collection at a column, whose token is there unless it was open already. -/
def opened (stage : Stage) (column : Nat) (collection : Token) : Stage :=
  if column < stage.inner then stage
  else ⟨stage.tokens ++ [collection], column + 1, stage.inner :: stage.outer⟩

@[simp] theorem inner_emit (stage : Stage) (more : List Token) :
    (stage.emit more).inner = stage.inner := rfl

theorem emit_emit (stage : Stage) (more still : List Token) :
    (stage.emit more).emit still = stage.emit (more ++ still) := by
  simp only [emit, List.append_assoc]

theorem opened_of_lt {stage : Stage} {column : Nat} (collection : Token)
    (h : column < stage.inner) : stage.opened column collection = stage := if_pos h

theorem opened_of_le {stage : Stage} {column : Nat} (collection : Token)
    (h : stage.inner ≤ column) : stage.opened column collection =
      ⟨stage.tokens ++ [collection], column + 1, stage.inner :: stage.outer⟩ :=
  if_neg (Nat.not_lt.mpr h)

/-- The tokens of a collection at a column, with those for its start and end unless it is open. -/
def bracketed (stage : Stage) (column : Nat) (collection : Token) (parts : List Token) :
    List Token :=
  if column < stage.inner then parts else collection :: (parts ++ [.blockEnd])

/-- A collection at the column that may be open is open afterwards. -/
theorem inner_opened {stage : Stage} {column : Nat} (collection : Token)
    (h : stage.inner ≤ column + 1) : (stage.opened column collection).inner = column + 1 := by
  unfold opened
  split
  · omega
  · rfl

end Stage

namespace Lexer

/-- A document outside brackets, of which a text from a place on is left. -/
def on (stage : Stage) (spot : Spot) (text : Text) (key : Option PossibleKey) (keyAllowed : Bool) :
    Lexer :=
  ⟨spot.source text, stage.tokens.toArray, stage.inner, stage.outer, key, [], keyAllowed⟩

section on

variable (stage : Stage) (spot : Spot) (text : Text) (key : Option PossibleKey) (keyAllowed : Bool)

@[simp] theorem source_on : (on stage spot text key keyAllowed).source = spot.source text := rfl

@[simp] theorem inFlow_on : (on stage spot text key keyAllowed).inFlow = false := rfl

@[simp] theorem keyAllowed_on : (on stage spot text key keyAllowed).keyAllowed = keyAllowed := rfl

@[simp] theorem inner_on : (on stage spot text key keyAllowed).inner = stage.inner := rfl

/-- The document from its next token on. -/
theorem skip_on : (on stage spot text key keyAllowed).skip =
    { on stage spot text key keyAllowed with
      source := (skipFrom false false keyAllowed (spot.source text)).1
      keyAllowed := (skipFrom false false keyAllowed (spot.source text)).2 } := rfl

/-- A further token. -/
theorem take_on (token : Token) (later : Spot) (rest : Text) (allowed : Bool) :
    (on stage spot text key keyAllowed).take token (later.source rest) allowed =
      on (stage.emit [token]) later rest key allowed := by
  simp [on, take, Stage.emit]

/-- No collection is closed by what stands inside it. -/
theorem close_on {limit : Nat} (h : stage.inner ≤ limit) :
    (on stage spot text key keyAllowed).close limit = on stage spot text key keyAllowed := by
  obtain ⟨found, inner, outer⟩ := stage
  cases outer with
  | nil => rfl
  | cons next outer =>
    have hclose : closeFrom limit found.toArray inner (next :: outer) =
        (found.toArray, inner, next :: outer) := if_neg (Nat.not_lt.mpr h)
    simp only [close, inFlow_on]
    simp only [on, hclose]
    rfl

end on

/-- The innermost collection is closed by what stands to the left of it. -/
theorem close_on_cons {limit : Nat} (found : List Token) (inner next : Nat) (outer : List Nat)
    (spot : Spot) (text : Text) (key : Option PossibleKey) (keyAllowed : Bool) (h : limit < inner) :
    (on ⟨found, inner, next :: outer⟩ spot text key keyAllowed).close limit =
      (on ⟨found ++ [.blockEnd], next, outer⟩ spot text key keyAllowed).close limit := by
  have hclose : closeFrom limit found.toArray inner (next :: outer) =
      closeFrom limit (found ++ [Token.blockEnd]).toArray next outer := by
    rw [closeFrom, if_pos h, List.push_toArray]
  simp only [close, inFlow_on, Bool.false_eq_true, if_false]
  simp only [on, hclose]

end Lexer

/-! ## What is skipped -/

/-- Whether something starts with the character, wherever it stands outside brackets. -/
def isStart (c : Char) : Bool := !isGap c && c ≠ '#' && c ≠ '\ufeff'

theorem not_isGap_of_isStart {c : Char} (h : isStart c = true) : isGap c = false := by
  simp only [isStart, Bool.and_eq_true, Bool.not_eq_true'] at h
  exact h.1.1

theorem not_isBreak_of_not_isGap {c : Char} (h : isGap c = false) : isBreak c = false := by
  simp only [isGap, Bool.or_eq_false_iff] at h
  exact h.2

theorem not_isSpace_of_not_isGap {c : Char} (h : isGap c = false) : isSpace c = false := by
  simp only [isGap, Bool.or_eq_false_iff] at h
  exact h.1

theorem ne_space_of_not_isGap {c : Char} (h : isGap c = false) : c ≠ ' ' := by
  intro heq
  rw [heq] at h
  exact absurd h (by decide)

theorem ne_tab_of_not_isGap {c : Char} (h : isGap c = false) : c ≠ '\t' := by
  intro heq
  rw [heq] at h
  exact absurd h (by decide)

/-- Spaces lead on along their line. -/
theorem Spot.after_spaces (spot : Spot) (count : Nat) :
    spot.after (spaces count) = ⟨spot.index + count, spot.line, spot.column + count⟩ := by
  have hbreak : ∀ c ∈ spaces count, isBreak c = false := by
    intro c hc
    rw [List.eq_of_mem_replicate hc]
    decide
  rw [after_of_not_break spot hbreak, spaces, List.length_replicate]

/-- A text whose last line is ended leads to the start of a later line. -/
theorem Spot.after_of_endsWith (spot : Spot) {text : Text} (h : endsWith isBreak text = true) :
    (spot.after text).column = 0 ∧ spot.line < (spot.after text).line := by
  unfold endsWith at h
  cases hlast : text.getLast? with
  | none => simp [hlast] at h
  | some c =>
    obtain ⟨before, rfl⟩ := List.getLast?_eq_some_iff.mp hlast
    rw [hlast] at h
    exact after_append_break spot before h

/-- A line that is ended has its end. -/
theorem endsWith_endLine (text : Text) : endsWith isBreak (endLine text) = true := by
  unfold endLine
  split
  · assumption
  · simp [endsWith, isBreak]

namespace Lexer

/-- Nothing is skipped where something starts. -/
theorem skipFrom_start {inFlow keyAllowed : Bool} {p : Placed} (rest : Source)
    (h : isStart p.char = true) :
    skipFrom inFlow false keyAllowed (p :: rest) = (p :: rest, keyAllowed) := by
  have hgap := not_isGap_of_isStart h
  have hbreak := not_isBreak_of_not_isGap hgap
  have hspace := ne_space_of_not_isGap hgap
  have htab := ne_tab_of_not_isGap hgap
  simp only [isStart, Bool.and_eq_true, decide_eq_true_iff] at h
  simp [skipFrom, hbreak, hspace, htab, h.1.2, h.2]

/-- Spaces are skipped. -/
theorem skipFrom_spaces (inFlow keyAllowed : Bool) (spot : Spot) (count : Nat) (rest : Text) :
    skipFrom inFlow false keyAllowed (spot.source (spaces count ++ rest)) =
      skipFrom inFlow false keyAllowed ((spot.after (spaces count)).source rest) := by
  induction count generalizing spot with
  | zero => rfl
  | succ count ih =>
    have hspace : isBreak ' ' = false := by decide
    simp only [spaces, List.replicate_succ, List.cons_append, Spot.source_cons, Spot.after_cons]
    rw [← spaces, ← ih (spot.next ' ')]
    simp [skipFrom, hspace]

end Lexer

/-! ## What comes after a node -/

/-- The rest of a document does not belong to what is open inside a column: nothing is left, or the
next line has its first character to the left of the column. -/
def IsOutside (inner : Nat) (rest : Text) : Prop :=
  rest = [] ∨ ∃ column c more, rest = spaces column ++ c :: more ∧ isStart c = true ∧ column < inner

theorem IsOutside.mono {inner outer : Nat} {rest : Text} (h : IsOutside inner rest)
    (hle : inner ≤ outer) : IsOutside outer rest := by
  obtain rfl | ⟨column, c, more, rfl, hstart, hlt⟩ := h
  · exact .inl rfl
  · exact .inr ⟨column, c, more, rfl, hstart, Nat.lt_of_lt_of_le hlt hle⟩

/-- No key has to start where one may have started. -/
def IsFree (key : Option PossibleKey) : Prop := ∀ k ∈ key, k.required = false

/-- A key that may have started did so on an earlier line. -/
def IsPast (spot : Spot) (key : Option PossibleKey) : Prop :=
  ∀ k ∈ key, k.required = false ∧ k.place.line < spot.line

/-- A key that may have started did so on this line at the latest. -/
def IsHere (spot : Spot) (key : Option PossibleKey) : Prop :=
  ∀ k ∈ key, k.required = false ∧ k.place.line ≤ spot.line

theorem isPast_none (spot : Spot) : IsPast spot none := by simp [IsPast]

theorem isHere_none (spot : Spot) : IsHere spot none := by simp [IsHere]

theorem IsPast.isFree {spot : Spot} {key : Option PossibleKey} (h : IsPast spot key) : IsFree key :=
  fun k hk => (h k hk).1

/-- A key that started on an earlier line did so later on, too. -/
theorem IsPast.mono {spot later : Spot} {key : Option PossibleKey} (h : IsPast spot key)
    (hle : spot.line ≤ later.line) : IsPast later key :=
  fun k hk => ⟨(h k hk).1, Nat.lt_of_lt_of_le (h k hk).2 hle⟩

theorem IsHere.isFree {spot : Spot} {key : Option PossibleKey} (h : IsHere spot key) : IsFree key :=
  fun k hk => (h k hk).1

theorem IsHere.mono {spot later : Spot} {key : Option PossibleKey} (h : IsHere spot key)
    (hle : spot.line ≤ later.line) : IsHere later key :=
  fun k hk => ⟨(h k hk).1, Nat.le_trans (h k hk).2 hle⟩

/-- After the end of its line a key that may have started did so earlier. -/
theorem IsHere.isPast {spot later : Spot} {key : Option PossibleKey} (h : IsHere spot key)
    (hlt : spot.line < later.line) : IsPast later key :=
  fun k hk => ⟨(h k hk).1, Nat.lt_of_le_of_lt (h k hk).2 hlt⟩

namespace Lexer

/-- Where nothing is left there is no token. -/
theorem skip_on_nil (stage : Stage) (spot : Spot) (key : Option PossibleKey) (keyAllowed : Bool) :
    (on stage spot [] key keyAllowed).skip = on stage spot [] key keyAllowed := rfl

/-- Nothing is skipped where something starts. -/
theorem skip_on_start (stage : Stage) (spot : Spot) {c : Char} (rest : Text)
    (key : Option PossibleKey) (keyAllowed : Bool) (h : isStart c = true) :
    (on stage spot (c :: rest) key keyAllowed).skip = on stage spot (c :: rest) key keyAllowed := by
  rw [skip_on, Spot.source_cons, skipFrom_start _ h]
  rfl

/-- Spaces are skipped. -/
theorem skip_on_spaces (stage : Stage) (spot : Spot) (count : Nat) (rest : Text)
    (key : Option PossibleKey) (keyAllowed : Bool) :
    (on stage spot (spaces count ++ rest) key keyAllowed).skip =
      (on stage (spot.after (spaces count)) rest key keyAllowed).skip := by
  rw [skip_on, skip_on, skipFrom_spaces]
  rfl

/-- After a line end a key may start. -/
theorem skip_on_break (stage : Stage) (spot : Spot) {c : Char} (rest : Text)
    (key : Option PossibleKey) (keyAllowed : Bool) (h : isBreak c = true) :
    (on stage spot (c :: rest) key keyAllowed).skip =
      (on stage (spot.next c) rest key true).skip := by
  have hskip : skipFrom false false keyAllowed (spot.source (c :: rest)) =
      skipFrom false false true ((spot.next c).source rest) := by
    simp [skipFrom, h]
  rw [skip_on, skip_on, hskip]
  rfl

/-- The rest of a document after spaces leads to what comes after them. -/
theorem reads_spaces (stage : Stage) (spot : Spot) (count : Nat) (rest : Text)
    (key : Option PossibleKey) (keyAllowed : Bool) :
    (on stage spot (spaces count ++ rest) key keyAllowed).Reads
      (on stage (spot.after (spaces count)) rest key keyAllowed) := by
  apply Reads.of_skip (skip_on_spaces stage spot count rest key keyAllowed)
  simp

/-- Nothing is left of the document, or the next token starts to the left of the column. -/
theorem skip_on_outside {inner : Nat} {rest : Text} (h : IsOutside inner rest) (spot : Spot)
    (key : Option PossibleKey) (keyAllowed : Bool) (hcolumn : spot.column = 0) :
    rest = [] ∨ ∃ later c more, isStart c = true ∧ later.column < inner ∧
      (∀ stage, (on stage spot rest key keyAllowed).skip =
        on stage later (c :: more) key keyAllowed) := by
  obtain rfl | ⟨column, c, more, rfl, hstart, hlt⟩ := h
  · exact .inl rfl
  · have hafter : (spot.after (spaces column)).column = column := by
      rw [Spot.after_spaces, hcolumn, Nat.zero_add]
    refine .inr ⟨spot.after (spaces column), c, more, hstart, by rw [hafter]; exact hlt, ?_⟩
    intro stage
    rw [skip_on_spaces, skip_on_start _ _ _ _ _ hstart]

/-- It is the same whether a collection that the rest of the document does not belong to is
closed. -/
theorem reads_blockEnd {column : Nat} {rest : Text} (h : IsOutside column rest) (found : List Token)
    (next : Nat) (outer : List Nat) (spot : Spot) (key : Option PossibleKey)
    (hcolumn : spot.column = 0) :
    (on ⟨found, column + 1, next :: outer⟩ spot rest key true).Reads
      (on ⟨found ++ [.blockEnd], next, outer⟩ spot rest key true) := by
  refine ⟨0, by simp, fun bound => ?_⟩
  rw [Nat.zero_add]
  obtain rfl | ⟨later, c, more, -, hlt, hskip⟩ := skip_on_outside h spot key true hcolumn
  · simp only [run, skip_on_nil, source_on, Spot.source_nil]
    rw [close_on_cons _ _ _ _ _ _ _ _ (Nat.succ_pos column)]
  · simp only [run, hskip, source_on, Spot.source_cons]
    rw [takeToken_congr_close _ (close_on_cons _ _ _ _ _ _ _ _ (Nat.succ_lt_succ hlt))]

/-- The end of a collection that was opened unless it was open already. -/
theorem reads_bracketed {stage : Stage} {rest : Text} (h : IsOutside stage.inner rest)
    (column : Nat) (collection : Token) (parts : List Token)
    (spot : Spot) (key : Option PossibleKey) (hcolumn : spot.column = 0) :
    (on ((stage.opened column collection).emit parts) spot rest key true).Reads
      (on (stage.emit (stage.bracketed column collection parts)) spot rest key true) := by
  rcases Nat.lt_or_ge column stage.inner with hlt | hge
  · rw [Stage.opened_of_lt collection hlt, Stage.bracketed, if_pos hlt]
    exact Reads.refl _
  · rw [Stage.opened_of_le collection hge, Stage.bracketed, if_neg (Nat.not_lt.mpr hge)]
    have hclosed := reads_blockEnd (h.mono hge) (stage.tokens ++ [collection] ++ parts) stage.inner
      stage.outer spot key hcolumn
    simpa [Stage.emit] using hclosed

/-! ## Places where a key may start -/

/-- The place that is kept in mind after a token that a key may start with. -/
def noted (stage : Stage) (p : Placed) (key : Option PossibleKey) (keyAllowed : Bool) :
    Option PossibleKey :=
  if keyAllowed then some ⟨stage.tokens.length, p, stage.inner = p.column + 1⟩ else key

theorem noted_true (stage : Stage) (p : Placed) (key : Option PossibleKey) :
    noted stage p key true = some ⟨stage.tokens.length, p, stage.inner = p.column + 1⟩ := rfl

theorem noted_false (stage : Stage) (p : Placed) (key : Option PossibleKey) :
    noted stage p key false = key := rfl

/-- Nothing has to be a key that stands further in than the keys of the innermost collection. -/
theorem isFree_noted {stage : Stage} {p : Placed} {key : Option PossibleKey} {keyAllowed : Bool}
    (h : IsFree key) (hinner : keyAllowed = true → stage.inner ≤ p.column) :
    IsFree (noted stage p key keyAllowed) := by
  cases keyAllowed with
  | false => exact h
  | true =>
    intro k hk
    obtain rfl := Option.some.inj hk
    have hle := hinner rfl
    exact decide_eq_false (by omega)

/-- A key that may start right here does so on this line. -/
theorem isHere_noted {stage : Stage} {spot : Spot} {c : Char} {key : Option PossibleKey}
    {keyAllowed : Bool} (h : IsHere spot key)
    (hinner : keyAllowed = true → stage.inner ≤ spot.column) :
    IsHere spot (noted stage (spot.placed c) key keyAllowed) := by
  intro k hk
  refine ⟨isFree_noted h.isFree hinner k hk, ?_⟩
  cases keyAllowed with
  | false => exact (h k hk).2
  | true =>
    obtain rfl := Option.some.inj hk
    exact Nat.le_refl _

section keys

variable {stage : Stage} {spot : Spot} {text : Text} {key : Option PossibleKey} {keyAllowed : Bool}

/-- A place where no key has to start is forgotten. -/
theorem forgetKey_on (h : IsFree key) :
    (on stage spot text key keyAllowed).forgetKey = .ok (on stage spot text none keyAllowed) := by
  cases key with
  | none => rfl
  | some k => simp [forgetKey, on, h k rfl]

/-- The place is kept in mind if a key may start there. -/
theorem noteKey_on (p : Placed) (h : keyAllowed = true → IsFree key) :
    (on stage spot text key keyAllowed).noteKey p =
      .ok (on stage spot text (noted stage p key keyAllowed) keyAllowed) := by
  cases keyAllowed with
  | false => rfl
  | true =>
    rw [noteKey, keyAllowed_on, if_pos rfl, forgetKey_on (h rfl)]
    rfl

/-- A part of a node that a key may start with. -/
theorem takePart_on (p : Placed) (h : keyAllowed = true → IsFree key) (token : Token) (later : Spot)
    (rest : Text) :
    (on stage spot text key keyAllowed).takePart p (.ok (token, later.source rest)) =
      .ok (on (stage.emit [token]) later rest (noted stage p key keyAllowed) false) := by
  rw [takePart, noteKey_on p h]
  exact congrArg Except.ok (take_on _ _ _ _ _ _ _ _ _)

end keys

/-! ## Parts that may be refused -/

/-- A part that can be read leads on to the start of a line, and one that cannot be read is
refused. -/
structure Leads (readable : Prop) (lexer : Lexer) (stage : Stage) (spot : Spot) (rest : Text) :
    Prop where
  reads : readable → ∃ key, IsPast spot key ∧ lexer.Reads (on stage spot rest key true)
  fails : ¬readable → lexer.Fails

namespace Leads

variable {p q : Prop} {lexer middle : Lexer} {stage further : Stage} {spot later : Spot}
  {text rest : Text}

/-- A part that can always be read. -/
theorem of_reads {key : Option PossibleKey} (hkey : IsPast spot key)
    (h : lexer.Reads (on stage spot rest key true)) : Leads True lexer stage spot rest :=
  ⟨fun _ => ⟨key, hkey, h⟩, fun hnot => absurd trivial hnot⟩

/-- Something that is read before a part. -/
theorem after (first : lexer.Reads middle) (h : Leads p middle stage spot rest) :
    Leads p lexer stage spot rest := by
  refine ⟨fun hp => ?_, fun hp => first.fails (h.fails hp)⟩
  obtain ⟨key, hkey, hreads⟩ := h.reads hp
  exact ⟨key, hkey, first.trans hreads⟩

/-- A part and another one after it. -/
theorem andThen (first : Leads p lexer stage spot text)
    (second : ∀ key, IsPast spot key → Leads q (on stage spot text key true) further later rest) :
    Leads (p ∧ q) lexer further later rest := by
  refine ⟨fun hpq => ?_, fun hpq => ?_⟩
  · obtain ⟨key, hkey, hreads⟩ := first.reads hpq.1
    exact (after hreads (second key hkey)).reads hpq.2
  · by_cases hp : p
    · obtain ⟨key, hkey, hreads⟩ := first.reads hp
      exact hreads.fails ((second key hkey).fails fun hq => hpq ⟨hp, hq⟩)
    · exact first.fails hp

/-- It is the same whether what a part has opened is closed. -/
theorem close (first : Leads p lexer stage spot rest)
    (second : ∀ key, (on stage spot rest key true).Reads (on further spot rest key true)) :
    Leads p lexer further spot rest := by
  refine ⟨fun hp => ?_, first.fails⟩
  obtain ⟨key, hkey, hreads⟩ := first.reads hp
  exact ⟨key, hkey, hreads.trans (second key)⟩

theorem congr (h : Leads p lexer stage spot rest) (hiff : p ↔ q) : Leads q lexer stage spot rest :=
  ⟨fun hq => h.reads (hiff.mpr hq), fun hq => h.fails fun hp => hq (hiff.mp hp)⟩

end Leads
end Lexer
end HostKit.Yaml
