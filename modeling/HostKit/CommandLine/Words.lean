import HostKit.CommandLine.Parameter

/-!
# From words to arguments

The words of a command line are taken one after the other. A flag's value is the word after
it, or what follows an equals sign or its letter in the same word. Two hyphens alone end the
flags. The name of a command ends the words of the command above it; all words after it are
its own.

A value is looked at only when the next flag or operand begins or the words end, so of two
errors an unknown argument is found before a wrong value in front of it.
-/

namespace HostKit.CommandLine

/-- A flag or an operand whose value has not been looked at yet. -/
structure Pending where
  name : Text
  kind : Kind
  /-- Whether it may be given only once. -/
  isOnce : Bool
  values : List Text

/-- The words of a command of which some have been taken. -/
structure Progress where
  given : Given
  pending : Option Pending
  operandsTaken : Nat
  /-- Whether all further words are operands. -/
  onlyOperands : Bool

namespace Progress

/-- No words taken. -/
def start : Progress := ⟨[], none, 0, false⟩

/-- Whether the next word is the value of the flag before it. -/
def awaitsValue (progress : Progress) : Bool := progress.pending.any (·.values.isEmpty)

/-- Looks at the value of what is pending. -/
def settle (progress : Progress) : Except UsageError Progress :=
  match progress.pending with
  | none => .ok progress
  | some pending =>
    if pending.values = [] then .error .invalidValue
    else if pending.isOnce && progress.given.has pending.name then .error .argumentConflict
    else do
      let arguments ← pending.values.mapM pending.kind.read
      let entries := arguments.map fun argument => (pending.name, argument)
      .ok { progress with given := progress.given ++ entries, pending := none }

/-- Begins a flag or an operand with the values it has so far. -/
def begin (name : Text) (kind : Kind) (isOnce : Bool) (values : List Text)
    (progress : Progress) : Except UsageError Progress := do
  let progress ← progress.settle
  .ok { progress with pending := some ⟨name, kind, isOnce, values⟩ }

/-- Takes a flag of a kind, with its value if that is in the same word. -/
def takeValueFlag (name : Text) (kind : Kind) (isOnce : Bool) (value? : Option Text)
    (progress : Progress) : Except UsageError Progress := do
  let progress ← progress.begin name kind isOnce value?.toList
  if value?.isSome then progress.settle else .ok progress

/-- Takes a flag, with its value if that is in the same word. -/
def takeFlag (flag : Flag) (value? : Option Text) (progress : Progress) :
    Except UsageError Progress :=
  match flag.effect with
  | .once kind => progress.takeValueFlag flag.name kind true value?
  | .repeated kind => progress.takeValueFlag flag.name kind false value?
  | .switch =>
    if value?.isSome then .error .tooManyValues
    else do
      let progress ← progress.settle
      if progress.given.has flag.name then .error .argumentConflict
      else .ok { progress with given := progress.given ++ [(flag.name, .present)] }
  | .ends reason =>
    if value?.isSome then .error .tooManyValues
    else do
      let _ ← progress.settle
      .error reason

/-- Takes an operand. -/
def takeOperand (level : Level) (word : Text) (progress : Progress) :
    Except UsageError Progress :=
  match level.operands[progress.operandsTaken]? with
  | some operand =>
    if progress.pending.any fun pending => pending.name = operand.name then
      let more := fun pending : Pending => { pending with values := pending.values ++ [word] }
      .ok { progress with pending := progress.pending.map more }
    else do
      let progress ← progress.begin operand.name operand.kind (!operand.takesRest) [word]
      if operand.takesRest then .ok { progress with onlyOperands := true }
      else .ok { progress with operandsTaken := progress.operandsTaken + 1 }
  | none =>
    if level.subcommands = [] ∨ (progress.onlyOperands ∧ word.isOneOf level.subcommands) then
      .error .unknownArgument
    else .error .invalidSubcommand

/-- Takes a word that is no flag: the value that is awaited, or an operand. -/
def takeValue (level : Level) (word : Text) (progress : Progress) :
    Except UsageError Progress :=
  match progress.pending with
  | some pending =>
    if pending.values = [] then
      .ok { progress with pending := some { pending with values := [word] } }
    else progress.takeOperand level word
  | none => progress.takeOperand level word

/-- Whether the next operand takes words that start with a hyphen. -/
def takesHyphens (level : Level) (progress : Progress) : Bool :=
  (level.operands[progress.operandsTaken]?).any (·.takesHyphens)

/-- Takes a flag by its name, from a word without its two hyphens. -/
def takeNamed (level : Level) (word body : Text) (progress : Progress) :
    Except UsageError Progress :=
  let (name, value?) :=
    match Text.splitFirst? '=' body with
    | some (name, value) => (name, some value)
    | none => (body, none)
  match level.flag? name with
  | some flag => progress.takeFlag flag value?
  | none =>
    if progress.takesHyphens level then progress.takeValue level word
    else .error .unknownArgument

/-- The value behind the letter of a flag in the same word. -/
def attachedValue? : Text → Option Text
  | [] => none
  | '=' :: value => some value
  | value => some value

/-- Takes flags by their letters, up to one that has a value. -/
def takeLetters (level : Level) : Text → Progress → Except UsageError Progress
  | [], progress => .ok progress
  | letter :: rest, progress =>
    match level.flagOfLetter? letter with
    | none => .error .unknownArgument
    | some flag =>
      if flag.effect.hasValue then progress.takeFlag flag (attachedValue? rest)
      else do takeLetters level rest (← progress.takeFlag flag none)

/-- Takes a word before the flags have ended. -/
def takeWord (level : Level) (word : Text) (progress : Progress) : Except UsageError Progress :=
  match word with
  | '-' :: '-' :: body => progress.takeNamed level word body
  | '-' :: letter :: letters =>
    let isCluster := (letter :: letters).all fun c => (level.flagOfLetter? c).isSome
    if progress.takesHyphens level && !isCluster then progress.takeValue level word
    else takeLetters level (letter :: letters) progress
  | word => progress.takeValue level word

end Progress

/-- A command further down, and the words after its name. -/
abbrev Descent := Option (Text × List Text)

/-- Takes words up to the name of a command or to their end. -/
def takeWords (level : Level) : List Text → Progress → Except UsageError (Progress × Descent)
  | [], progress => .ok (progress, none)
  | word :: rest, progress =>
    if progress.onlyOperands then do takeWords level rest (← progress.takeOperand level word)
    else if !progress.awaitsValue && word.isOneOf level.subcommands then
      .ok (progress, some (word, rest))
    else if word = "--".toList then takeWords level rest { progress with onlyOperands := true }
    else do takeWords level rest (← progress.takeWord level word)

end HostKit.CommandLine
