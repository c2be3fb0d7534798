import HostKit.CommandLine.Usage

/-!
# Flags and operands

A command takes flags, which are named by a word after two hyphens or by a letter after one,
and operands, which are known by their place. Each has a kind that says which values it may
have. Reading a value gives an argument of that kind.
-/

namespace HostKit.CommandLine

/-- What has been given for a flag or an operand. -/
inductive Argument where
  /-- The flag is there; it has no value. -/
  | present
  | text (value : Text)
  | number (value : Nat)
  | assignment (name value : Text)
  deriving Repr, DecidableEq

/-- Which values a flag or operand may have. -/
inductive Kind where
  | text
  /-- A text that is not empty. -/
  | path
  /-- A number up to a limit, which may be written with a plus sign, and as minus zero if the
  number is read with a sign. -/
  | number (largest : Nat) (isSigned : Bool)
  /-- One of the names. -/
  | choice (names : List Text)
  /-- A name that is not empty, an equals sign and a value. -/
  | assignment
  deriving Repr, DecidableEq

/-- The number that decimal digits stand for, if there are any and no other characters. -/
def digits? (text : Text) : Option Nat :=
  if text ≠ [] ∧ text.all Char.isDigit then
    some (text.foldl (fun n c => n * 10 + (c.toNat - '0'.toNat)) 0)
  else none

/-- The natural number that a text stands for. -/
def number? (isSigned : Bool) (text : Text) : Option Nat :=
  match text with
  | '+' :: rest => digits? rest
  | '-' :: rest => if isSigned then (digits? rest).filter (· = 0) else none
  | rest => digits? rest

/-- The argument that a value of the kind is. -/
def Kind.read (kind : Kind) (value : Text) : Except UsageError Argument :=
  match kind with
  | .text => .ok (.text value)
  | .path => if value = [] then .error .invalidValue else .ok (.text value)
  | .number largest isSigned =>
    match number? isSigned value with
    | some n => if n ≤ largest then .ok (.number n) else .error .valueValidation
    | none => .error .valueValidation
  | .choice names => if value.isOneOf names then .ok (.text value) else .error .invalidValue
  | .assignment =>
    match Text.splitFirst? '=' value with
    | some (name, value) =>
      if name = [] then .error .valueValidation else .ok (.assignment name value)
    | none => .error .valueValidation

/-- What a flag does. -/
inductive Effect where
  /-- It ends the reading of the words. -/
  | ends (reason : UsageError)
  /-- It is there or not. -/
  | switch
  /-- It has a value and may be given once. -/
  | once (kind : Kind)
  /-- It has a value each time it is given. -/
  | repeated (kind : Kind)
  deriving Repr, DecidableEq

/-- Whether a flag has a value. -/
def Effect.hasValue : Effect → Bool
  | .ends _ | .switch => false
  | .once _ | .repeated _ => true

/-- A flag with its name and its letter. -/
structure Flag where
  name : Text
  letter : Option Char := none
  effect : Effect
  deriving Repr, DecidableEq

/-- An operand. -/
structure Operand where
  name : Text
  kind : Kind := .text
  /-- Whether it takes a word that starts with a hyphen and is no flag. -/
  takesHyphens : Bool := false
  /-- Whether it takes all words from its place on, whatever they are. -/
  takesRest : Bool := false
  deriving Repr, DecidableEq

/-- What a command takes. -/
structure Level where
  flags : List Flag
  operands : List Operand := []
  /-- The names of the commands below it. -/
  subcommands : List Text := []

/-- The flag of that name. -/
def Level.flag? (level : Level) (name : Text) : Option Flag :=
  level.flags.find? fun flag => flag.name = name

/-- The flag of that letter. -/
def Level.flagOfLetter? (level : Level) (letter : Char) : Option Flag :=
  level.flags.find? fun flag => flag.letter = some letter

/-- What has been given, by name and in order. -/
abbrev Given := List (Text × Argument)

namespace Given

/-- Whether something has been given under the name. -/
def has (given : Given) (name : Text) : Bool := given.any fun entry => entry.1 = name

/-- All that has been given under the name. -/
def all (given : Given) (name : Text) : List Argument :=
  (given.filter fun entry => entry.1 = name).map Prod.snd

/-- The texts that have been given under the name. -/
def texts (given : Given) (name : Text) : List Text :=
  (given.all name).filterMap fun
    | .text value => some value
    | _ => none

/-- The text that has been given under the name. -/
def text? (given : Given) (name : Text) : Option Text := (given.texts name).head?

/-- The number that has been given under the name. -/
def number? (given : Given) (name : Text) : Option Nat :=
  ((given.all name).filterMap fun
    | .number value => some value
    | _ => none).head?

/-- The assignments that have been given under the name. -/
def assignments (given : Given) (name : Text) : List (Text × Text) :=
  (given.all name).filterMap fun
    | .assignment name value => some (name, value)
    | _ => none

/-- The text under the name, without which there is no command. -/
def require (given : Given) (name : Text) : Except UsageError Text :=
  match given.text? name with
  | some value => .ok value
  | none => .error .missingRequiredArgument

end Given
end HostKit.CommandLine
