import HostKit.Environment
import HostKit.Failure
import HostKit.Text.WordCharacter

/-!
# Paths with variables

A dollar sign and a name stand for an environment variable, and so does a name in braces,
which may bring a default for a variable that is not set. Two dollar signs stand for one, and
a dollar sign before anything else for itself. A tilde at the start, alone or before a slash,
stands for the home directory, unless it comes out of a variable or no home directory is known.
Values are put in as they are and not looked through again.
-/

namespace HostKit.Expand

/-- Why a path could not be expanded: a variable is not set. -/
structure Unset where
  name : Text
  deriving Repr, DecidableEq

/-- The wording of the error. -/
def Unset.message (unset : Unset) : Text :=
  "error looking key '" ++ unset.name ++ "' up: environment variable not found"

/-- Whether the character may stand in a name that is not in braces. -/
def isNameCharacter (c : Char) : Bool := c = '_' || Text.isAlphanumeric c

/-- The text before and after the first colon and dash, if there are any. -/
def splitDefault? : Text → Option (Text × Text)
  | [] | [_] => none
  | ':' :: '-' :: rest => some ([], rest)
  | c :: rest => (splitDefault? rest).map fun (before, after) => (c :: before, after)

/-- The name and the default of what stands between braces. What starts with the colon and the
dash has no default. -/
def nameAndDefault (content : Text) : Text × Option Text :=
  match splitDefault? content with
  | some ([], _) => (content, none)
  | some (name, default) => (name, some default)
  | none => (content, none)

/-- The value of a variable, its default if it is not set. -/
def lookup (environment : Environment) (name : Text) (default : Option Text) : Except Unset Text :=
  match environment.value? name, default with
  | some value, _ => .ok value
  | none, some value => .ok value
  | none, none => .error ⟨name⟩

/-- Splitting at a character takes it at least. -/
theorem splitFirst?_rest_lt {separator : Char} {text before after : Text}
    (h : Text.splitFirst? separator text = some (before, after)) :
    after.length < text.length := by
  induction text generalizing before with
  | nil => simp [Text.splitFirst?] at h
  | cons c text ih =>
    unfold Text.splitFirst? at h
    split at h
    · simp only [Option.some.injEq, Prod.mk.injEq] at h
      obtain ⟨-, rfl⟩ := h
      simp
    · simp only [Option.map_eq_some_iff, Prod.mk.injEq] at h
      obtain ⟨⟨b, a⟩, hs, -, rfl⟩ := h
      have : a.length < text.length := ih hs
      simp only [List.length_cons]; omega

/-- The text with its variables replaced. -/
def variablesIn (environment : Environment) (text : Text) : Except Unset Text :=
  match text with
  | [] => .ok []
  | '$' :: '\x7b' :: rest =>
    match h : Text.splitFirst? '\x7d' rest with
    | none => do
      let later ← variablesIn environment rest
      .ok ('$' :: '\x7b' :: later)
    | some (content, after) => do
      have : after.length < rest.length := splitFirst?_rest_lt h
      let (name, default) := nameAndDefault content
      let value ← lookup environment name default
      let later ← variablesIn environment after
      .ok (value ++ later)
  | '$' :: '$' :: rest => do
    let later ← variablesIn environment rest
    .ok ('$' :: later)
  | '$' :: c :: rest =>
    if isNameCharacter c then do
      have : (rest.dropWhile isNameCharacter).length ≤ rest.length :=
        (List.dropWhile_sublist isNameCharacter).length_le
      let value ← lookup environment (c :: rest.takeWhile isNameCharacter) none
      let later ← variablesIn environment (rest.dropWhile isNameCharacter)
      .ok (value ++ later)
    else do
      let later ← variablesIn environment (c :: rest)
      .ok ('$' :: later)
  | c :: rest => do
    let later ← variablesIn environment rest
    .ok (c :: later)
  termination_by text.length

/-- The text with a tilde at its start replaced by the home directory, if there is one. -/
def tilde (home? : Option Text) (text : Text) : Text :=
  match home?, text with
  | some home, ['~'] => home
  | some home, '~' :: '/' :: rest => home ++ '/' :: rest
  | _, text => text

/-- The path with its variables and its tilde replaced. -/
def path (environment : Environment) (home? : Option Text) (text : Text) :
    Except Unset Text := do
  let replaced ← variablesIn environment text
  if text.head? ≠ some '~' ∧ replaced.head? = some '~' then .ok replaced
  else .ok (tilde home? replaced)

/-- The home directory that the variables name, or else the one in the user database. An empty name
names none. -/
def homeOf (environment : Environment) : Option Text :=
  ((environment.value? "HOME").filter (· ≠ [])) <|> environment.userHome.filter (· ≠ [])

end HostKit.Expand
