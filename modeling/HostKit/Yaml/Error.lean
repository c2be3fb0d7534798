import HostKit.Failure

/-!
# Errors of YAML documents

Reading stops at the first thing that is wrong with a document. Writing fails only for values
whose tags or keys the written form has no place for.
-/

namespace HostKit.Yaml

/-- Why a document could not be read or a value could not be written. -/
inductive Error where
  /-- A character that no document may hold. -/
  | controlCharacter
  /-- A line that starts with a percent sign is not a directive. -/
  | badDirective
  /-- A version other than 1.1 and 1.2 is asked for, or more than one. -/
  | badVersion
  /-- A tag is not of the form it should have. -/
  | badTag
  /-- The handle of a tag is defined twice or not at all. -/
  | badTagHandle
  /-- The name of an anchor or alias is empty or does not end where it should. -/
  | badAnchor
  /-- The first line of a block scalar has something else than its marks on it. -/
  | badBlockHeader
  /-- A tab stands where a space of the indentation is expected. -/
  | tabInIndentation
  /-- A quote is not closed. -/
  | openQuote
  /-- A document mark stands inside quotes. -/
  | markInQuotes
  /-- A backslash is followed by something that it cannot escape. -/
  | badEscape
  /-- A colon inside brackets is followed by another indicator. -/
  | badColon
  /-- A line that has to be a key has no colon. -/
  | missingColon
  /-- An entry, key or value stands where none may start. -/
  | misplaced
  /-- A character that starts nothing. -/
  | badStart
  /-- A node was expected. -/
  | missingNode
  /-- The next entry of a collection or its end was expected. -/
  | missingEntry
  /-- The start of a document was expected. -/
  | missingDocumentStart
  /-- There is more than one document. -/
  | severalDocuments
  /-- An alias names no anchor before it. -/
  | unknownAnchor
  /-- Collections are nested too deeply. -/
  | tooDeep
  /-- Aliases are followed too often. -/
  | tooManyAliases
  /-- A mapping has the same key twice. -/
  | duplicateKey
  /-- A scalar is not of the kind that its tag demands. -/
  | wrongKind
  /-- An integer is too large. -/
  | tooLarge
  /-- A tag stands directly under another tag. -/
  | nestedTag
  /-- A mapping of one entry has a key that is another such mapping or has a tag. -/
  | nestedKey
  deriving Repr, DecidableEq

/-- The wording of an error. -/
def Error.message : Error → Text
  | .controlCharacter => "control characters are not allowed"
  | .badDirective => "did not find a known directive"
  | .badVersion => "found an incompatible version"
  | .badTag => "did not find the expected tag"
  | .badTagHandle => "found an undefined or duplicate tag handle"
  | .badAnchor => "did not find the expected name of an anchor"
  | .badBlockHeader => "did not find the expected end of a block scalar's first line"
  | .tabInIndentation => "found a tab where indentation is expected"
  | .openQuote => "found the end of the document inside quotes"
  | .markInQuotes => "found a document mark inside quotes"
  | .badEscape => "found an unknown escape"
  | .badColon => "found an unexpected colon"
  | .missingColon => "could not find the expected colon"
  | .misplaced => "an entry, key or value is not allowed in this place"
  | .badStart => "found a character that cannot start anything"
  | .missingNode => "did not find the expected node"
  | .missingEntry => "did not find the expected entry or end of a collection"
  | .missingDocumentStart => "did not find the expected start of a document"
  | .severalDocuments => "found more than one document"
  | .unknownAnchor => "found an unknown anchor"
  | .tooDeep => "recursion limit exceeded"
  | .tooManyAliases => "repetition limit exceeded"
  | .duplicateKey => "found a duplicate key"
  | .wrongKind => "found a scalar that does not fit its tag"
  | .tooLarge => "found an integer that is too large"
  | .nestedTag => "a tag under another tag cannot be written"
  | .nestedKey => "the key of a mapping cannot be written"

/-- The failure that an error is to a caller. -/
def Error.toFailure (error : Error) : Failure := .codec "yaml" error.message

end HostKit.Yaml
