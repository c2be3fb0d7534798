import HostKit.Yaml.Tag

/-!
# Tokens

The tokens of a document are its scalars, its names and tags, its indicators, and marks for
the starts and ends of collections that the indentation implies.
-/

namespace HostKit.Yaml

/-- How a scalar is written. -/
inductive Style where
  | plain
  | singleQuoted
  | doubleQuoted
  | literal
  | folded
  deriving Repr, DecidableEq

/-- A token. -/
inductive Token where
  /-- A directive that says the version of the language. -/
  | version (major minor : Nat)
  /-- A directive that defines the handle of a tag. -/
  | handle (name : Text) (start : Bytes)
  | documentStart
  | documentEnd
  /-- The start of a sequence by indentation. -/
  | blockSequence
  /-- The start of a mapping by indentation. -/
  | blockMapping
  /-- The end of a collection by indentation. -/
  | blockEnd
  | openBracket
  | closeBracket
  | openBrace
  | closeBrace
  | hyphen
  | comma
  /-- What follows is a key. -/
  | key
  /-- What follows is the value of a key. -/
  | value
  | alias (name : Text)
  | anchor (name : Text)
  | tag (written : Tag.Written)
  | scalar (style : Style) (text : Text)
  deriving Repr, DecidableEq

end HostKit.Yaml
