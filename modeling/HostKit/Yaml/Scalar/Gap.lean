import HostKit.Yaml.Source

/-!
# Gaps between words

A scalar that goes on over several lines is folded: a single line end between two words
becomes a space, and of several line ends in a row the first is dropped. Spaces and tabs count
only if the gap holds no line end. A separator of Unicode is kept where a line feed would be
folded.
-/

namespace HostKit.Yaml

/-- What has been read since the last word. -/
inductive Gap where
  /-- Spaces and tabs only. -/
  | blanks (text : Text)
  /-- A first line end, unless it was escaped, and the line ends after it. -/
  | lines (first : Option Char) (more : Text)
  deriving Repr, DecidableEq

namespace Gap

/-- A gap with nothing in it. -/
def empty : Gap := .blanks []

/-- The gap with another blank or line end. -/
def push (c : Char) : Gap → Gap
  | .blanks text => if isBreak c then .lines (some c) [] else .blanks (text ++ [c])
  | .lines first more => if isBreak c then .lines first (more ++ [c]) else .lines first more

/-- The text that stands for the gap. -/
def text : Gap → Text
  | .blanks text => text
  | .lines none more => more
  | .lines (some first) more =>
    if first = '\n' then if more = [] then [' '] else more else first :: more

/-- Whether the gap goes on over a line end. -/
def hasBreak : Gap → Bool
  | .blanks _ => false
  | .lines _ _ => true

end Gap
end HostKit.Yaml
