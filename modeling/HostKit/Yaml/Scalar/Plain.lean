import HostKit.Yaml.Error
import HostKit.Yaml.Scalar.Gap

/-!
# Plain scalars

A plain scalar has no quotes. It ends at a comment, at a colon before a gap, inside brackets
at an indicator of a collection, and otherwise at the first line that is not indented deeply
enough. Its lines are folded.
-/

namespace HostKit.Yaml.Plain

/-- A plain scalar that has been read. -/
structure Result where
  text : Text
  /-- Whether the source after the scalar starts on a later line than its last word. -/
  endsLine : Bool
  rest : Source

/-- Whether the scalar ends before the next character. -/
def stops (inFlow : Bool) (inner : Nat) (gap : Gap) (next : Placed) (rest : Source) : Bool :=
  (gap != .empty
      && ((!inFlow && next.column < inner) || Source.atMark (next :: rest) || next.char = '#'))
    || (next.char = ':' && Source.atGap rest)
    || (inFlow && isFlowIndicator next.char)

/-- The rest of a scalar whose lines start at the column `inner` or after it, after a gap and
with the text before that in reverse. -/
def readFrom (inFlow : Bool) (inner : Nat) : Gap → Text → Source → Except Error Result
  | gap, done, [] => .ok ⟨done.reverse, gap.hasBreak, []⟩
  | gap, done, p :: rest =>
    if isGap p.char then
      if p.char = '\t' && gap.hasBreak && p.column < inner then .error .tabInIndentation
      else readFrom inFlow inner (gap.push p.char) done rest
    else if stops inFlow inner gap p rest then .ok ⟨done.reverse, gap.hasBreak, p :: rest⟩
    else if inFlow && p.char = ':'
        && Source.headSatisfies (fun c => c = '?' || isFlowIndicator c) rest then
      .error .badColon
    else readFrom inFlow inner .empty (p.char :: (gap.text.reverse ++ done)) rest

/-- The scalar at the front. -/
def read (inFlow : Bool) (inner : Nat) (source : Source) : Except Error Result :=
  readFrom inFlow inner .empty [] source

end HostKit.Yaml.Plain
