import HostKit.Yaml.Error
import HostKit.Yaml.Scalar.Escape
import HostKit.Yaml.Scalar.Gap

/-!
# Quoted scalars

A quoted scalar goes on to its closing quote, whatever the indentation of its lines, and is
folded. In single quotes only the quote itself is special and stands for itself when it is
written twice. In double quotes a backslash starts an escape; at the end of a line it drops
the line end.
-/

namespace HostKit.Yaml.Quoted

/-- The rest of a scalar in single quotes and the source after it, after a gap and with the
text before that in reverse. -/
def singleFrom : Gap → Text → Source → Except Error (Text × Source)
  | _, _, [] => .error .openQuote
  | gap, done, p :: rest =>
    if isGap p.char then singleFrom (gap.push p.char) done rest
    else if Source.atMark (p :: rest) then .error .markInQuotes
    else
      let done := gap.text.reverse ++ done
      if p.char = '\'' then
        match rest with
        | [] => .ok (done.reverse, [])
        | q :: rest =>
          if q.char = '\'' then singleFrom .empty ('\'' :: done) rest
          else .ok (done.reverse, q :: rest)
      else singleFrom .empty (p.char :: done) rest

/-- The rest of a scalar in double quotes and the source after it, when so many characters
still belong to an escape. -/
def doubleFrom : (skipped : Nat) → Gap → Text → Source → Except Error (Text × Source)
  | _, _, _, [] => .error .openQuote
  | skipped + 1, gap, done, _ :: rest => doubleFrom skipped gap done rest
  | 0, gap, done, p :: rest =>
    if isGap p.char then doubleFrom 0 (gap.push p.char) done rest
    else if Source.atMark (p :: rest) then .error .markInQuotes
    else
      let done := gap.text.reverse ++ done
      if p.char = '"' then .ok (done.reverse, rest)
      else if p.char = '\\' then
        match rest with
        | [] => .error .badEscape
        | q :: rest =>
          if isBreak q.char then doubleFrom 0 (.lines none []) done rest
          else
            match Escape.read? q.char rest with
            | some (c, count) => doubleFrom count .empty (c :: done) rest
            | none => .error .badEscape
      else doubleFrom 0 .empty (p.char :: done) rest

/-- The scalar after an opening single quote. -/
def readSingle (source : Source) : Except Error (Text × Source) := singleFrom .empty [] source

/-- The scalar after an opening double quote. -/
def readDouble (source : Source) : Except Error (Text × Source) := doubleFrom 0 .empty [] source

end HostKit.Yaml.Quoted
