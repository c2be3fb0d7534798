import HostKit.Text.Basic

/-!
# Lines

A text is a sequence of segments, each but possibly the last one ended by its own line feed.
A line is a segment without its terminator: the line feed and one carriage return before it.
A last segment without a line feed keeps all its characters, and an empty one is no line.
-/

namespace HostKit.Text

/-- The text cut after every line feed; the segments joined again are the text. -/
def segments : Text → List Text
  | [] => []
  | c :: rest =>
    if c = '\n' then [c] :: segments rest
    else
      match segments rest with
      | [] => [[c]]
      | segment :: later => (c :: segment) :: later

/-- A segment without the line feed that ends it and a carriage return before that. -/
def dropTerminator (segment : Text) : Text :=
  match segment.reverse with
  | '\n' :: '\r' :: before => before.reverse
  | '\n' :: before => before.reverse
  | _ => segment

/-- The lines of a text, without their terminators. -/
def lines (t : Text) : List Text := (segments t).map dropTerminator

/-- The lines one after the other, each ended by a line feed. -/
def unlines (ls : List Text) : Text := ls.flatMap (· ++ ['\n'])

end HostKit.Text
