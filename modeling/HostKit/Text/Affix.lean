import HostKit.Text.Basic

/-!
# Starts and ends of a text

Removing an affix takes away one occurrence and leaves a text without it unchanged; ensuring
an affix adds one occurrence only where it is missing.
-/

namespace HostKit.Text

/-- What follows the affix at the start of the text, if the text starts with it. -/
def dropPrefix? : (affix text : Text) → Option Text
  | [], text => some text
  | _ :: _, [] => none
  | a :: affix, c :: text => if a = c then dropPrefix? affix text else none

/-- What comes before the affix at the end of the text, if the text ends with it. -/
def dropSuffix? (affix text : Text) : Option Text :=
  (dropPrefix? affix.reverse text.reverse).map List.reverse

/-- The text without the affix at its start. -/
def removePrefix (text affix : Text) : Text := (dropPrefix? affix text).getD text

/-- The text without the affix at its end. -/
def removeSuffix (text affix : Text) : Text := (dropSuffix? affix text).getD text

/-- The text with the affix at its start. -/
def ensurePrefix (text affix : Text) : Text :=
  if affix.isPrefixOf text then text else affix ++ text

/-- The text with the affix at its end. -/
def ensureSuffix (text affix : Text) : Text :=
  if affix.isSuffixOf text then text else text ++ affix

end HostKit.Text
