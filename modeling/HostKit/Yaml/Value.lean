import HostKit.Decimal.Binary64

/-!
# YAML values

A document stands for one value: a scalar, a sequence, a mapping whose entries keep their
order, or a value under a tag of the document's own. Keys may be any values, so equality of
values decides which keys are the same. Numbers compare as numbers, a float that is no number
equals itself, and a mapping equals another one with the same entries in any order.
-/

namespace HostKit.Yaml

/-- What a document stands for. The name of a tag is the text after its first mark, and the
mark itself if there is nothing after it. -/
inductive Value where
  | null
  | bool (value : Bool)
  | int (value : Int)
  | float (value : Binary64)
  | string (text : Text)
  | sequence (items : List Value)
  | mapping (entries : List (Value × Value))
  | tagged (tag : Text) (value : Value)
  deriving Inhabited

namespace Value

/-- Whether two floats are the same key. -/
def sameFloat (x y : Binary64) : Bool := (x = .nan && y = .nan) || x.equal y

mutual

/-- Whether two values are equal. -/
def same : Value → Value → Bool
  | null, null => true
  | bool a, bool b => a = b
  | int a, int b => a = b
  | float x, float y => sameFloat x y
  | string s, string t => s = t
  | sequence items, sequence others => sameItems items others
  | mapping entries, mapping others =>
    entries.length = others.length && sameEntries entries others
  | tagged tag value, tagged other value' => tag = other && same value value'
  | _, _ => false

/-- Whether two lists hold equal values in the same order. -/
def sameItems : List Value → List Value → Bool
  | [], [] => true
  | a :: rest, b :: others => same a b && sameItems rest others
  | _, _ => false

/-- Whether each entry of the first list is among the others. -/
def sameEntries : List (Value × Value) → List (Value × Value) → Bool
  | [], _ => true
  | entry :: rest, others => hasEntry entry others && sameEntries rest others

/-- Whether the first of the others with the entry's key has its value too. -/
def hasEntry (entry : Value × Value) (others : List (Value × Value)) : Bool :=
  match entry with
  | (key, value) =>
    match others.find? fun other => same key other.1 with
    | some other => same value other.2
    | none => false

end

end Value
end HostKit.Yaml
