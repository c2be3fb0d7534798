import HostKit.Yaml.Anchor
import HostKit.Yaml.Lexer
import HostKit.Yaml.Resolve

/-!
# From nodes to values

An alias means the node that it stands for, wherever that is. Collections may be nested to a
limited depth and aliases be followed a limited number of times, so a document that refers to
itself has no value. A tag of the document's own goes into the value, and the node under it is
read as if it had no tag; the tag is used up by then, so keys, values and items have tags of their
own also there. Of the language's own tags those of scalars demand their kind, and any other one
makes a string of a scalar and is ignored on a collection. The keys of a mapping must differ.
-/

namespace HostKit.Yaml

/-- A computation that counts how often aliases are followed. -/
abbrev Loading := StateT Nat (Except Error)

/-- How deeply collections may be nested. -/
def maxDepth : Nat := 128

/-- The meaning of a scalar that has no tag, or one that is part of the value. -/
def untaggedScalar (style : Style) (text : Text) : Except Error Value :=
  if style = .plain then resolve text else .ok (.string text)

/-- The value, or the error that the scalar is not of the kind that its tag demands. -/
def demand (value? : Option Value) : Except Error Value :=
  match value? with
  | some value => .ok value
  | none => .error .wrongKind

/-- The meaning of a scalar with a tag that is not part of the value. -/
def taggedScalar (tag : Bytes) (style : Style) (text : Text) : Except Error Value :=
  if tag = Tag.core "bool" then demand ((bool? text).map .bool)
  else if tag = Tag.core "int" then (integerValue? text).getD (.error .wrongKind)
  else if tag = Tag.core "float" then demand ((float? text).map .float)
  else if tag = Tag.core "null" then demand (if isNull text then some .null else none)
  else if Tag.isOwn tag then untaggedScalar style text
  else .ok (.string text)

/-- The value under the tag, if the tag is one of the document's own. -/
def underTag (tag : Option Bytes) (value : Value) : Value :=
  match tag.bind Tag.name? with
  | some name => .tagged name value
  | none => value

/-- The meaning of a scalar. -/
def scalarValue (tag : Option Bytes) (style : Style) (text : Text) : Except Error Value :=
  match tag with
  | none => untaggedScalar style text
  | some bytes =>
    match Tag.name? bytes with
    | some name => (untaggedScalar style text).map (.tagged name)
    | none => taggedScalar bytes style text

/-- The node itself, or the one that it stands for if it is an alias. -/
def follow (anchors : Anchors) : Node Nat → Loading (Node Nat)
  | .alias number => do
    let count ← get
    if anchors.limit ≤ count then throw .tooManyAliases
    else
      set (count + 1)
      match anchors.target? number with
      | some node => pure node
      | none => throw .unknownAnchor
  | node => pure node

/-- The entries of a mapping whose first entries have been read, the last one first. -/
def loadEntries (load : Node Nat → Loading Value) (done : List (Value × Value)) :
    List (Node Nat × Node Nat) → Loading (List (Value × Value))
  | [] => pure done.reverse
  | (key, value) :: rest => do
    let key ← load key
    if done.any fun entry => entry.1.same key then throw .duplicateKey
    else
      let value ← load value
      loadEntries load ((key, value) :: done) rest

/-- The value of a node in which collections may be nested so deeply. -/
def Node.load (anchors : Anchors) : (depth : Nat) → Node Nat → Loading Value
  | depth, node => do
    match ← follow anchors node with
    | .alias _ => throw .unknownAnchor
    | .scalar _ tag style text => scalarValue tag style text
    | .sequence _ tag items =>
      match depth with
      | 0 => throw .tooDeep
      | depth + 1 => do
        let items ← items.mapM (Node.load anchors depth)
        pure (underTag tag (.sequence items))
    | .mapping _ tag entries =>
      match depth with
      | 0 => throw .tooDeep
      | depth + 1 => do
        let entries ← loadEntries (Node.load anchors depth) [] entries
        pure (underTag tag (.mapping entries))

/-- The value of a node whose names have not been numbered. -/
def Node.value (node : Node Text) : Except Error Value := do
  let (node, _) ← node.number.run []
  let (value, _) ← (node.load (.ofNode node) maxDepth).run 0
  .ok value

/-- The value that a document stands for; one without any content stands for null. -/
def load (document : Text) : Except Error Value := do
  match ← Node.ofTokens? (← tokens document) with
  | none => .ok .null
  | some node => node.value

end HostKit.Yaml
