import HostKit.Yaml.Token

/-!
# Nodes

The nodes of a document are what its tokens say, before tags, anchors and aliases are given a
meaning. A node may have an anchor and a tag in front of it, in either order; where nothing
stands in the place of a node, an empty plain scalar does. A sequence that is the value of a
key need not be indented more deeply than the key, and then no token ends it.

Every function reads one token at least before it calls itself or another one again, so a
bound of twice the number of tokens is never reached.
-/

namespace HostKit.Yaml

/-- A node whose anchors and aliases are labelled in one way or another. -/
inductive Node (Label : Type) where
  | alias (label : Label)
  | scalar (anchor : Option Label) (tag : Option Bytes) (style : Style) (text : Text)
  | sequence (anchor : Option Label) (tag : Option Bytes) (items : List (Node Label))
  | mapping (anchor : Option Label) (tag : Option Bytes) (entries : List (Node Label × Node Label))

namespace Node

/-- What stands where nothing is written. -/
def nothing : Node Text := .scalar none none .plain []

/-- The anchor and the tag of a node. -/
structure Properties where
  anchor : Option Text
  tag : Option Bytes

/-- The anchor and the tag at the front in either order, and the tokens after them. -/
def properties (handles : Tag.Handles) : List Token → Except Error (Properties × List Token)
  | .anchor name :: .tag written :: rest => do
    .ok (⟨some name, some (← Tag.resolve handles written)⟩, rest)
  | .tag written :: .anchor name :: rest => do
    .ok (⟨some name, some (← Tag.resolve handles written)⟩, rest)
  | .anchor name :: rest => .ok (⟨some name, none⟩, rest)
  | .tag written :: rest => do .ok (⟨none, some (← Tag.resolve handles written)⟩, rest)
  | rest => .ok (⟨none, none⟩, rest)

/-- Where a node stands. -/
inductive Place where
  /-- Inside brackets. -/
  | inFlow
  /-- In a document or a sequence, outside brackets. -/
  | item
  /-- In a mapping, outside brackets. -/
  | ofMapping
  deriving Repr, DecidableEq

/-- Whether nothing stands in the place of an item. -/
def isNoItem : List Token → Bool
  | .hyphen :: _ | .blockEnd :: _ => true
  | _ => false

/-- Whether nothing stands in the place of an item of a sequence that no token ends. -/
def isNoOpenItem : List Token → Bool
  | .hyphen :: _ | .key :: _ | .value :: _ | .blockEnd :: _ => true
  | _ => false

/-- Whether nothing stands in the place of a key or value. -/
def isNoEntryPart : List Token → Bool
  | .key :: _ | .value :: _ | .blockEnd :: _ => true
  | _ => false

/-- Whether nothing stands in the place of the key of a pair in square brackets. -/
def isNoPairKey : List Token → Bool
  | .value :: _ | .comma :: _ | .closeBracket :: _ => true
  | _ => false

/-- Whether nothing stands in the place of the value of a pair in square brackets. -/
def isNoPairValue : List Token → Bool
  | .comma :: _ | .closeBracket :: _ => true
  | _ => false

/-- Whether nothing stands in the place of a key in braces. -/
def isNoFlowKey : List Token → Bool
  | .value :: _ | .comma :: _ | .closeBrace :: _ => true
  | _ => false

/-- Whether nothing stands in the place of a value in braces. -/
def isNoFlowValue : List Token → Bool
  | .comma :: _ | .closeBrace :: _ => true
  | _ => false

/-- The tokens after the comma that all but the first part of a collection in brackets need. -/
def afterComma (isFirst : Bool) : List Token → Except Error (List Token)
  | .comma :: rest => .ok (if isFirst then .comma :: rest else rest)
  | rest => if isFirst then .ok rest else .error .missingEntry

mutual

/-- The node at the front, and the tokens after it. -/
def read (handles : Tag.Handles) (place : Place) :
    (bound : Nat) → List Token → Except Error (Node Text × List Token)
  | 0, _ => .error .missingNode
  | _ + 1, .alias name :: rest => .ok (.alias name, rest)
  | bound + 1, tokens => do
    let (⟨anchor, tag⟩, tokens) ← properties handles tokens
    match tokens with
    | .hyphen :: rest =>
      if place = .ofMapping then
        let (items, rest) ← readOpenItems handles bound (.hyphen :: rest)
        .ok (.sequence anchor tag items, rest)
      else orNothing anchor tag (.hyphen :: rest)
    | .scalar style text :: rest => .ok (.scalar anchor tag style text, rest)
    | .openBracket :: rest =>
      let (items, rest) ← readFlowItems handles true bound rest
      .ok (.sequence anchor tag items, rest)
    | .openBrace :: rest =>
      let (entries, rest) ← readFlowEntries handles true bound rest
      .ok (.mapping anchor tag entries, rest)
    | .blockSequence :: rest =>
      if place = .inFlow then orNothing anchor tag (.blockSequence :: rest)
      else
        let (items, rest) ← readItems handles bound rest
        .ok (.sequence anchor tag items, rest)
    | .blockMapping :: rest =>
      if place = .inFlow then orNothing anchor tag (.blockMapping :: rest)
      else
        let (entries, rest) ← readEntries handles bound rest
        .ok (.mapping anchor tag entries, rest)
    | rest => orNothing anchor tag rest
where
  /-- An anchor or a tag with nothing after it. -/
  orNothing (anchor : Option Text) (tag : Option Bytes) (rest : List Token) :
      Except Error (Node Text × List Token) :=
    if anchor.isSome || tag.isSome then .ok (.scalar anchor tag .plain [], rest)
    else .error .missingNode

/-- The items of a sequence up to the token that ends it. -/
def readItems (handles : Tag.Handles) :
    (bound : Nat) → List Token → Except Error (List (Node Text) × List Token)
  | bound + 1, .hyphen :: rest => do
    let (item, rest) ←
      if isNoItem rest then .ok (nothing, rest) else read handles .item bound rest
    let (items, rest) ← readItems handles bound rest
    .ok (item :: items, rest)
  | _ + 1, .blockEnd :: rest => .ok ([], rest)
  | _, _ => .error .missingEntry

/-- The items of a sequence that no token ends. -/
def readOpenItems (handles : Tag.Handles) :
    (bound : Nat) → List Token → Except Error (List (Node Text) × List Token)
  | 0, _ => .error .missingEntry
  | bound + 1, .hyphen :: rest => do
    let (item, rest) ←
      if isNoOpenItem rest then .ok (nothing, rest) else read handles .item bound rest
    let (items, rest) ← readOpenItems handles bound rest
    .ok (item :: items, rest)
  | _ + 1, rest => .ok ([], rest)

/-- The entries of a mapping up to the token that ends it. -/
def readEntries (handles : Tag.Handles) :
    (bound : Nat) → List Token → Except Error (List (Node Text × Node Text) × List Token)
  | bound + 1, .key :: rest => do
    let (key, rest) ←
      if isNoEntryPart rest then .ok (nothing, rest) else read handles .ofMapping bound rest
    let (value, rest) ←
      match rest with
      | .value :: rest =>
        if isNoEntryPart rest then .ok (nothing, rest) else read handles .ofMapping bound rest
      | rest => .ok (nothing, rest)
    let (entries, rest) ← readEntries handles bound rest
    .ok ((key, value) :: entries, rest)
  | _ + 1, .blockEnd :: rest => .ok ([], rest)
  | _, _ => .error .missingEntry

/-- The items in square brackets up to the closing one. A pair among them is a mapping of one
entry; if it has no key, the token where the key would be is lost. -/
def readFlowItems (handles : Tag.Handles) (isFirst : Bool) :
    (bound : Nat) → List Token → Except Error (List (Node Text) × List Token)
  | 0, _ => .error .missingEntry
  | _ + 1, .closeBracket :: rest => .ok ([], rest)
  | bound + 1, tokens => do
    match ← afterComma isFirst tokens with
    | .closeBracket :: rest => .ok ([], rest)
    | .key :: rest =>
      let (key, rest) ←
        if isNoPairKey rest then .ok (nothing, rest.drop 1) else read handles .inFlow bound rest
      let (value, rest) ←
        match rest with
        | .value :: rest =>
          if isNoPairValue rest then .ok (nothing, rest) else read handles .inFlow bound rest
        | rest => .ok (nothing, rest)
      let (items, rest) ← readFlowItems handles false bound rest
      .ok (.mapping none none [(key, value)] :: items, rest)
    | rest =>
      let (item, rest) ← read handles .inFlow bound rest
      let (items, rest) ← readFlowItems handles false bound rest
      .ok (item :: items, rest)

/-- The entries in braces up to the closing one. -/
def readFlowEntries (handles : Tag.Handles) (isFirst : Bool) :
    (bound : Nat) → List Token → Except Error (List (Node Text × Node Text) × List Token)
  | 0, _ => .error .missingEntry
  | _ + 1, .closeBrace :: rest => .ok ([], rest)
  | bound + 1, tokens => do
    match ← afterComma isFirst tokens with
    | .closeBrace :: rest => .ok ([], rest)
    | .key :: rest =>
      let (key, rest) ←
        if isNoFlowKey rest then .ok (nothing, rest) else read handles .inFlow bound rest
      let (value, rest) ←
        match rest with
        | .value :: rest =>
          if isNoFlowValue rest then .ok (nothing, rest) else read handles .inFlow bound rest
        | rest => .ok (nothing, rest)
      let (entries, rest) ← readFlowEntries handles false bound rest
      .ok ((key, value) :: entries, rest)
    | rest =>
      let (key, rest) ← read handles .inFlow bound rest
      let (entries, rest) ← readFlowEntries handles false bound rest
      .ok ((key, nothing) :: entries, rest)

end

/-- Whether there is a directive or the mark of a document at the front, or nothing. -/
def isNoContent : List Token → Bool
  | [] => true
  | .version _ _ :: _ | .handle _ _ :: _ | .documentStart :: _ | .documentEnd :: _ => true
  | _ => false

/-- The handles that the directives at the front define before those defined already, and the
tokens after the directives. -/
def readDirectives (hasVersion : Bool) (handles : Tag.Handles) :
    List Token → Except Error (Tag.Handles × List Token)
  | .version major minor :: rest =>
    if !hasVersion && major = 1 && (minor = 1 || minor = 2) then readDirectives true handles rest
    else .error .badVersion
  | .handle name start :: rest =>
    if (handles.lookup name).isSome then .error .badTagHandle
    else readDirectives hasVersion (handles ++ [(name, start)]) rest
  | rest => .ok (handles, rest)

/-- The node of the first document, and the tokens after it. -/
def readDocument (tokens : List Token) : Except Error (Node Text × List Token) := do
  let bound := 2 * tokens.length + 2
  if isNoContent tokens && tokens.head? ≠ some .documentEnd then
    let (handles, rest) ← readDirectives false [] tokens
    match rest with
    | .documentStart :: rest =>
      if isNoContent rest then .ok (nothing, rest)
      else read (handles ++ Tag.defaultHandles) .item bound rest
    | _ => .error .missingDocumentStart
  else read Tag.defaultHandles .item bound tokens

/-- Whether the token ends a document. -/
def isDocumentEnd (token : Token) : Bool := token = .documentEnd

/-- The node of the only document, if there is one. -/
def ofTokens? (tokens : List Token) : Except Error (Option (Node Text)) := do
  if tokens = [] then .ok none
  else
    let (node, rest) ← readDocument tokens
    if rest.dropWhile isDocumentEnd = [] then .ok (some node) else .error .severalDocuments

end Node
end HostKit.Yaml
