import HostKit.Yaml.Node

/-!
# Anchors

An anchor names the node after it, and an alias stands for a node that has been named before.
Anchors are numbered in the order of the document: the number of an anchor is how many
different names there are before it, and an alias has the number that its name was last given.
The node that a number stands for is the last one in the document that has it. A name that is
given again takes a new number, which the next new name shares.
-/

namespace HostKit.Yaml

/-- The numbers of the names that have been given so far, at most one for each name. -/
abbrev AnchorNames := List (Text × Nat)

/-- A computation that gives names to nodes. -/
abbrev Naming := StateT AnchorNames (Except Error)

namespace Node

/-- The number of an anchor, if there is one. -/
def numberAnchor : Option Text → Naming (Option Nat)
  | none => pure none
  | some name => do
    let names ← get
    let number := names.length
    set ((name, number) :: names.filter fun entry => entry.1 ≠ name)
    pure (some number)

mutual

/-- The node with numbers instead of names. -/
def number : Node Text → Naming (Node Nat)
  | .alias name => do
    match (← get).lookup name with
    | some number => pure (.alias number)
    | none => throw .unknownAnchor
  | .scalar anchor tag style text => do pure (.scalar (← numberAnchor anchor) tag style text)
  | .sequence anchor tag items => do
    let anchor ← numberAnchor anchor
    pure (.sequence anchor tag (← numberItems items))
  | .mapping anchor tag entries => do
    let anchor ← numberAnchor anchor
    pure (.mapping anchor tag (← numberEntries entries))

/-- The items with numbers instead of names. -/
def numberItems : List (Node Text) → Naming (List (Node Nat))
  | [] => pure []
  | item :: rest => do
    let item ← number item
    pure (item :: (← numberItems rest))

/-- The entries with numbers instead of names. -/
def numberEntries : List (Node Text × Node Text) → Naming (List (Node Nat × Node Nat))
  | [] => pure []
  | (key, value) :: rest => do
    let key ← number key
    let value ← number value
    pure ((key, value) :: (← numberEntries rest))

end

/-- The anchor of a node. -/
def anchor? {Label : Type} : Node Label → Option Label
  | .alias _ => none
  | .scalar anchor _ _ _ | .sequence anchor _ _ | .mapping anchor _ _ => anchor

mutual

/-- The node and all nodes in it, in the order of the document. -/
def nodes {Label : Type} : Node Label → List (Node Label)
  | .alias label => [.alias label]
  | .scalar anchor tag style text => [.scalar anchor tag style text]
  | .sequence anchor tag items => .sequence anchor tag items :: nodesOfItems items
  | .mapping anchor tag entries => .mapping anchor tag entries :: nodesOfEntries entries

/-- The items and all nodes in them. -/
def nodesOfItems {Label : Type} : List (Node Label) → List (Node Label)
  | [] => []
  | item :: rest => nodes item ++ nodesOfItems rest

/-- The keys and values and all nodes in them. -/
def nodesOfEntries {Label : Type} : List (Node Label × Node Label) → List (Node Label)
  | [] => []
  | (key, value) :: rest => nodes key ++ nodes value ++ nodesOfEntries rest

end

/-- How many events a node makes when a document is read step by step: one for a scalar or an
alias, two for the ends of a collection. -/
def eventCount {Label : Type} : Node Label → Nat
  | .alias _ | .scalar _ _ _ _ => 1
  | .sequence _ _ _ | .mapping _ _ _ => 2

end Node

/-- The nodes that aliases stand for. -/
structure Anchors where
  /-- The anchored nodes with their numbers, the last one in the document first. -/
  targets : List (Nat × Node Nat)
  /-- How often aliases may be followed. -/
  limit : Nat

namespace Anchors

/-- The anchors of a document. -/
def ofNode (node : Node Nat) : Anchors :=
  let nodes := node.nodes
  ⟨(nodes.filterMap fun node => node.anchor?.map fun number => (number, node)).reverse,
    100 * nodes.foldr (fun node events => node.eventCount + events) 0⟩

/-- The node that a number stands for. -/
def target? (anchors : Anchors) (number : Nat) : Option (Node Nat) :=
  anchors.targets.lookup number

end Anchors
end HostKit.Yaml
