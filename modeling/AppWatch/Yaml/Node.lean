/-
# Documents

A document is a tree of nodes as it is written: an alias stands in it for the node that an anchor
names.  To follow the aliases may make a small document large, or lead round in a circle, so that a
value is only made of the parts that are wanted (`Document.expand`), and only up to a depth and up
to a number of aliases.
-/
import AppWatch.Yaml

namespace AppWatch

namespace Yaml

/-- A node of a document. -/
inductive Node where
  | scalar (text : String) (style : Style) (tag : Option String)
  | sequence (items : List Node) (tag : Option String)
  | mapping (entries : List (Node × Node)) (tag : Option String)
  | reference (anchor : Nat)

namespace Node

/-- The node that stands where nothing was written. -/
def nothing : Node := scalar "" .plain none

mutual

/-- How many marks a node takes: one for a scalar or an alias, two around a collection. -/
def size : Node → Nat
  | scalar _ _ _ | reference _ => 1
  | sequence items _ => 2 + itemsSize items
  | mapping entries _ => 2 + entriesSize entries

/-- How many marks the items of a sequence take. -/
def itemsSize : List Node → Nat
  | [] => 0
  | n :: ns => size n + itemsSize ns

/-- How many marks the entries of a mapping take. -/
def entriesSize : List (Node × Node) → Nat
  | [] => 0
  | (k, v) :: es => size k + size v + entriesSize es

end

end Node

/-- A document, with the nodes that its anchors name. -/
structure Document where
  root : Node
  anchored : List (Nat × Node) := []

/-- Making a value of nodes, while the aliases that were followed are counted. -/
abbrev Expansion := StateT Nat Option

namespace Document

/-- How deep the parts of a value may be nested. -/
def maxDepth : Nat := 128

/-- How many aliases may be followed. -/
def maxAliases (d : Document) : Nat := d.root.size * 100

/-- The node that a node stands for. -/
def follow (d : Document) : Node → Expansion Node
  | .reference anchor => do
    let count := (← get) + 1
    set count
    if d.maxAliases < count then failure
    match d.anchored.lookup anchor with
    | some node => return node
    | none => failure
  | node => return node

/-- The value of a node whose parts may be nested that deep. -/
def expand (d : Document) : (depth : Nat) → Node → Expansion Yaml
  | 0, node => do
    match ← d.follow node with
    | .scalar text style tag => return .scalar text style tag
    | _ => failure
  | depth + 1, node => do
    match ← d.follow node with
    | .scalar text style tag => return .scalar text style tag
    | .sequence items tag => return .sequence (← items.mapM (d.expand depth)) tag
    | .mapping entries tag =>
      let expanded ← entries.mapM fun (k, v) => do
        return (← d.expand depth k, ← d.expand depth v)
      return .mapping expanded tag
    | .reference _ => failure

/-- The value of the whole document. -/
def value? (d : Document) : Option Yaml := (d.expand maxDepth d.root).run' 0

/-- The entry of the document's mapping with a given key and node, if its key is one of the names.
What stands under another key is not looked at. -/
def member? (d : Document) (names : List String) (key value : Node) :
    Expansion (Option (String × Yaml)) := do
  match ← d.follow key with
  | .scalar name _ _ =>
    if names.contains name then return some (name, ← d.expand (maxDepth - 1) value)
    else return none
  | _ => failure

/-- The entries of a document that is a mapping whose keys are texts, as far as their keys are among
the names. -/
def members? (d : Document) (names : List String) : Option (List (String × Yaml)) :=
  let found : Expansion (List (Option (String × Yaml))) := do
    match ← d.follow d.root with
    | .mapping entries _ => entries.mapM fun (key, value) => d.member? names key value
    | .scalar "" .plain _ => return []
    | _ => failure
  (found.run' 0).map (·.filterMap id)

end Document

end Yaml

end AppWatch
