/-
# From YAML tokens to documents

The grammar of documents over the tokens of the scanner.  A node that is left out reads as
`Node.nothing`.  The first document needs no mark in front of it, every further one does, and so
does one with directives.

Anchors are numbered by how many names are known where they stand; of two with one number the later
counts.

The functions go down through the tokens; `fuel` bounds the depth.  Four calls in a row take at
least one token between them, so four times the number of tokens is enough.
-/
import AppWatch.Yaml.Node
import AppWatch.Yaml.Scanner

namespace AppWatch

namespace Yaml

/-- What is left to read of a document, and what is known of it. -/
structure ReadingState where
  tokens : List Token
  /-- The starts of tags, by their handles. -/
  handles : List (String × String) := []
  /-- The numbers of the anchors by their names. -/
  names : List (String × Nat) := []
  /-- The numbers of all anchors so far, the last one first. -/
  numbers : List Nat := []
  /-- The nodes behind the anchors, each with how many anchors stand before its own. -/
  nodes : List (Nat × Node) := []

/-- A reader of a part of a document. -/
abbrev Reading := StateT ReadingState Option

namespace Reading

/-! ## 1. Tokens and names -/

/-- The token that comes next. -/
def peek : Reading (Option Token) := return (← get).tokens.head?

/-- Goes past a token. -/
def skip : Reading Unit := modify fun s => { s with tokens := s.tokens.tail }

/-- Whether the next token is one of those given. -/
def isAt (ts : List Token) : Reading Bool := return (← peek).any ts.contains

/-- Goes past a token that has to be there. -/
def expect (t : Token) : Reading Unit := do if ← isAt [t] then skip else failure

/-- Numbers an anchor; the answer is how many anchors stand before it. -/
def define (name : String) : Reading Nat := do
  let s ← get
  let number := s.names.length
  let names :=
    if (s.names.lookup name).isSome then
      s.names.map fun n => if n.1 = name then (name, number) else n
    else (name, number) :: s.names
  set { s with names := names, numbers := number :: s.numbers }
  return s.numbers.length

/-- Puts a node behind its anchor. -/
def record (node : Node) : Option Nat → Reading Unit
  | none => return
  | some place => modify fun s => { s with nodes := (place, node) :: s.nodes }

/-- The alias of a name. -/
def aliasOf (name : String) : Reading Node := do
  match (← get).names.lookup name with
  | some number => return .reference number
  | none => failure

/-- The full form of a tag. -/
def fullTag (handle rest : String) : Reading String := do
  if handle = "" then return rest
  else match (← get).handles.lookup handle with
    | some start => return start ++ rest
    | none => failure

/-- Reads a tag, if one stands here. -/
def tag : Reading (Option String) := do
  match ← peek with
  | some (.tag handle rest) =>
    skip
    return some (← fullTag handle rest)
  | _ => return none

/-- Reads an anchor, if one stands here. -/
def anchor : Reading (Option String) := do
  match ← peek with
  | some (.anchor name) =>
    skip
    return some name
  | _ => return none

/-- Reads the anchor and the tag in front of a node, in either order. -/
def properties : Reading (Option String × Option String) := do
  match ← anchor with
  | some name => return (some name, ← tag)
  | none =>
    match ← tag with
    | some t => return (← anchor, some t)
    | none => return (none, none)

/-! ## 2. Nodes -/

/-- Reads a node, unless one of the given tokens says that it is left out. -/
def orNothing (ends : List Token) (node : Reading Node) : Reading Node := do
  if ← isAt ends then return .nothing else node

mutual

/-- Reads a node.  Outside brackets block collections may stand; `indentless` tells whether the
items of a sequence may stand in the column of their mapping. -/
def node (fuel : Nat) (block indentless : Bool) : Reading Node :=
  match fuel with
  | 0 => failure
  | fuel + 1 => do
    match ← peek with
    | some (.reference name) =>
      skip
      aliasOf name
    | _ =>
      let (name, tag) ← properties
      let place ← name.mapM define
      let node ← content fuel block indentless (name.isSome || tag.isSome) tag
      record node place
      return node

/-- Reads what stands behind the properties of a node; with a property it may be left out. -/
def content (fuel : Nat) (block indentless hasProperty : Bool) (tag : Option String) :
    Reading Node :=
  match fuel with
  | 0 => failure
  | fuel + 1 => do
    match ← peek with
    | some (.scalar text style) =>
      skip
      return .scalar text style (tag.filter (· ≠ "!"))
    | some .flowSequence =>
      skip
      return .sequence (← flowItems fuel true) tag
    | some .flowMapping =>
      skip
      return .mapping (← flowEntries fuel true) tag
    | t =>
      if t = some .blockEntry && indentless then return .sequence (← looseItems fuel) tag
      else if t = some .blockSequence && block then
        skip
        return .sequence (← blockItems fuel) tag
      else if t = some .blockMapping && block then
        skip
        return .mapping (← blockEntries fuel) tag
      else if hasProperty then return .scalar "" .plain tag
      else failure

/-- Reads the items of a block sequence and its end. -/
def blockItems (fuel : Nat) : Reading (List Node) :=
  match fuel with
  | 0 => failure
  | fuel + 1 => do
    match ← peek with
    | some .blockEnd =>
      skip
      return []
    | some .blockEntry =>
      skip
      let item ← orNothing [.blockEntry, .blockEnd] (node fuel true false)
      return item :: (← blockItems fuel)
    | _ => failure

/-- Reads items that stand in the column of their mapping. -/
def looseItems (fuel : Nat) : Reading (List Node) :=
  match fuel with
  | 0 => failure
  | fuel + 1 => do
    match ← peek with
    | some .blockEntry =>
      skip
      let item ← orNothing [.blockEntry, .key, .value, .blockEnd] (node fuel true false)
      return item :: (← looseItems fuel)
    | _ => return []

/-- Reads the entries of a block mapping and its end. -/
def blockEntries (fuel : Nat) : Reading (List (Node × Node)) :=
  match fuel with
  | 0 => failure
  | fuel + 1 => do
    match ← peek with
    | some .blockEnd =>
      skip
      return []
    | some .key =>
      skip
      let key ← orNothing [.key, .value, .blockEnd] (node fuel true true)
      let value ← blockValue fuel
      return (key, value) :: (← blockEntries fuel)
    | _ => failure

/-- Reads the value of an entry of a block mapping, if there is one. -/
def blockValue (fuel : Nat) : Reading Node :=
  match fuel with
  | 0 => failure
  | fuel + 1 => do
    if ← isAt [.value] then
      skip
      orNothing [.key, .value, .blockEnd] (node fuel true true)
    else return .nothing

/-- Reads the items of a sequence in brackets and its end; an item may be a single entry of a
mapping. -/
def flowItems (fuel : Nat) (first : Bool) : Reading (List Node) :=
  match fuel with
  | 0 => failure
  | fuel + 1 => do
    if ← isAt [.flowSequenceEnd] then
      skip
      return []
    else
      if !first then expect .flowEntry
      match ← peek with
      | some .flowSequenceEnd =>
        skip
        return []
      | some .key =>
        skip
        let entry ← loneEntry fuel
        return .mapping [entry] none :: (← flowItems fuel false)
      | _ =>
        let item ← node fuel false false
        return item :: (← flowItems fuel false)

/-- Reads an entry that stands as an item.  Where its key is left out, the token that says so goes
with it. -/
def loneEntry (fuel : Nat) : Reading (Node × Node) :=
  match fuel with
  | 0 => failure
  | fuel + 1 => do
    if ← isAt [.value, .flowEntry, .flowSequenceEnd] then
      skip
      return (.nothing, ← flowValue fuel .flowSequenceEnd)
    else
      let key ← node fuel false false
      return (key, ← flowValue fuel .flowSequenceEnd)

/-- Reads the entries of a mapping in brackets and its end. -/
def flowEntries (fuel : Nat) (first : Bool) : Reading (List (Node × Node)) :=
  match fuel with
  | 0 => failure
  | fuel + 1 => do
    if ← isAt [.flowMappingEnd] then
      skip
      return []
    else
      if !first then expect .flowEntry
      match ← peek with
      | some .flowMappingEnd =>
        skip
        return []
      | some .key =>
        skip
        let key ← orNothing [.value, .flowEntry, .flowMappingEnd] (node fuel false false)
        let value ← flowValue fuel .flowMappingEnd
        return (key, value) :: (← flowEntries fuel false)
      | _ =>
        let key ← node fuel false false
        return (key, .nothing) :: (← flowEntries fuel false)

/-- Reads the value of an entry inside brackets that `close` ends, if there is one. -/
def flowValue (fuel : Nat) (close : Token) : Reading Node :=
  match fuel with
  | 0 => failure
  | fuel + 1 => do
    if ← isAt [.value] then
      skip
      orNothing [.flowEntry, close] (node fuel false false)
    else return .nothing

end

/-! ## 3. Documents -/

/-- Whether a token is a directive. -/
def isDirective : Token → Bool
  | .version _ _ | .tagHandle _ _ => true
  | _ => false

/-- The handles that directives declare, and those that need none.  Only one version may be given,
which has to be a known one, and each handle may be declared once. -/
def handlesOf (directives : List Token) : Option (List (String × String)) := do
  let versions := directives.filterMap fun
    | .version major minor => some (major, minor)
    | _ => none
  let declared := directives.filterMap fun
    | .tagHandle handle start => some (handle, start)
    | _ => none
  if versions.length ≤ 1 && versions.all (fun v => v = (1, 1) || v = (1, 2)) &&
      (declared.map (·.1)).Nodup then
    some (declared ++ [("!", "!"), ("!!", schema)])
  else none

/-- Reads directives, and starts a document with them. -/
def start : Reading Unit := do
  let tokens := (← get).tokens
  let handles ← handlesOf (tokens.takeWhile isDirective)
  set { tokens := tokens.dropWhile isDirective, handles := handles : ReadingState }

/-- Reads the node of a document behind its mark; it may be left out. -/
def root (fuel : Nat) : Reading Node := do
  match ← peek with
  | none | some .documentStart | some .documentEnd => return .nothing
  | some t => if isDirective t then return .nothing else node fuel true false

/-- The document with the given root, as far as it was read. -/
def finish (root : Node) : Reading Document := do
  let s ← get
  let numbers := s.numbers.zip (List.range s.numbers.length).reverse
  return ⟨root, numbers.filterMap fun (number, place) => do
    return (number, ← s.nodes.lookup place)⟩

/-- Reads documents that have a mark in front of them. -/
def documents (fuel : Nat) : (count : Nat) → Reading (List Document)
  | 0 => failure
  | count + 1 => do
    modify fun s => { s with tokens := s.tokens.dropWhile (· = .documentEnd) }
    if (← peek).isNone then return []
    else
      start
      expect .documentStart
      let document ← finish (← root fuel)
      return document :: (← documents fuel count)

/-- Reads all documents. -/
def all (fuel : Nat) : Reading (List Document) := do
  match ← peek with
  | none => return []
  | some t =>
    if isDirective t || t = .documentStart then documents fuel fuel
    else
      start
      let document ← finish (← node fuel true false)
      return document :: (← documents fuel fuel)

end Reading

/-- The documents of a text; a text without tokens has none. -/
def read? (s : String) : Option (List Document) := do
  let ts ← tokens? s
  (Reading.all (4 * ts.length + 4)).run' { tokens := ts }

end Yaml

end AppWatch
