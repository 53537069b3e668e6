/-
# Cluster objects

An object of any kind: the type it names, if it names one, its metadata, and everything else as
plain JSON.  An object has a type only if both `apiVersion` and `kind` are given, each once and as
a text.  Whatever was given of a type that is none is lost, up to the member that spoils it; what
stands behind that member is data like any other.
-/
import AppWatch.Object.Metadata

namespace AppWatch

open Json (Written)

/-- The type an object names. -/
structure TypeNames where
  apiVersion : String
  kind : String
deriving DecidableEq

/-- A cluster object of any kind. -/
structure ClusterObject where
  types : Option TypeNames := none
  metadata : Metadata := {}
  /-- The members besides type and metadata. -/
  data : SortedMap String Json := .empty
deriving DecidableEq

namespace ClusterObject

/-- Takes the type out of the members besides metadata, given what was seen of it; what is left is
the data. -/
def takeTypes (apiVersion kind : Option String) :
    List (String × Json) → Option TypeNames × List (String × Json)
  | [] => (do return ⟨← apiVersion, ← kind⟩, [])
  | (name, j) :: ms =>
    if name = "apiVersion" then
      match apiVersion, j with
      | none, .str s => takeTypes (some s) kind ms
      | _, _ => (none, ms)
    else if name = "kind" then
      match kind, j with
      | none, .str s => takeTypes apiVersion (some s) ms
      | _, _ => (none, ms)
    else
      let (types, data) := takeTypes apiVersion kind ms
      (types, (name, j) :: data)

/-- The metadata that was read, if it was, and the other members, in reverse. -/
abbrev Parts := Option Metadata × List (String × Json)

/-- Reads one member: metadata, or plain JSON. -/
def part (parts : Parts) (name : String) (w : Written) : Decoded Parts :=
  match name, parts with
  | "metadata", (none, others) => do return (some (← Metadata.ofWritten w), others)
  | "metadata", (some _, _) => .error (.repeatedField name)
  | _, (metadata, others) => do return (metadata, (name, ← w.decodeJson) :: others)

/-- Reads an object. -/
def ofWritten (w : Written) : Decoded ClusterObject := do
  let (metadata, others) ← w.decodeMembers "struct DynamicObject" (none, []) part
  let (types, data) := takeTypes none none others.reverse
  return { types := types, metadata := metadata.getD {}, data := SortedMap.ofList data }

/-- Reads an object from a value. -/
def ofJson (j : Json) : Decoded ClusterObject := ofWritten j.written

/-- The object as JSON: its type if it names one, its metadata and its data. -/
def toJson (o : ClusterObject) : Json :=
  let named := match o.types with
    | none => o.data
    | some t => (o.data.insert "apiVersion" (.str t.apiVersion)).insert "kind" (.str t.kind)
  .obj (named.insert "metadata" o.metadata.toJson).entries

/-- The name of an object within its kind: the namespace, if it has one, and the name.  Objects
without a name have no key. -/
def key? (o : ClusterObject) : Option String :=
  o.metadata.name.map fun name =>
    match o.metadata.«namespace» with
    | none => name
    | some ns => if ns = "" then name else ns ++ "/" ++ name

end ClusterObject

end AppWatch
