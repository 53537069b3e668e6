/-
# Kinds of cluster objects

A watched kind is identified by its group, version and resource (`GroupVersionResource`).  A
`KindDescriptor` adds what discovery tells: the kind's name and whether its objects live in
namespaces.  Applications name the kinds of their components more loosely, by group and kind name
(`GroupKind`).
-/
import AppWatch.Decode

namespace AppWatch

open Json (Written)

/-- The group, version and resource that identify a category of cluster objects. -/
structure GroupVersionResource where
  group : String := ""
  version : String := ""
  resource : String := ""
deriving DecidableEq, Repr

/-- A kind as applications declare it: group and kind name. -/
structure GroupKind where
  group : String := ""
  kind : String := ""
deriving DecidableEq, Repr

/-- A kind that can be watched. -/
structure KindDescriptor where
  gvr : GroupVersionResource := {}
  kind : String := ""
  namespaced : Bool := true
deriving DecidableEq, Repr

/-! ## 1. Order and text -/

namespace GroupVersionResource

/-- The parts in the order in which they are compared. -/
def parts (g : GroupVersionResource) : List String := [g.group, g.version, g.resource]

theorem parts_injective {g h : GroupVersionResource} (e : g.parts = h.parts) : g = h := by
  cases g; cases h; simpa [parts] using e

instance : Ord GroupVersionResource := ⟨fun g h => compare g.parts h.parts⟩

instance : Std.TransOrd GroupVersionResource :=
  inferInstanceAs (Std.TransCmp (compareOn parts))

instance : Std.LawfulEqOrd GroupVersionResource where
  eq_of_compare {g h} e :=
    parts_injective (Std.LawfulEqOrd.eq_of_compare (a := g.parts) (b := h.parts) e)

/-- The version with its group, as it stands on objects of the kind. -/
def apiVersion (g : GroupVersionResource) : String :=
  if g.group = "" then g.version else g.group ++ "/" ++ g.version

/-- The parts that are not empty, with slashes between them. -/
def text (g : GroupVersionResource) : String :=
  if g.group = "" then g.version ++ "/" ++ g.resource
  else g.group ++ "/" ++ g.version ++ "/" ++ g.resource

end GroupVersionResource

namespace GroupKind

/-- The parts in the order in which they are compared. -/
def parts (g : GroupKind) : List String := [g.group, g.kind]

theorem parts_injective {g h : GroupKind} (e : g.parts = h.parts) : g = h := by
  cases g; cases h; simpa [parts] using e

instance : Ord GroupKind := ⟨fun g h => compare g.parts h.parts⟩

instance : Std.TransOrd GroupKind := inferInstanceAs (Std.TransCmp (compareOn parts))

instance : Std.LawfulEqOrd GroupKind where
  eq_of_compare {g h} e :=
    parts_injective (Std.LawfulEqOrd.eq_of_compare (a := g.parts) (b := h.parts) e)

/-- The group as discovery knows it: `core` names the group without a name. -/
def apiGroup (g : GroupKind) : String := if g.group = "core" then "" else g.group

/-- The kind name, then its group if it has one. -/
def text (g : GroupKind) : String := if g.group = "" then g.kind else g.kind ++ "." ++ g.group

end GroupKind

namespace KindDescriptor

/-- The kind name with what identifies it. -/
def text (k : KindDescriptor) : String := k.kind ++ " (" ++ k.gvr.text ++ ")"

end KindDescriptor

/-! ## 2. As JSON -/

namespace GroupVersionResource

/-- The fields as members, names ascending. -/
def toJson (g : GroupVersionResource) : Json :=
  .obj [("group", .str g.group), ("resource", .str g.resource), ("version", .str g.version)]

/-- Reads one field. -/
def field (g : GroupVersionResource) (name : String) (w : Written) : Decoded GroupVersionResource :=
  match name with
  | "group" => do return { g with group := ← w.decodeText }
  | "version" => do return { g with version := ← w.decodeText }
  | "resource" => do return { g with resource := ← w.decodeText }
  | _ => w.passing g

/-- The record of the three parts; only the group may be left out. -/
def layout : Layout GroupVersionResource where
  name := "GroupVersionResource"
  fields := [("group", false), ("version", true), ("resource", true)]
  field := field

/-- Reads the three parts. -/
def ofWritten : Written → Decoded GroupVersionResource := layout.decode {}

/-- Reads the three parts from a value. -/
def ofJson (j : Json) : Decoded GroupVersionResource := ofWritten j.written

end GroupVersionResource

namespace GroupKind

/-- The fields as members, names ascending. -/
def toJson (g : GroupKind) : Json := .obj [("group", .str g.group), ("kind", .str g.kind)]

/-- Reads one field. -/
def field (g : GroupKind) (name : String) (w : Written) : Decoded GroupKind :=
  match name with
  | "group" => do return { g with group := ← w.decodeText }
  | "kind" => do return { g with kind := ← w.decodeText }
  | _ => w.passing g

/-- The record of both parts; the group may be left out. -/
def layout : Layout GroupKind where
  name := "GroupKind"
  fields := [("group", false), ("kind", true)]
  field := field

/-- Reads both parts. -/
def ofWritten : Written → Decoded GroupKind := layout.decode {}

/-- Reads both parts from a value. -/
def ofJson (j : Json) : Decoded GroupKind := ofWritten j.written

end GroupKind

namespace KindDescriptor

/-- The identifying parts and the descriptor's own fields side by side, names ascending. -/
def toJson (k : KindDescriptor) : Json :=
  .obj [("group", .str k.gvr.group), ("kind", .str k.kind), ("namespaced", .bool k.namespaced),
    ("resource", .str k.gvr.resource), ("version", .str k.gvr.version)]

/-- Reads one of the descriptor's own fields. -/
def field (k : KindDescriptor) (name : String) (w : Written) : Decoded KindDescriptor :=
  match name with
  | "kind" => do return { k with kind := ← w.decodeText }
  | "namespaced" => do return { k with namespaced := ← w.decodeBool }
  | _ => w.passing k

/-- Reads a descriptor: its own fields first, then the identifying parts among the members. -/
def ofWritten (w : Written) : Decoded KindDescriptor := do
  let k ← w.decodeMembers "struct KindDescriptor" {} field
  if !w.hasMember "kind" then .error (.missingField "kind")
  else return { k with gvr := ← GroupVersionResource.ofWritten w }

/-- Reads a descriptor from a value. -/
def ofJson (j : Json) : Decoded KindDescriptor := ofWritten j.written

end KindDescriptor

end AppWatch
