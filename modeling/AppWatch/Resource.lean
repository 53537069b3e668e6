/-
# Snapshots of resources

A `ResourceInfo` is what the engine keeps of a watched object: its identity, kind name, labels
and metadata.  Two snapshots are of the same resource exactly when their keys agree; labels and
metadata may differ from one snapshot to the next.
-/
import AppWatch.Object
import AppWatch.Failure

namespace AppWatch

/-- The label set of a resource; an absent set is not the empty one. -/
abbrev Labels := Option TextMap

/-- The identity of a resource: its kind, namespace and name. -/
structure ResourceKey where
  gvr : GroupVersionResource := {}
  «namespace» : String := ""
  name : String := ""
deriving DecidableEq, Repr

/-- A snapshot of a watched resource. -/
structure ResourceInfo where
  gvr : GroupVersionResource := {}
  kind : String := ""
  /-- Empty for resources that live in no namespace. -/
  «namespace» : String := ""
  name : String := ""
  labels : Labels := none
  /-- The object's metadata as JSON. -/
  metadata : Json := .null
deriving DecidableEq

namespace ResourceKey

/-- The parts in the order in which they are compared. -/
def parts (k : ResourceKey) : List String :=
  [k.gvr.group, k.gvr.version, k.gvr.resource, k.«namespace», k.name]

theorem parts_injective {k l : ResourceKey} (e : k.parts = l.parts) : k = l := by
  obtain ⟨⟨_, _, _⟩, _, _⟩ := k
  obtain ⟨⟨_, _, _⟩, _, _⟩ := l
  simp only [parts, List.cons.injEq, and_true] at e
  obtain ⟨rfl, rfl, rfl, rfl, rfl⟩ := e
  rfl

instance : Ord ResourceKey := ⟨fun k l => compare k.parts l.parts⟩

instance : Std.TransOrd ResourceKey := inferInstanceAs (Std.TransCmp (compareOn parts))

instance : Std.LawfulEqOrd ResourceKey where
  eq_of_compare {k l} e :=
    parts_injective (Std.LawfulEqOrd.eq_of_compare (a := k.parts) (b := l.parts) e)

/-- The kind, then the namespace, if there is one, and the name. -/
def text (k : ResourceKey) : String :=
  if k.«namespace» = "" then k.gvr.text ++ ":" ++ k.name
  else k.gvr.text ++ ":" ++ k.«namespace» ++ "/" ++ k.name

end ResourceKey

namespace ResourceInfo

/-- The identity of a snapshot. -/
def key (r : ResourceInfo) : ResourceKey := ⟨r.gvr, r.«namespace», r.name⟩

/-- Whether two snapshots are of one resource. -/
def isSameResource (r s : ResourceInfo) : Bool :=
  r.gvr = s.gvr ∧ r.«namespace» = s.«namespace» ∧ r.name = s.name

theorem isSameResource_iff {r s : ResourceInfo} : r.isSameResource s = true ↔ r.key = s.key := by
  simp [isSameResource, key]

/-- Whether the resource lives in no namespace. -/
def isClusterScoped (r : ResourceInfo) : Bool := r.«namespace» = ""

/-- Takes a snapshot of an object of the given kind.  The kind name is the one the object names,
if it names one. -/
def ofObject (k : KindDescriptor) (o : ClusterObject) : Except Failure ResourceInfo :=
  match o.metadata.name with
  | none => .error (.nameless k.kind)
  | some name => .ok {
      gvr := k.gvr
      kind := (o.types.map (·.kind)).getD k.kind
      «namespace» := o.metadata.«namespace».getD ""
      name := name
      labels := o.metadata.labels
      metadata := o.metadata.toJson }

end ResourceInfo

end AppWatch
