/-
# Ancestors of a resource

The walk goes up from a resource along "is a component of" and collects every application it
meets.  An application that is in the collection already is not walked again, which is what ends
the walk on cycles and keeps it from repeating the upper part of a diamond.

Each step up either meets an application that is new to the collection or ends there, so the walk
is no deeper than there are applications to collect.  `Resolver.depth` allows for more: it leaves
room for applications of another kind, which are passed without being collected.
-/
import AppWatch.Membership

namespace AppWatch

/-- Applications found by a walk, by their keys. -/
abbrev FoundApplications := SortedMap ResourceKey ResourceInfo

/-- What a walk runs over: the applications at one moment, their kind and the permitted
namespaces. -/
structure Resolver where
  applicationKind : GroupVersionResource
  applications : List Application
  filter : NamespaceFilter

namespace Resolver

/-- The applications of which a resource is a direct component, in list order. -/
def applicationsFor (r : Resolver) (x : ResourceInfo) : List Application :=
  r.applications.filter fun a => a.hasComponent r.filter x

/-- Whether a resource is of the application kind and collected already. -/
def isDone (r : Resolver) (x : ResourceInfo) (found : FoundApplications) : Bool :=
  x.gvr = r.applicationKind && found.contains x.key

/-- Collects a resource if it is of the application kind. -/
def collect (r : Resolver) (x : ResourceInfo) (found : FoundApplications) : FoundApplications :=
  if x.gvr = r.applicationKind then found.insert x.key x else found

/-- Walks up from a resource, at most `depth` steps, and adds what it meets. -/
def walk (r : Resolver) : (depth : Nat) → ResourceInfo → FoundApplications → FoundApplications
  | 0, x, found => if r.isDone x found then found else r.collect x found
  | depth + 1, x, found =>
    if r.isDone x found then found
    else
      (r.applicationsFor x).foldl (fun found a => r.walk depth a.resource found)
        (r.collect x found)

/-- A depth that no walk exceeds: between two collected applications there are at most as many
others as the list has entries. -/
def depth (r : Resolver) : Nat := (r.applications.length + 2) * (r.applications.length + 2)

/-- Adds to a collection every application that contains a resource, directly or through other
applications, and the resource itself if it is an application. -/
def findAll (r : Resolver) (x : ResourceInfo) (found : FoundApplications) : FoundApplications :=
  r.walk r.depth x found

/-- The applications that contain a resource, with the resource itself if it is one. -/
def ancestorsOf (r : Resolver) (x : ResourceInfo) : FoundApplications := r.findAll x .empty

end Resolver

end AppWatch
