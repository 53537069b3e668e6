/-
# Permitted namespaces

A global list says which namespaces may be looked at at all; an empty list permits every one.
Beyond that each kind has the namespaces from which some application draws components of it:
only those are watched for that kind.
-/
import AppWatch.Kind

namespace AppWatch

/-- The global list and the namespaces permitted for each kind. -/
structure NamespaceFilter where
  global : SortedSet String := .empty
  perKind : SortedMap GroupVersionResource (SortedSet String) := .empty
deriving DecidableEq

namespace NamespaceFilter

/-- The filter of a global list; without entries it is open to all namespaces. -/
def ofList (namespaces : List String) : NamespaceFilter where
  global := SortedSet.ofList namespaces

/-- Whether every namespace is permitted. -/
def permitsAll (f : NamespaceFilter) : Bool := f.global.isEmpty

/-- The globally permitted namespaces in ascending order; empty when all are. -/
def globalNamespaces (f : NamespaceFilter) : List String := SortedSet.toList f.global

/-- Whether a namespace is permitted for kinds in general. -/
def isPermitted (f : NamespaceFilter) (ns : String) : Bool :=
  f.permitsAll || f.global.contains ns

/-- The set of namespaces permitted for a kind. -/
def setFor (f : NamespaceFilter) (k : GroupVersionResource) : SortedSet String :=
  (f.perKind.get? k).getD .empty

/-- Whether a namespace is permitted for a kind. -/
def isPermittedFor (f : NamespaceFilter) (k : GroupVersionResource) (ns : String) : Bool :=
  (f.setFor k).contains ns

/-- The namespaces permitted for a kind, ascending. -/
def permittedNamespaces (f : NamespaceFilter) (k : GroupVersionResource) : List String :=
  SortedSet.toList (f.setFor k)

/-- Whether a request to permit a namespace is granted at all. -/
def grants (f : NamespaceFilter) (ns : String) : Bool := ns != "" && f.isPermitted ns

/-- Permits a namespace for a kind, unless it is empty or outside the global list; the answer
says whether it was not permitted before. -/
def permit (f : NamespaceFilter) (k : GroupVersionResource) (ns : String) :
    Bool × NamespaceFilter :=
  if f.grants ns then
    (!f.isPermittedFor k ns, { f with perKind := f.perKind.insert k ((f.setFor k).add ns) })
  else (false, f)

/-- Permits several namespaces for a kind. -/
def permitEach (f : NamespaceFilter) (k : GroupVersionResource) (l : List String) :
    NamespaceFilter :=
  l.foldl (fun f ns => (f.permit k ns).2) f

end NamespaceFilter

end AppWatch
