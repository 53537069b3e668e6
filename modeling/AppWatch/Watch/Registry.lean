/-
# The registry of watched kinds

The registry holds one watcher for each watched kind, under the kind's own group, version and
resource, and the permitted namespaces.  It starts with no watcher; the application kind is
watched first, further kinds as applications declare them.

A kind is watched in scopes: the empty scope stands for all namespaces.  Kinds without namespaces
are watched there; the application kind is too if every namespace is permitted, and otherwise in
the globally permitted namespaces; every other kind in the namespaces permitted for it.
-/
import AppWatch.Ancestors
import AppWatch.Notice
import AppWatch.Watch.Watcher

namespace AppWatch

/-- A request to the cluster. -/
inductive ClientCall where
  | resolve (component : GroupKind)
  | check (kind : KindDescriptor) (scope : String)
  | watch (kind : KindDescriptor) (scope : String)
  | get (kind : KindDescriptor) («namespace» name : String)
  | delete (kind : KindDescriptor) («namespace» name : String)
deriving DecidableEq

/-- The watched kinds and the permitted namespaces. -/
structure Registry where
  applicationKind : KindDescriptor
  /-- The annotation in which applications name further namespaces. -/
  namespacesKey : String
  filter : NamespaceFilter := {}
  watchers : SortedMap GroupVersionResource Watcher := .empty

namespace Registry

/-- The watcher of a kind. -/
def watcher? (r : Registry) (gvr : GroupVersionResource) : Option Watcher := r.watchers.get? gvr

/-- The watched kinds in ascending order. -/
def watchedKinds (r : Registry) : List KindDescriptor := r.watchers.values.map (·.kind)

/-- The cached objects of a kind; none if it is not watched. -/
def objects (r : Registry) (gvr : GroupVersionResource) : List ClusterObject :=
  match r.watcher? gvr with
  | none => []
  | some w => w.objects

/-- Whether a kind is the one whose objects are applications. -/
def isApplicationKind (r : Registry) (kind : KindDescriptor) : Bool :=
  kind.gvr = r.applicationKind.gvr

/-! ## 1. Scopes -/

/-- The scopes in which a kind should be watched now. -/
def scopesFor (r : Registry) (kind : KindDescriptor) : List String :=
  if !kind.namespaced then [""]
  else if r.isApplicationKind kind then
    if r.filter.permitsAll then [""] else r.filter.globalNamespaces
  else r.filter.permittedNamespaces kind.gvr

/-- Those of them that are not watched yet. -/
def newScopes (r : Registry) (kind : KindDescriptor) : List String :=
  match r.watcher? kind.gvr with
  | none => r.scopesFor kind
  | some w => (r.scopesFor kind).filter fun scope => !w.hasScope scope

/-- Starts a reader for each scope that has none, with the requests made for it. -/
def openScopes (w : Watcher) : List String → Watcher × List ClientCall
  | [] => (w, [])
  | scope :: rest =>
    let (w', calls) := openScopes (w.openScope scope) rest
    (w', if w.hasScope scope then calls else .watch w.kind scope :: calls)

/-- Watches a kind in the given scopes, with a new watcher if it has none. -/
def openWatches (r : Registry) (kind : KindDescriptor) (scopes : List String) :
    Registry × List ClientCall :=
  let w := (r.watcher? kind.gvr).getD { kind := kind }
  let (w, calls) := openScopes w scopes
  ({ r with watchers := r.watchers.insert kind.gvr w }, calls)

/-- Permits the namespaces from which an application draws components of a kind. -/
def permitFor (r : Registry) (a : Application) (kind : KindDescriptor) : Registry :=
  if kind.namespaced then
    let asked := a.«namespace» :: SortedSet.toList a.componentNamespaces
    { r with filter := r.filter.permitEach kind.gvr asked }
  else r

/-! ## 2. Applications -/

/-- Parses objects of the application kind; those that are no applications are passed over with a
notice. -/
def parseApplications (r : Registry) : List ClusterObject → List Application × List Notice
  | [] => ([], [])
  | o :: os =>
    let (applications, notices) := r.parseApplications os
    match Application.ofObject r.applicationKind r.namespacesKey o with
    | .ok a => (a :: applications, notices)
    | .error e => (applications, .skippedApplication e :: notices)

/-- The applications in the cache at this moment. -/
def snapshot (r : Registry) : List Application × List Notice :=
  r.parseApplications (r.objects r.applicationKind.gvr)

/-- A resolver over applications under the registry's settings. -/
def resolver (r : Registry) (applications : List Application) : Resolver :=
  ⟨r.applicationKind.gvr, applications, r.filter⟩

/-! ## 3. Deletions through the cluster -/

/-- The request that deletes a resource; none if its kind is not watched. -/
def deletion? (r : Registry) (x : ResourceInfo) : Option ClientCall :=
  (r.watcher? x.gvr).map fun w => .delete w.kind x.«namespace» x.name

/-- The request that looks a resource up; none if its kind is not watched. -/
def lookup? (r : Registry) (x : ResourceInfo) : Option ClientCall :=
  (r.watcher? x.gvr).map fun w => .get w.kind x.«namespace» x.name

/-- Stops every watcher and forgets them.  What `Watcher.stop` ends of a watcher, its readers, its
inbox and its worker, is part of it and goes with it; so does the cache, which that leaves. -/
def stop (r : Registry) : Registry := { r with watchers := .empty }

/-- Stops the watcher of one kind; it stays in the registry with its cache. -/
def stopWatcher (r : Registry) (gvr : GroupVersionResource) : Registry :=
  { r with watchers := r.watchers.modify gvr Watcher.stop }

end Registry

end AppWatch
