/-
# The cache of one kind

`WatchCache.apply` brings one watch event into the cache and says which changes it makes.  While a
scope is being listed the cache notes which keys the listing has announced; when the listing is
closed, the cached objects of that scope that were not announced are gone.  Closing a listing that
was not opened changes nothing, and objects without a name are passed over.
-/
import AppWatch.Watch.Event

namespace AppWatch

/-- The cached objects of a kind by their keys, and the keys announced by each open listing. -/
structure WatchCache where
  objects : SortedMap String ClusterObject := .empty
  listings : SortedMap String (SortedSet String) := .empty
deriving DecidableEq

namespace WatchCache

/-- Whether an object lies in a scope; the empty scope holds all objects. -/
def inScope (scope : String) (o : ClusterObject) : Bool :=
  scope = "" || o.metadata.«namespace» = some scope

/-- Stores an object under its key. -/
def store (c : WatchCache) (key : String) (o : ClusterObject) : WatchCache × List ResourceEvent :=
  let change := match c.objects.get? key with
    | none => .added o
    | some old => .updated old o
  ({ c with objects := c.objects.insert key o }, [⟨key, change⟩])

/-- Notes that the open listing of a scope has announced a key. -/
def announce (c : WatchCache) (scope key : String) : WatchCache :=
  { c with listings := c.listings.modify scope fun keys => keys.add key }

/-- Whether an object is gone when the listing of a scope closes. -/
def isStale (scope : String) (announced : SortedSet String) (key : String)
    (o : ClusterObject) : Bool :=
  inScope scope o && !announced.contains key

/-- Closes the listing of a scope. -/
def closeListing (c : WatchCache) (scope : String) : WatchCache × List ResourceEvent :=
  match c.listings.get? scope with
  | none => (c, [])
  | some announced =>
    let stale := c.objects.filter (isStale scope announced)
    ({ objects := c.objects.filter fun key o => !isStale scope announced key o
       listings := c.listings.erase scope },
      stale.entries.map fun (key, o) => ⟨key, .deleted o⟩)

/-- Applies an event of a scope: the new cache and the changes, in order. -/
def apply (c : WatchCache) (scope : String) : WatchEvent → WatchCache × List ResourceEvent
  | .init => ({ c with listings := c.listings.insert scope .empty }, [])
  | .initApply o =>
    match o.key? with
    | none => (c, [])
    | some key => (c.announce scope key).store key o
  | .initDone => c.closeListing scope
  | .apply o =>
    match o.key? with
    | none => (c, [])
    | some key => c.store key o
  | .delete o =>
    match o.key? with
    | none => (c, [])
    | some key => ({ c with objects := c.objects.erase key }, [⟨key, .deleted o⟩])

/-- Applies events one after the other. -/
def applyAll (c : WatchCache) : List ScopedEvent → WatchCache × List ResourceEvent
  | [] => (c, [])
  | e :: es =>
    let (c', changes) := c.apply e.scope e.event
    let (c'', more) := c'.applyAll es
    (c'', changes ++ more)

/-- The change that an event stands for when it is handled: with the object as it is cached now,
and a deletion if it is cached no longer. -/
def latestChange (c : WatchCache) (e : ResourceEvent) : Change ClusterObject :=
  match e.change with
  | .deleted o => .deleted o
  | .added o =>
    match c.objects.get? e.key with
    | some current => .added current
    | none => .deleted o
  | .updated old new =>
    match c.objects.get? e.key with
    | some current => .updated old current
    | none => .deleted new

end WatchCache

end AppWatch
