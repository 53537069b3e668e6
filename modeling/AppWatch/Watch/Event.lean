/-
# Watch events

What a watch stream yields (`StreamItem`) and what becomes of it: a change to the object that is
cached under a key (`ResourceEvent`).
-/
import AppWatch.Change
import AppWatch.Object

namespace AppWatch

/-- An event of a watch stream.  A listing is announced, gives each object, and is closed; between
listings single objects change. -/
inductive WatchEvent where
  | init
  | initApply (object : ClusterObject)
  | initDone
  | apply (object : ClusterObject)
  | delete (object : ClusterObject)
deriving DecidableEq

/-- What a watch stream yields: an event or a failure. -/
inductive StreamItem where
  | event (e : WatchEvent)
  | failure (f : Failure)
deriving DecidableEq

/-- An event with the scope whose stream has yielded it. -/
structure ScopedEvent where
  scope : String
  event : WatchEvent
deriving DecidableEq

/-- What kind of change an event reports. -/
inductive EventKind where
  | add
  | update
  | delete
deriving DecidableEq, Repr

/-- A change to the object that is cached under the key. -/
structure ResourceEvent where
  key : String
  change : Change ClusterObject
deriving DecidableEq

/-- The object that an event carries. -/
def WatchEvent.object? : WatchEvent → Option ClusterObject
  | initApply o | apply o | delete o => some o
  | init | initDone => none

/-- Whether the event carries an object without a name. -/
def WatchEvent.isNameless (e : WatchEvent) : Bool := e.object?.any fun o => o.key?.isNone

/-- The kind of change in one word. -/
def EventKind.text : EventKind → String
  | add => "Add"
  | update => "Update"
  | delete => "Delete"

/-- The kind of change that an event reports. -/
def ResourceEvent.kind (e : ResourceEvent) : EventKind :=
  match e.change with
  | .added _ => .add
  | .updated _ _ => .update
  | .deleted _ => .delete

end AppWatch
