/-
# The watch of one kind

A `Watcher` has one reader for each scope it watches and one worker.  Readers forward the events
of their streams to the worker's inbox, which has room for `inboxRoom` events; a reader that finds
it full waits with its event.  After each failure of its stream a reader pauses for `retryDelay`.

The worker takes one event at a time, applies it to the cache and handles the changes it makes,
one after the other, before it takes the next.  Handling may have to wait: for an answer of the
cluster (`Awaiting.discovery`, `Awaiting.access`) or for room in the batch queue
(`Awaiting.room`).  What is still to be done after the answer is a value of `Plan`.
-/
import AppWatch.Application
import AppWatch.BoundedQueue
import AppWatch.Watch.Cache

namespace AppWatch

/-- How many events wait between the streams of a kind and its worker. -/
def inboxRoom : Nat := 128

/-- How long a reader pauses after a failure, in milliseconds. -/
def retryDelay : Nat := 1000

/-! ## 1. Readers -/

/-- What a reader is doing. -/
inductive ReaderState where
  /-- Waiting for the next item of its stream. -/
  | reading
  /-- Waiting for room in the inbox with an event. -/
  | holding
  /-- Pausing after a failure. -/
  | pausing (resumes : Nat)
  | ended
deriving DecidableEq

/-- The reader of one scope. -/
structure Reader where
  /-- What the stream has yielded and the reader has not read yet. -/
  unread : List StreamItem := []
  /-- Whether the stream may yield more. -/
  isOpen : Bool := true
  /-- How many failures have come since the last event. -/
  failures : Nat := 0
  state : ReaderState := .reading
deriving DecidableEq

/-- The largest number of failures that is counted. -/
def maxFailures : Nat := UInt32.size - 1

/-- Whether a failure is reported: the first of a row and every tenth. -/
def isReported (count : Nat) : Bool := count = 1 || count % 10 = 0

/-! ## 2. Work that waits -/

/-- What is left to do, after which the work is done. -/
inductive Plan where
  | done
  /-- Watch the component kinds an application declares, then go on. -/
  | components (application : Application) (kinds : List GroupKind) (next : Plan)
  /-- Send the batch of a change to an application. -/
  | sendBatch (kind : KindDescriptor) (change : Change ClusterObject)
deriving DecidableEq

/-- What the work waits for. -/
inductive Awaiting where
  /-- The kind that the cluster serves for a declared one. -/
  | discovery (application : Application) (component : GroupKind) (rest : List GroupKind)
      (next : Plan)
  /-- Whether a scope can be listed; `rest` are the scopes to be checked after it and `scopes`
  all that will be watched. -/
  | access (kind : KindDescriptor) (scopes : List String) (scope : String) (rest : List String)
      (next : Plan)
  /-- Room in the batch queue. -/
  | room
deriving DecidableEq

/-- What a worker is doing. -/
inductive Worker where
  | idle
  /-- About to handle the first of some changes. -/
  | ready (event : ResourceEvent) (rest : List ResourceEvent)
  /-- Handling a change, with more to follow. -/
  | handling (event : ResourceEvent) (rest : List ResourceEvent) (awaiting : Awaiting)
  | dead
deriving DecidableEq

/-- The worker with some changes before it. -/
def Worker.facing : List ResourceEvent → Worker
  | [] => .idle
  | e :: es => .ready e es

/-! ## 3. The watch of a kind -/

/-- The watch of one kind. -/
structure Watcher where
  kind : KindDescriptor
  cache : WatchCache := {}
  readers : SortedMap String Reader := .empty
  inbox : BoundedQueue String ScopedEvent := { capacity := inboxRoom }
  worker : Worker := .idle

namespace Watcher

/-- Whether a scope is watched. -/
def hasScope (w : Watcher) (scope : String) : Bool := w.readers.contains scope

/-- The watched scopes in ascending order. -/
def scopes (w : Watcher) : List String := w.readers.keys

/-- Copies of the cached objects. -/
def objects (w : Watcher) : List ClusterObject := w.cache.objects.values

/-- Starts a reader for a scope, unless it has one. -/
def openScope (w : Watcher) (scope : String) : Watcher :=
  if w.hasScope scope then w else { w with readers := w.readers.insert scope {} }

/-- Ends every reader and the worker; the cache stays. -/
def stop (w : Watcher) : Watcher :=
  { w with readers := .empty, inbox := w.inbox.close, worker := .dead }

end Watcher

end AppWatch
