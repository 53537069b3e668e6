/-
# The watching engine

The whole engine as a transition system.  A `System` holds the registry, the batch queue with the
processor behind it, and the calls made from outside that have not returned.  An `Action` is what
one party does between two points at which it may have to wait; `System.step` says what comes of
it, or that the party cannot act now.  Everything the engine does in a step that can be seen from
outside is a `Note`.

Parties act in any order.  The answers of the cluster, the length of a callback and the passage of
time are part of the actions, so a run of the engine is a list of actions and a statement about
all runs speaks of all lists.
-/
import AppWatch.Watch.Registry

namespace AppWatch

/-! ## 1. Parties and notes -/

/-- Who handles changes or waits for an answer: the worker of a kind, or a caller from outside. -/
inductive Party where
  | worker (gvr : GroupVersionResource)
  | caller (id : Nat)
deriving DecidableEq

/-- Whether a party calls from outside. -/
def Party.isCaller : Party → Bool
  | .caller _ => true
  | .worker _ => false

/-- Something that can be seen from outside. -/
inductive Note where
  /-- A request to the cluster. -/
  | request (c : ClientCall)
  | notice (n : Notice)
  /-- A batch on its way into the queue. -/
  | sent (sender : Party) (b : Batch)
  /-- A callback of the processor. -/
  | callback (c : TimedCall)
  /-- A batch taken out of the queue by a receiver other than the processor. -/
  | received (b : Batch)
  /-- A call from outside has returned. -/
  | returned (id : Nat) (result : Except Failure Unit)

/-- The engine at one moment. -/
structure System where
  registry : Registry
  pipeline : Pipeline Party
  /-- What the calls from outside wait for that have not returned. -/
  callers : SortedMap Nat Awaiting := .empty

/-- How far a party has come. -/
inductive Progress where
  | waits (awaiting : Awaiting)
  | finished (result : Except Failure Unit)

/-- What comes of a party's work up to the next point at which it may have to wait. -/
structure Outcome where
  system : System
  notes : List Note
  progress : Progress

/-- The outcome with notes of what was done before. -/
def Outcome.after (o : Outcome) (notes : List Note) : Outcome :=
  { o with notes := notes ++ o.notes }

namespace System

/-- The batch queue. -/
def queue (s : System) : BoundedQueue Party Batch := s.pipeline.queue

/-- Changes the watcher of a kind. -/
def setWatcher (s : System) (gvr : GroupVersionResource) (w : Watcher) : System :=
  { s with registry := { s.registry with watchers := s.registry.watchers.insert gvr w } }

/-- Changes the batch queue. -/
def setQueue (s : System) (q : BoundedQueue Party Batch) : System :=
  { s with pipeline := { s.pipeline with queue := q } }

/-! ## 2. Sending batches -/

/-- Sends a batch; empty ones are dropped. -/
def send (s : System) (self : Party) (b : Batch) : Outcome :=
  if b.isEmpty then ⟨s, [], .finished (.ok ())⟩
  else match s.queue.offer self b with
    | .accepted q => ⟨s.setQueue q, [.sent self b], .finished (.ok ())⟩
    | .waits q => ⟨s.setQueue q, [.sent self b], .waits .room⟩
    | .refused => ⟨s, [], .finished (.error .queueClosed)⟩

/-- Builds the batch of a change over the applications cached now and sends it. -/
def sendChange (s : System) (self : Party) (kind : KindDescriptor) (change : Change ClusterObject)
    (build : Resolver → Change ResourceInfo → Batch) : Outcome :=
  match change.mapM? (ResourceInfo.ofObject kind) with
  | .error e => ⟨s, [], .finished (.error e)⟩
  | .ok c =>
    let (applications, notices) := s.registry.snapshot
    (s.send self (build (s.registry.resolver applications) c)).after (notices.map .notice)

/-! ## 3. Watching kinds -/

/-- Goes on with a plan until it waits for an answer or is done. -/
def pursue (s : System) (self : Party) : Plan → Outcome
  | .done => ⟨s, [], .finished (.ok ())⟩
  | .components _ [] next => s.pursue self next
  | .components a (c :: rest) next =>
    ⟨s, [.request (.resolve c)], .waits (.discovery a c rest next)⟩
  | .sendBatch kind change => s.sendChange self kind change Batch.ofApplicationChange

/-- Watches a kind in scopes that were found listable, then goes on with the plan. -/
def watchScopes (s : System) (self : Party) (kind : KindDescriptor) (scopes : List String)
    (next : Plan) : Outcome :=
  let (registry, calls) := s.registry.openWatches kind scopes
  ({ s with registry := registry }.pursue self next).after (calls.map .request)

/-- Asks whether the first of some scopes can be listed; with none left, watches them all. -/
def checkScopes (s : System) (self : Party) (kind : KindDescriptor) (scopes rest : List String)
    (next : Plan) : Outcome :=
  match rest with
  | [] => s.watchScopes self kind scopes next
  | scope :: rest =>
    ⟨s, [.request (.check kind scope)], .waits (.access kind scopes scope rest next)⟩

/-- Makes sure that a kind is watched in every scope it should be watched in, then goes on with
the plan.  Only scopes that are not watched yet are checked, and nothing is started before all of
them are found listable. -/
def addToWatch (s : System) (self : Party) (kind : KindDescriptor) (next : Plan) : Outcome :=
  let scopes := s.registry.newScopes kind
  s.checkScopes self kind scopes scopes next

/-- Goes on when discovery has answered for a component kind. -/
def onDiscovery (s : System) (self : Party) (a : Application) (component : GroupKind)
    (rest : List GroupKind) (next : Plan) : Except Failure (Option KindDescriptor) → Outcome
  | .error e => ⟨s, [], .finished (.error e)⟩
  | .ok none =>
    (s.pursue self (.components a rest next)).after [.notice (.unknownKind a.key component)]
  | .ok (some kind) =>
    { s with registry := s.registry.permitFor a kind }.addToWatch self kind
      (.components a rest next)

/-- The failure of a watch whose scope was refused. -/
def refusal (kind : KindDescriptor) (scope : String) : Failure → Failure
  | .watchStart k reason => .watchStart k reason
  | .cannotList k s cause => .cannotList k s cause
  | cause => .cannotList kind scope cause

/-- Goes on when the cluster has said whether a scope can be listed. -/
def onAccess (s : System) (self : Party) (kind : KindDescriptor) (scopes : List String)
    (scope : String) (rest : List String) (next : Plan) : Except Failure Unit → Outcome
  | .error e => ⟨s, [], .finished (.error (refusal kind scope e))⟩
  | .ok () => s.checkScopes self kind scopes rest next

/-! ## 4. Handling changes -/

/-- Handles a change to a resource that is no application: sends its batch. -/
def handleResource (s : System) (self : Party) (kind : KindDescriptor) (cache : WatchCache)
    (e : ResourceEvent) : Outcome :=
  s.sendChange self kind (cache.latestChange e) Batch.ofResourceChange

/-- The object of an application that has to be watched after a change: deleted ones need no
watches. -/
def watchedObject? : Change ClusterObject → Option ClusterObject
  | .added o | .updated _ o => some o
  | .deleted _ => none

/-- Handles a change to an application: watches the kinds of its components, then sends its
batch. -/
def handleApplication (s : System) (self : Party) (kind : KindDescriptor) (cache : WatchCache)
    (e : ResourceEvent) : Outcome :=
  let change := cache.latestChange e
  match watchedObject? change with
  | none => s.pursue self (.sendBatch kind change)
  | some o =>
    match Application.ofObject kind s.registry.namespacesKey o with
    | .error e => ⟨s, [], .finished (.error e)⟩
    | .ok a => s.pursue self (.components a a.componentKinds (.sendBatch kind change))

/-- Handles a change as the kind's worker does.  Neither the kind of a watcher nor that of the
applications ever changes, so a kind has the same handler from its registration on. -/
def handle (s : System) (self : Party) (w : Watcher) (e : ResourceEvent) : Outcome :=
  if s.registry.isApplicationKind w.kind then s.handleApplication self w.kind w.cache e
  else s.handleResource self w.kind w.cache e

/-! ## 5. Concluding a party's work -/

/-- Changes what the worker of a kind is doing. -/
def setWorker (s : System) (gvr : GroupVersionResource) (worker : Worker) : System :=
  match s.registry.watcher? gvr with
  | none => s
  | some w => s.setWatcher gvr { w with worker := worker }

/-- The state after a worker has come as far as it could with a change. -/
def concludeWorker (gvr : GroupVersionResource) (kind : KindDescriptor) (e : ResourceEvent)
    (rest : List ResourceEvent) (o : Outcome) : System × List Note :=
  match o.progress with
  | .waits a => (o.system.setWorker gvr (.handling e rest a), o.notes)
  | .finished (.ok ()) => (o.system.setWorker gvr (.facing rest), o.notes)
  | .finished (.error f) =>
    (o.system.setWorker gvr (.facing rest),
      o.notes ++ [.notice (.handlerFailed kind e.key e.kind f)])

/-- The state after a call from outside has come as far as it could. -/
def concludeCaller (id : Nat) (o : Outcome) : System × List Note :=
  match o.progress with
  | .waits a => ({ o.system with callers := o.system.callers.insert id a }, o.notes)
  | .finished r =>
    ({ o.system with callers := o.system.callers.erase id }, o.notes ++ [.returned id r])

/-- What a party waits for. -/
def awaiting? (s : System) : Party → Option Awaiting
  | .worker gvr =>
    match s.registry.watcher? gvr with
    | some { worker := .handling _ _ a, .. } => some a
    | _ => none
  | .caller id => s.callers.get? id

/-- Concludes the work of a party that was waiting. -/
def conclude (s : System) (party : Party) (o : Outcome) : System × List Note :=
  match party with
  | .caller id => concludeCaller id o
  | .worker gvr =>
    match s.registry.watcher? gvr with
    | some { kind, worker := .handling e rest _, .. } => concludeWorker gvr kind e rest o
    | _ => (o.system, o.notes)

/-! ## 6. Readers and inboxes -/

/-- The reader of a scope takes the next item of its stream. -/
def read (s : System) (gvr : GroupVersionResource) (scope : String) :
    Option (System × List Note) := do
  let w ← s.registry.watcher? gvr
  let r ← w.readers.get? scope
  if r.state ≠ .reading then none
  else
    let put (w : Watcher) (r : Reader) : System :=
      s.setWatcher gvr { w with readers := w.readers.insert scope r }
    match r.unread with
    | [] => if r.isOpen then none else some (put w { r with state := .ended }, [])
    | .failure f :: rest =>
      let count := min (r.failures + 1) maxFailures
      let resumes := s.pipeline.now + retryDelay
      let r := { r with unread := rest, failures := count, state := .pausing resumes }
      let notes := if isReported count then [.notice (.streamFailed w.kind scope count f)] else []
      some (put w r, notes)
    | .event e :: rest =>
      let r := { r with unread := rest, failures := 0 }
      match w.inbox.offer scope ⟨scope, e⟩ with
      | .accepted q => some (put { w with inbox := q } r, [])
      | .waits q => some (put { w with inbox := q } { r with state := .holding }, [])
      | .refused => some (put w { r with state := .ended }, [])

/-- A reader whose pause is over goes back to its stream. -/
def wake (s : System) (gvr : GroupVersionResource) (scope : String) : Option System := do
  let w ← s.registry.watcher? gvr
  let r ← w.readers.get? scope
  match r.state with
  | .pausing resumes =>
    if resumes ≤ s.pipeline.now then
      some (s.setWatcher gvr { w with
        readers := w.readers.insert scope { r with state := .reading } })
    else none
  | _ => none

/-- A reader that was given room puts its event into the inbox. -/
def enterInbox (s : System) (gvr : GroupVersionResource) (scope : String) : Option System := do
  let w ← s.registry.watcher? gvr
  let q ← w.inbox.enter? scope
  let readers := w.readers.modify scope fun r => { r with state := .reading }
  return s.setWatcher gvr { w with inbox := q, readers := readers }

/-! ## 7. Workers -/

/-- The worker of a kind handles the change before it. -/
def proceed (s : System) (gvr : GroupVersionResource) : Option (System × List Note) := do
  let w ← s.registry.watcher? gvr
  match w.worker with
  | .ready e rest => some (concludeWorker gvr w.kind e rest (s.handle (.worker gvr) w e))
  | _ => none

/-- The worker of a kind takes an event, applies it, and handles the first of its changes. -/
def take (s : System) (gvr : GroupVersionResource) : Option (System × List Note) := do
  let w ← s.registry.watcher? gvr
  if w.worker ≠ .idle then none
  else
    let (e, q) ← w.inbox.take?
    let (cache, changes) := w.cache.apply e.scope e.event
    let notes := if e.event.isNameless then [.notice (.namelessObject w.kind)] else []
    let s := s.setWatcher gvr { w with inbox := q, cache := cache, worker := .facing changes }
    match s.proceed gvr with
    | none => return (s, notes)
    | some (s', more) => return (s', notes ++ more)

/-! ## 8. Calls from outside -/

/-- A call from outside. -/
inductive Call where
  | addToWatch (kind : KindDescriptor)
  | watchComponents (a : Application)
  | handleApplication (gvr : GroupVersionResource) (e : ResourceEvent)
  | handleResource (gvr : GroupVersionResource) (e : ResourceEvent)
  | send (b : Batch)

/-- Begins a call; handling needs the watcher of the kind. -/
def begin (s : System) (id : Nat) : Call → Option Outcome
  | .addToWatch kind => some (s.addToWatch (.caller id) kind .done)
  | .watchComponents a => some (s.pursue (.caller id) (.components a a.componentKinds .done))
  | .handleApplication gvr e =>
    (s.registry.watcher? gvr).map fun w => s.handleApplication (.caller id) w.kind w.cache e
  | .handleResource gvr e =>
    (s.registry.watcher? gvr).map fun w => s.handleResource (.caller id) w.kind w.cache e
  | .send b => some (s.send (.caller id) b)

/-! ## 9. Steps -/

/-- What one party does. -/
inductive Action where
  /-- A reader takes the next item of its stream. -/
  | read (gvr : GroupVersionResource) (scope : String)
  /-- A reader's pause is over. -/
  | wake (gvr : GroupVersionResource) (scope : String)
  /-- A reader uses the room it was given in the inbox. -/
  | enterInbox (gvr : GroupVersionResource) (scope : String)
  /-- A worker takes an event. -/
  | take (gvr : GroupVersionResource)
  /-- A worker goes on to its next change. -/
  | proceed (gvr : GroupVersionResource)
  /-- Discovery answers a party. -/
  | discovered (party : Party) (reply : Except Failure (Option KindDescriptor))
  /-- The cluster says whether a scope can be listed. -/
  | checked (party : Party) (reply : Except Failure Unit)
  /-- A party uses the room it was given in the batch queue. -/
  | enterQueue (party : Party)
  /-- A party that waits for room learns that the queue is closed. -/
  | refuse (party : Party)
  /-- The processor makes a step; a callback made in it takes so long. -/
  | process (duration : Nat)
  /-- Time passes. -/
  | tick (ms : Nat)
  /-- A watch stream yields items. -/
  | feed (gvr : GroupVersionResource) (scope : String) (items : List StreamItem)
  /-- A watch stream ends. -/
  | endStream (gvr : GroupVersionResource) (scope : String)
  /-- A call from outside begins. -/
  | call (id : Nat) (c : Call)
  /-- A call from outside is given up. -/
  | giveUp (id : Nat)
  /-- A namespace is permitted from outside. -/
  | permit (gvr : GroupVersionResource) («namespace» : String)
  /-- A receiver other than the processor takes a batch. -/
  | receive
  /-- The receiver of the batch queue is gone. -/
  | closeQueue
  | stopWatcher (gvr : GroupVersionResource)
  | stop

/-- Changes the reader of a scope. -/
def modifyReader (s : System) (gvr : GroupVersionResource) (scope : String)
    (f : Reader → Reader) : System :=
  match s.registry.watcher? gvr with
  | none => s
  | some w => s.setWatcher gvr { w with readers := w.readers.modify scope f }

/-- Sends the parties away from the queue that fail the test. -/
def keepParties (s : System) (keep : Party → Bool) : System :=
  s.setQueue (s.queue.keepSenders keep)

/-- What comes of an action; `none` if the party cannot act so now. -/
def step (s : System) : Action → Option (System × List Note)
  | .read gvr scope => s.read gvr scope
  | .wake gvr scope => (s.wake gvr scope).map (·, [])
  | .enterInbox gvr scope => (s.enterInbox gvr scope).map (·, [])
  | .take gvr => s.take gvr
  | .proceed gvr => s.proceed gvr
  | .discovered party reply =>
    match s.awaiting? party with
    | some (.discovery a c rest next) =>
      some (s.conclude party (s.onDiscovery party a c rest next reply))
    | _ => none
  | .checked party reply =>
    match s.awaiting? party with
    | some (.access kind scopes scope rest next) =>
      some (s.conclude party (s.onAccess party kind scopes scope rest next reply))
    | _ => none
  | .enterQueue party =>
    match s.queue.enter? party with
    | some q => some (s.conclude party ⟨s.setQueue q, [], .finished (.ok ())⟩)
    | none => none
  | .refuse party =>
    if s.awaiting? party = some .room ∧ s.queue.closed then
      some (s.conclude party ⟨s, [], .finished (.error .queueClosed)⟩)
    else none
  | .process duration =>
    match s.pipeline.step fun _ => duration with
    | some (p, c) => some ({ s with pipeline := p }, c.toList.map .callback)
    | none => none
  | .tick ms => some ({ s with pipeline := { s.pipeline with now := s.pipeline.now + ms } }, [])
  | .feed gvr scope items =>
    some (s.modifyReader gvr scope fun r =>
      if r.isOpen ∧ r.state ≠ .ended then { r with unread := r.unread ++ items } else r, [])
  | .endStream gvr scope =>
    some (s.modifyReader gvr scope fun r => { r with isOpen := false }, [])
  | .call id c => (s.begin id c).map (concludeCaller id)
  | .giveUp id =>
    some ({ s with callers := s.callers.erase id }.keepParties (· ≠ Party.caller id), [])
  | .permit gvr ns =>
    some ({ s with registry := { s.registry with filter := (s.registry.filter.permit gvr ns).2 } },
      [])
  | .receive =>
    match s.queue.take? with
    | some (b, q) => some (s.setQueue q, [.received b])
    | none => none
  | .closeQueue => some (s.setQueue s.queue.close, [])
  | .stopWatcher gvr =>
    some ({ s with registry := s.registry.stopWatcher gvr }.keepParties (· ≠ Party.worker gvr), [])
  | .stop => some ({ s with registry := s.registry.stop }.keepParties Party.isCaller, [])

/-- The state after a list of actions, with everything seen on the way. -/
def run (s : System) : List Action → Option (System × List Note)
  | [] => some (s, [])
  | a :: rest => do
    let (s', notes) ← s.step a
    let (s'', more) ← s'.run rest
    return (s'', notes ++ more)

end System

end AppWatch
