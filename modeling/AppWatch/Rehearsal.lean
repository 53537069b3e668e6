/-
# Rehearsals

A rehearsal runs the engine against a scripted cluster with one thread and a clock that moves only
on demand.  Parties that can act take turns in the order in which they became able to: a party
acts until it has to wait, and whoever it enables joins the end of the line.  The cluster answers
at once.  Alarms of one moment ring in the order in which they were set.

Every turn is an action of `System.step`, so whatever a rehearsal shows is a run of the engine.
-/
import AppWatch.Rehearsal.Cluster
import AppWatch.Watch.System

namespace AppWatch

/-- A party that takes turns. -/
inductive Task where
  | reader (gvr : GroupVersionResource) (scope : String)
  | worker (gvr : GroupVersionResource)
  | processor
deriving DecidableEq

/-- The engine and its cluster, with the line of the parties that can act. -/
structure Rehearsal where
  system : System
  cluster : ScriptedCluster := {}
  /-- How long each callback takes, in milliseconds. -/
  duration : StatusCall → Nat := fun _ => 0
  /-- The parties that can act, in the order of their turns. -/
  ready : List Task := []
  /-- The alarms that were set, in the order in which they were set. -/
  alarms : List (Nat × Task) := []
  /-- Everything seen so far. -/
  notes : List Note := []

namespace Rehearsal

/-- How many turns are taken before a rehearsal is broken off. -/
def patience : Nat := 1000000

/-! ## 1. Who can act after an action -/

/-- Puts a party at the end of the line, unless it stands in it. -/
def enqueue (ready : List Task) (t : Task) : List Task :=
  if ready.contains t then ready else ready ++ [t]

/-- The task of a party; callers from outside have none. -/
def taskOf : Party → List Task
  | .worker gvr => [.worker gvr]
  | .caller _ => []

/-- The senders that have been granted room by an action. -/
def newlyGranted [DecidableEq ι] (before after : BoundedQueue ι α) : List ι :=
  (after.granted.map (·.1)).filter fun s => !before.granted.any fun g => g.1 = s

/-- The kind whose inbox an action may change. -/
def inboxOf : System.Action → Option GroupVersionResource
  | .read gvr _ | .enterInbox gvr _ | .take gvr => some gvr
  | _ => none

/-- The parties that an action enables on both sides of an inbox. -/
def enabledByInbox (before after : System) (gvr : GroupVersionResource) : List Task :=
  match before.registry.watcher? gvr, after.registry.watcher? gvr with
  | some w, some w' =>
    (if w.inbox.items.length < w'.inbox.items.length then [.worker gvr] else []) ++
      (newlyGranted w.inbox w'.inbox).map (.reader gvr)
  | _, _ => []

/-- The parties that an action enables on both sides of the batch queue. -/
def enabledByQueue (before after : System) : List Task :=
  (if before.queue.items.length < after.queue.items.length then [.processor] else []) ++
    (newlyGranted before.queue after.queue).flatMap taskOf ++
    (if !before.queue.closed && after.queue.closed then before.queue.pending.flatMap taskOf else [])

/-- The workers and readers that an action starts. -/
def started (before after : System) (notes : List Note) : List Task :=
  ((after.registry.watchers.keys.filter fun g => !before.registry.watchers.contains g).map
      Task.worker) ++
    notes.filterMap fun
      | .request (.watch k scope) => some (.reader k.gvr scope)
      | _ => none

/-- The reader that new items enable. -/
def enabledByStream (after : System) : System.Action → List Task
  | .feed gvr scope _ | .endStream gvr scope =>
    match (after.registry.watcher? gvr).bind fun w => w.readers.get? scope with
    | some r => if r.state = .reading then [.reader gvr scope] else []
    | none => []
  | _ => []

/-- All parties that an action enables. -/
def enabledBy (before after : System) (a : System.Action) (notes : List Note) : List Task :=
  started before after notes ++ ((inboxOf a).map (enabledByInbox before after)).getD [] ++
    enabledByQueue before after ++ enabledByStream after a

/-! ## 2. Alarms -/

/-- The alarms after an action. -/
def alarmsAfter (alarms : List (Nat × Task)) (after : System) : System.Action → List (Nat × Task)
  | .read gvr scope =>
    match (after.registry.watcher? gvr).bind fun w => w.readers.get? scope with
    | some { state := .pausing resumes, .. } => alarms ++ [(resumes, .reader gvr scope)]
    | _ => alarms
  | .process _ =>
    let others := alarms.filter fun a => a.2 ≠ .processor
    match after.pipeline.alarm? with
    | some t => others ++ [(t, .processor)]
    | none => others
  | _ => alarms

/-- The moment of the next alarm. -/
def nextAlarm? (r : Rehearsal) : Option Nat := (r.alarms.map (·.1)).min?

/-! ## 3. Turns -/

/-- Records in the script which streams an action has opened. -/
def openedStreams (c : ScriptedCluster) (notes : List Note) : ScriptedCluster :=
  notes.foldl (fun c n => match n with
    | .request (.watch k scope) => c.opened k.gvr scope
    | _ => c) c

/-- Performs an action; `none` if it is not possible now. -/
def perform? (r : Rehearsal) (a : System.Action) : Option Rehearsal :=
  (r.system.step a).map fun (s, notes) =>
    { r with
      system := s
      cluster := openedStreams r.cluster notes
      ready := (enabledBy r.system s a notes).foldl enqueue r.ready
      alarms := alarmsAfter r.alarms s a
      notes := r.notes ++ notes }

/-- Performs an action if it is possible now. -/
def perform (r : Rehearsal) (a : System.Action) : Rehearsal := (r.perform? a).getD r

/-- The action with which the cluster answers a party, or with which the party uses its room. -/
def answerTo (r : Rehearsal) (party : Party) : Awaiting → System.Action
  | .discovery _ component _ _ => .discovered party (r.cluster.resolve component)
  | .access kind _ scope _ _ => .checked party (r.cluster.check kind scope)
  | .room => if r.system.queue.closed then .refuse party else .enterQueue party

/-- What a reader does in its turn. -/
def readerAction (gvr : GroupVersionResource) (scope : String) : ReaderState → System.Action
  | .reading | .ended => .read gvr scope
  | .holding => .enterInbox gvr scope
  | .pausing _ => .wake gvr scope

/-- What a worker does in its turn. -/
def workerAction (r : Rehearsal) (gvr : GroupVersionResource) : Worker → System.Action
  | .idle | .dead => .take gvr
  | .ready _ _ => .proceed gvr
  | .handling _ _ a => r.answerTo (.worker gvr) a

/-- The next action of a task. -/
def actionOf? (r : Rehearsal) : Task → Option System.Action
  | .reader gvr scope =>
    ((r.system.registry.watcher? gvr).bind fun w => w.readers.get? scope).map fun rd =>
      readerAction gvr scope rd.state
  | .worker gvr => (r.system.registry.watcher? gvr).map fun w => r.workerAction gvr w.worker
  | .processor =>
    match r.system.pipeline.phase with
    | .calling (c :: _) _ => some (.process (r.duration c))
    | _ => some (.process 0)

/-- Takes turns until nobody can act. -/
def settleWithin : (turns : Nat) → Rehearsal → Rehearsal
  | 0, r => r
  | turns + 1, r =>
    match r.ready with
    | [] => r
    | t :: rest =>
      match (r.actionOf? t).bind r.perform? with
      | some r' => settleWithin turns r'
      | none => settleWithin turns { r with ready := rest }

/-- Takes turns until nobody can act. -/
def settle (r : Rehearsal) : Rehearsal := settleWithin patience r

/-! ## 4. Time -/

/-- Lets the clock stand at a moment; the parties whose alarms ring can act. -/
def ringAt (r : Rehearsal) (t : Nat) : Rehearsal :=
  let ringing := (r.alarms.filter fun a => a.1 ≤ t).map (·.2)
  let r := r.perform (.tick (t - r.system.pipeline.now))
  { r with
    alarms := r.alarms.filter fun a => t < a.1
    ready := ringing.foldl enqueue r.ready }

/-- Goes from alarm to alarm up to the target. -/
def advanceWithin (target : Nat) : (alarms : Nat) → Rehearsal → Rehearsal
  | 0, r => r
  | alarms + 1, r =>
    match r.nextAlarm? with
    | some t =>
      if t ≤ target then advanceWithin target alarms (r.ringAt t).settle
      else r.ringAt target
    | none => r.ringAt target

/-- Lets time pass. -/
def advance (r : Rehearsal) (ms : Nat) : Rehearsal :=
  advanceWithin (r.system.pipeline.now + ms) patience r

/-! ## 5. From outside -/

/-- The identity of the caller that rehearsals speak for. -/
def outside : Nat := 0

/-- Answers a call from outside until it returns or waits for room. -/
def answerWithin : (answers : Nat) → Rehearsal → Rehearsal
  | 0, r => r
  | answers + 1, r =>
    match r.system.callers.get? outside with
    | none => r
    | some .room => r
    | some a =>
      match r.perform? (r.answerTo (.caller outside) a) with
      | none => r
      | some r' => answerWithin answers r'

/-- What becomes of a call from outside. -/
inductive Returned where
  | result (r : Except Failure Unit)
  /-- It waits for room in the queue and is given up. -/
  | blocked
  /-- Its kind is not watched. -/
  | notWatched

/-- The result with which the last call from outside has returned. -/
def lastResult? (notes : List Note) : Option (Except Failure Unit) :=
  notes.reverse.findSome? fun
    | .returned _ r => some r
    | _ => none

/-- Makes a call from outside. -/
def call (r : Rehearsal) (c : System.Call) : Rehearsal × Returned :=
  match r.perform? (.call outside c) with
  | none => (r, .notWatched)
  | some r' =>
    let r' := answerWithin patience r'
    if (r'.system.callers.get? outside).isSome then (r'.perform (.giveUp outside), .blocked)
    else (r', match lastResult? (r'.notes.drop r.notes.length) with
      | some result => .result result
      | none => .blocked)

/-- Feeds items to the stream of a scope; the answer says how many were taken. -/
def feed (r : Rehearsal) (gvr : GroupVersionResource) (scope : String)
    (items : List StreamItem) : Rehearsal × Nat :=
  let reader := (r.system.registry.watcher? gvr).bind fun w => w.readers.get? scope
  let taken := r.cluster.streams.contains (gvr, scope) &&
    reader.any fun rd => rd.isOpen && rd.state ≠ .ended
  if taken then (r.perform (.feed gvr scope items), items.length) else (r, 0)

/-- Ends the stream of a scope; the answer says whether there was one. -/
def endStream (r : Rehearsal) (gvr : GroupVersionResource) (scope : String) : Rehearsal × Bool :=
  if r.cluster.streams.contains (gvr, scope) then
    let streams := r.cluster.streams.filter (· ≠ (gvr, scope))
    (({ r with cluster := { r.cluster with streams := streams } }).perform (.endStream gvr scope),
      true)
  else (r, false)

/-- Records a request made from outside. -/
def requested (r : Rehearsal) (c : ClientCall) : Rehearsal :=
  { r with notes := r.notes ++ [.request c] }

/-- Deletes a resource through the cluster; nothing is asked if its kind is not watched. -/
def delete (r : Rehearsal) (x : ResourceInfo) : Rehearsal × Except Failure Unit :=
  match r.system.registry.deletion? x with
  | some (.delete k ns name) =>
    let r := r.requested (.delete k ns name)
    match r.cluster.delete k ns name with
    | .ok c => ({ r with cluster := c }, .ok ())
    | .error f => (r, .error f)
  | _ => (r, .ok ())

/-- Whether a resource is gone, or its kind no longer watched. -/
def isDeleted (r : Rehearsal) (x : ResourceInfo) : Rehearsal × Except Failure Bool :=
  match r.system.registry.lookup? x with
  | some (.get k ns name) =>
    let r := r.requested (.get k ns name)
    (r, (r.cluster.get k ns name).map fun found => !found)
  | _ => (r, .ok true)

/-- Closes the receiving end of the batch queue; where a processor runs, that end is its own and
stays open. -/
def closeQueue (r : Rehearsal) : Rehearsal :=
  match r.system.pipeline.phase with
  | .stopped => r.perform .closeQueue
  | _ => r

/-- Takes every batch out of the queue. -/
def receiveWithin : (batches : Nat) → Rehearsal → Rehearsal
  | 0, r => r
  | batches + 1, r =>
    match r.perform? .receive with
    | none => r
    | some r' => receiveWithin batches r'

/-- Takes batches out of the queue until it stays empty. -/
def drainWithin : (rounds : Nat) → Rehearsal → Rehearsal
  | 0, r => r
  | rounds + 1, r =>
    if r.system.queue.items.isEmpty then r
    else drainWithin rounds (receiveWithin r.system.queue.items.length r).settle

/-- Takes batches out of the queue until it stays empty. -/
def drain (r : Rehearsal) : Rehearsal := drainWithin patience r

end Rehearsal

end AppWatch
