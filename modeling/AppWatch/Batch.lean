/-
# Batches

A batch names the applications whose status has to be recomputed and the other resources that
changed.  Batches merge key by key, the later snapshot first.

`Batch.ofResourceChange` and `Batch.ofApplicationChange` build the batch of one change from the
ancestors of its snapshots.
-/
import AppWatch.Ancestors
import AppWatch.Change

namespace AppWatch

/-- Applications to recompute and other resources that changed, each under its key. -/
structure Batch where
  applications : FoundApplications := .empty
  resources : SortedMap ResourceKey ResourceInfo := .empty
deriving DecidableEq

namespace Batch

/-- The batch without entries. -/
def empty : Batch := {}

/-- Whether the batch has no entries. -/
def isEmpty (b : Batch) : Bool := b.applications.isEmpty && b.resources.isEmpty

/-- Adds the applications a walk has found. -/
def addApplications (b : Batch) (found : FoundApplications) : Batch :=
  { b with applications := b.applications.merge found }

/-- Adds a resource under its key. -/
def addResource (b : Batch) (r : ResourceInfo) : Batch :=
  { b with resources := b.resources.insert r.key r }

/-- All entries of both batches; on a key of both, the second batch's snapshot. -/
def merge (b c : Batch) : Batch where
  applications := b.applications.merge c.applications
  resources := b.resources.merge c.resources

/-- The batch of a change to a resource that is no application.  A deleted resource contributes
the ancestors it had; an added or updated one its ancestors and itself.  Where the labels have
changed, the ancestors that the old labels selected are in the batch too. -/
def ofResourceChange (r : Resolver) : Change ResourceInfo → Batch
  | .deleted old => empty.addApplications (r.ancestorsOf old)
  | .added new => (empty.addApplications (r.ancestorsOf new)).addResource new
  | .updated old new =>
    let before :=
      if sameLabels old.labels new.labels then empty
      else empty.addApplications (r.ancestorsOf old)
    (before.addApplications (r.ancestorsOf new)).addResource new

/-- The batch of a change to an application: itself and its ancestors, on an update those of both
snapshots. -/
def ofApplicationChange (r : Resolver) : Change ResourceInfo → Batch
  | .deleted old => empty.addApplications (r.ancestorsOf old)
  | .added new => empty.addApplications (r.ancestorsOf new)
  | .updated old new =>
    (empty.addApplications (r.ancestorsOf old)).addApplications (r.ancestorsOf new)

end Batch

end AppWatch
