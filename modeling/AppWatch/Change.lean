/-
# Changes

A change to one thing with the snapshots that describe it.
-/
import AppWatch.Failure

namespace AppWatch

/-- A change to one thing: it appeared, it went from one state to another, or it is gone. -/
inductive Change (α : Type) where
  | added (new : α)
  | updated (old new : α)
  | deleted (old : α)
deriving DecidableEq, Repr

namespace Change

/-- The snapshot that is current after the change, the last one for a deletion. -/
def latest : Change α → α
  | added new | updated _ new => new
  | deleted old => old

/-- The snapshots, older first. -/
def snapshots : Change α → List α
  | added new => [new]
  | updated old new => [old, new]
  | deleted old => [old]

/-- Converts every snapshot, older first; the first failure is the result. -/
def mapM? (f : α → Except ε β) : Change α → Except ε (Change β)
  | added new => return added (← f new)
  | updated old new => return updated (← f old) (← f new)
  | deleted old => return deleted (← f old)

end Change

end AppWatch
