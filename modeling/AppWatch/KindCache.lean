/-
# Remembered kinds

Discovery asks the cluster several times for each declared kind, so its answers are remembered:
the kind that is served for the declared one, or that none is.  An answer once remembered stays.
A failed discovery is no answer and leaves the memory as it was.
-/
import AppWatch.Failure
import AppWatch.SortedMap

namespace AppWatch

/-- The answers of discovery by declared kind. -/
structure KindCache where
  answers : SortedMap GroupKind (Option KindDescriptor) := .empty

/-- What discovery says about a declared kind: the kind that is served for it, or that none is. -/
abbrev Discovery := Except Failure (Option KindDescriptor)

/-- What came of looking a kind up. -/
structure KindLookup where
  result : Discovery
  /-- Whether discovery was asked. -/
  asked : Bool

namespace KindCache

/-- The remembered answer for a declared kind. -/
def answer? (c : KindCache) (component : GroupKind) : Option (Option KindDescriptor) :=
  c.answers.get? component

/-- Remembers what discovery says, unless it failed. -/
def remember (c : KindCache) (component : GroupKind) : Discovery → KindCache
  | .ok answer => { c with answers := c.answers.insert component answer }
  | .error _ => c

/-- Looks a declared kind up; `discovery` is what discovery would say now. -/
def resolve (c : KindCache) (component : GroupKind) (discovery : Discovery) :
    KindLookup × KindCache :=
  match c.answer? component with
  | some answer => (⟨.ok answer, false⟩, c)
  | none => (⟨discovery, true⟩, c.remember component discovery)

end KindCache

end AppWatch
