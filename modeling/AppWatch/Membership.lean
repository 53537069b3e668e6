/-
# Which resources are components of an application

Plain tests on an application and a resource.  An application without a selector has no
components: empty label requirements and empty expression lists match nothing.
-/
import AppWatch.Application
import AppWatch.NamespaceFilter

namespace AppWatch

/-! ## 1. Labels -/

/-- Whether both label sets are absent, or both present and equal. -/
def sameLabels (a b : Labels) : Bool := a = b

/-- The value of a label, where an absent set has no labels. -/
def Labels.value? (l : Labels) (key : String) : Option String := l.bind (·.get? key)

/-- Whether every required pair is among the labels; no requirement matches nothing. -/
def labelsMatch (required : TextMap) (labels : Labels) : Bool :=
  !required.isEmpty &&
    match labels with
    | none => false
    | some l => required.entries.all fun (k, v) => l.get? k = some v

namespace MatchExpression

/-- Whether the labels satisfy the expression. -/
def holds (e : MatchExpression) (labels : Labels) : Bool :=
  let value := Labels.value? labels e.key
  match e.operator with
  | .oneOf => value.any fun v => e.values.contains v
  | .noneOf => value.all fun v => !e.values.contains v
  | .present => value.isSome
  | .absent => value.isNone
  | .unknown _ => false

end MatchExpression

/-- Whether the labels satisfy every expression; no expression matches nothing. -/
def expressionsMatch (expressions : List MatchExpression) (labels : Labels) : Bool :=
  !expressions.isEmpty && expressions.all fun e => e.holds labels

/-! ## 2. Components -/

namespace Application

/-- Whether resources of a namespace may be components: those without a namespace, those of the
application's own namespace if it is permitted, and those of the namespaces it names. -/
def drawsFrom (a : Application) (f : NamespaceFilter) (ns : String) : Bool :=
  ns = "" || (a.«namespace» = ns && f.isPermitted ns) || a.componentNamespaces.contains ns

/-- Whether the application declares a kind of the given name. -/
def declaresKind (a : Application) (kind : String) : Bool :=
  a.componentKinds.any fun g => g.kind = kind

/-- Whether the selector matches the labels: each part that is not empty has to. -/
def selects (a : Application) (labels : Labels) : Bool :=
  match a.matchLabels.isEmpty, a.matchExpressions.isEmpty with
  | false, false => labelsMatch a.matchLabels labels && expressionsMatch a.matchExpressions labels
  | false, true => labelsMatch a.matchLabels labels
  | true, false => expressionsMatch a.matchExpressions labels
  | true, true => false

/-- Whether a resource is a component of the application. -/
def hasComponent (a : Application) (f : NamespaceFilter) (r : ResourceInfo) : Bool :=
  a.drawsFrom f r.«namespace» && !a.resource.isSameResource r && a.declaresKind r.kind &&
    a.selects r.labels

end Application

end AppWatch
