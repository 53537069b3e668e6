/-
# Applications

An application selects its components by kind, by labels and by selector expressions; an
annotation may name further namespaces from which components are drawn.  The parsed form is
rebuilt from the object whenever it is needed.
-/
import AppWatch.Resource
import AppWatch.Text.NameList

namespace AppWatch

open Json (Written)

/-! ## 1. Selector expressions -/

/-- How a selector expression judges the value of its label. -/
inductive Operator where
  | oneOf
  | noneOf
  | present
  | absent
  /-- Any other text the application declares; it never holds. -/
  | unknown (text : String)
deriving DecidableEq, Repr

namespace Operator

/-- The operator with the given name. -/
def ofText (s : String) : Operator :=
  match s with
  | "In" => oneOf
  | "NotIn" => noneOf
  | "Exists" => present
  | "DoesNotExist" => absent
  | s => unknown s

/-- The operator's name. -/
def text : Operator → String
  | oneOf => "In"
  | noneOf => "NotIn"
  | present => "Exists"
  | absent => "DoesNotExist"
  | unknown s => s

/-- Whether the operator can hold at all. -/
def isKnown : Operator → Bool
  | unknown _ => false
  | _ => true

theorem text_ofText (s : String) : (ofText s).text = s := by
  unfold ofText
  split <;> rfl

end Operator

/-- A selector expression: a judgement on the label with the given key. -/
structure MatchExpression where
  key : String := ""
  operator : Operator := .unknown ""
  values : List String := []
deriving DecidableEq, Repr

/-! ## 2. The declared specification -/

/-- The label selector of a specification. -/
structure Selector where
  matchLabels : TextMap := .empty
  matchExpressions : List MatchExpression := []
deriving DecidableEq

/-- What an application declares about its components. -/
structure ApplicationSpec where
  componentKinds : List GroupKind := []
  selector : Selector := {}
deriving DecidableEq

namespace MatchExpression

/-- Reads one field; absent texts are empty. -/
def field (e : MatchExpression) (name : String) (w : Written) : Decoded MatchExpression :=
  match name with
  | "key" => do return { e with key := (← w.decodeOptional Written.decodeText).getD "" }
  | "operator" => do
    return { e with operator := .ofText ((← w.decodeOptional Written.decodeText).getD "") }
  | "values" => do
    return { e with
      values := (← w.decodeOptional (Written.decodeItems Written.decodeText)).getD [] }
  | _ => w.passing e

/-- Reads an expression. -/
def ofWritten : Written → Decoded MatchExpression :=
  Written.decodeMembers "LabelSelectorRequirement" {} field

end MatchExpression

namespace Selector

/-- Reads one field; absent parts are empty. -/
def field (s : Selector) (name : String) (w : Written) : Decoded Selector :=
  match name with
  | "matchLabels" => do
    return { s with matchLabels := (← w.decodeOptional Written.decodeTextMap).getD .empty }
  | "matchExpressions" => do
    let expressions ← w.decodeOptional (Written.decodeItems MatchExpression.ofWritten)
    return { s with matchExpressions := expressions.getD [] }
  | _ => w.passing s

/-- Reads a selector. -/
def ofWritten : Written → Decoded Selector := Written.decodeMembers "LabelSelector" {} field

end Selector

namespace ApplicationSpec

/-- Reads one field. -/
def field (s : ApplicationSpec) (name : String) (w : Written) : Decoded ApplicationSpec :=
  match name with
  | "componentKinds" => do return { s with componentKinds := ← w.decodeItems GroupKind.ofWritten }
  | "selector" => do return { s with selector := (← w.decodeOptional Selector.ofWritten).getD {} }
  | _ => w.passing s

/-- The record of both parts, neither required. -/
def layout : Layout ApplicationSpec where
  name := "ApplicationSpec"
  fields := [("componentKinds", false), ("selector", false)]
  field := field

/-- Reads a specification. -/
def ofJson (j : Json) : Decoded ApplicationSpec := layout.decode {} j.written

end ApplicationSpec

/-! ## 3. Applications -/

/-- A parsed application. -/
structure Application where
  resource : ResourceInfo := {}
  componentKinds : List GroupKind := []
  matchLabels : TextMap := .empty
  matchExpressions : List MatchExpression := []
  componentNamespaces : SortedSet String := .empty
deriving DecidableEq

namespace Application

/-- The annotation that names further namespaces, unless configured otherwise. -/
def defaultNamespacesKey : String := "kappnav.component.namespaces"

/-- The namespace the application lives in. -/
def «namespace» (a : Application) : String := a.resource.«namespace»

/-- The application's name. -/
def name (a : Application) : String := a.resource.name

/-- The identity of the application. -/
def key (a : Application) : ResourceKey := a.resource.key

/-- The namespaces that an object's annotation names. -/
def annotatedNamespaces (namespacesKey : String) (o : ClusterObject) : SortedSet String :=
  match o.metadata.annotations.bind (·.get? namespacesKey) with
  | none => .empty
  | some value => Text.nameSet value

/-- Parses an object of the application kind. -/
def ofObject (k : KindDescriptor) (namespacesKey : String) (o : ClusterObject) :
    Except Failure Application := do
  let resource ← ResourceInfo.ofObject k o
  match o.data.get? "spec" with
  | none => .error (.parse resource.key.text .missingSpec)
  | some j =>
    match ApplicationSpec.ofJson j with
    | .error e => .error (.parse resource.key.text (.malformed e))
    | .ok spec => return {
        resource := resource
        componentKinds := spec.componentKinds
        matchLabels := spec.selector.matchLabels
        matchExpressions := spec.selector.matchExpressions
        componentNamespaces := annotatedNamespaces namespacesKey o }

end Application

end AppWatch
