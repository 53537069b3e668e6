/-
# A scripted cluster

The cluster that a rehearsal talks to: the kinds it serves, the objects it has, the requests it
refuses, and the watch streams that were opened and not ended.
-/
import AppWatch.Watch.Registry

namespace AppWatch

/-- The kinds of requests that can be refused. -/
inductive RequestKind where
  | resolve
  | check
  | get
  | delete
deriving DecidableEq

/-- Requests that the cluster refuses. -/
structure Refusal where
  request : RequestKind
  /-- The declared or watched kind the request is about, as text. -/
  subject : String
  /-- The scope of the request; any, if none is given. -/
  scope : Option String := none
  /-- Whether the refusal reads as a watch that did not start. -/
  asWatchStart : Bool := false
deriving DecidableEq

/-- A cluster that answers from a script. -/
structure ScriptedCluster where
  kinds : List KindDescriptor := []
  refusals : List Refusal := []
  objects : List ResourceKey := []
  /-- The streams that were opened and not ended. -/
  streams : List (GroupVersionResource × String) := []

/-- The name of the kind of a request. -/
def RequestKind.text : RequestKind → String
  | resolve => "resolve"
  | check => "check"
  | get => "get"
  | delete => "delete"

/-- A request in words. -/
def ClientCall.text : ClientCall → String
  | resolve g => "resolve " ++ g.text
  | check k scope => "check " ++ k.gvr.text ++ " '" ++ scope ++ "'"
  | watch k scope => "watch " ++ k.gvr.text ++ " '" ++ scope ++ "'"
  | get k ns name => "get " ++ k.gvr.text ++ " '" ++ ns ++ "' '" ++ name ++ "'"
  | delete k ns name => "delete " ++ k.gvr.text ++ " '" ++ ns ++ "' '" ++ name ++ "'"

namespace ScriptedCluster

/-- The failure of a request that the script refuses; `target` names its kind in full. -/
def refusal? (c : ScriptedCluster) (request : RequestKind) (subject target scope : String) :
    Option Failure :=
  (c.refusals.find? fun r =>
      r.request = request && r.subject = subject && r.scope.all (· = scope)).map fun r =>
    let reason := request.text ++ " forbidden in '" ++ scope ++ "'"
    if r.asWatchStart then .watchStart target reason else .unexpectedObject reason

/-- The answer to a request, unless it is refused. -/
def answerUnless (refused : Option Failure) (answer : α) : Except Failure α :=
  match refused with
  | some f => .error f
  | none => .ok answer

/-- The kind served for a declared one. -/
def resolve (c : ScriptedCluster) (g : GroupKind) : Except Failure (Option KindDescriptor) :=
  answerUnless (c.refusal? .resolve g.text g.text "")
    (c.kinds.find? fun k => k.kind = g.kind && k.gvr.group = g.apiGroup)

/-- Whether a scope of a kind can be listed. -/
def check (c : ScriptedCluster) (k : KindDescriptor) (scope : String) : Except Failure Unit :=
  answerUnless (c.refusal? .check k.gvr.text k.text scope) ()

/-- Whether an object is there. -/
def get (c : ScriptedCluster) (k : KindDescriptor) (ns name : String) : Except Failure Bool :=
  answerUnless (c.refusal? .get k.gvr.text k.text ns) (c.objects.contains ⟨k.gvr, ns, name⟩)

/-- Deletes an object. -/
def delete (c : ScriptedCluster) (k : KindDescriptor) (ns name : String) :
    Except Failure ScriptedCluster :=
  answerUnless (c.refusal? .delete k.gvr.text k.text ns)
    { c with objects := c.objects.filter (· ≠ ⟨k.gvr, ns, name⟩) }

/-- Notes that a stream was opened. -/
def opened (c : ScriptedCluster) (gvr : GroupVersionResource) (scope : String) :
    ScriptedCluster :=
  if c.streams.contains (gvr, scope) then c
  else { c with streams := c.streams ++ [(gvr, scope)] }

end ScriptedCluster

end AppWatch
