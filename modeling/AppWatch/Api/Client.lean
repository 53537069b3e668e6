/-
# Requests of the engine

What the engine asks of a cluster, as exchanges with the API server.
-/
import AppWatch.Api.Discovery
import AppWatch.KindCache

namespace AppWatch

namespace Exchange

/-- Looks up which kind is served for a declared one, and remembers what discovery says. -/
def resolveKind (memory : KindCache) (component : GroupKind) :
    Exchange (Option KindDescriptor × KindCache) :=
  match memory.answer? component with
  | some answer => pure (answer, memory)
  | none => do
    let answer ← discover component
    return (answer, memory.remember component (.ok answer))

/-- Fails unless the objects of a kind can be listed in a scope. -/
def checkAccess (k : KindDescriptor) (scope : String) : Exchange Unit := do
  let _ ← request (.list k scope 1) ObjectPage.ofWritten

/-- Asks for an object; `none` if the server says that it is not found. -/
def getObject (k : KindDescriptor) (scope name : String) : Exchange (Option ClusterObject) :=
  if name = "" then fail .emptyName
  else send (.get k scope name) fun answer =>
    match answer.read ClusterObject.ofWritten with
    | .ok object => done (.ok (some object))
    | .error (.refused status) =>
      if status.reason = "NotFound" then done (.ok none) else fail (.refused status)
    | .error failure => fail failure

/-- Deletes an object. -/
def deleteObject (k : KindDescriptor) (scope name : String) : Exchange Unit :=
  if name = "" then fail .emptyName
  else do
    request (.delete k scope name) Acknowledgement.ofWritten
    notify (.deleted k scope name)

end Exchange

end AppWatch
