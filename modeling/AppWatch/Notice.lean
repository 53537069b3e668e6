/-
# Notices

What the engine reports while it runs, by cause; `Notice.text` puts a notice into one line.
-/
import AppWatch.Processor
import AppWatch.Watch.Event

namespace AppWatch

/-- How important a notice is. -/
inductive Level where
  | debug
  | info
  | warn
  | error
deriving DecidableEq, Repr

/-- Something worth reporting. -/
inductive Notice where
  /-- The handler of a kind has failed for a change. -/
  | handlerFailed (kind : KindDescriptor) (key : String) (change : EventKind) (cause : Failure)
  /-- An event carries an object without a name. -/
  | namelessObject (kind : KindDescriptor)
  /-- A cached object of the application kind is no application. -/
  | skippedApplication (cause : Failure)
  /-- An application declares a kind that the cluster does not serve. -/
  | unknownKind (application : ResourceKey) (component : GroupKind)
  /-- A watch stream has failed so many times in a row. -/
  | streamFailed (kind : KindDescriptor) (scope : String) (count : Nat) (cause : Failure)
  /-- Discovery has not found a declared kind. -/
  | notDiscovered (component : GroupKind)
  | discovered (component : GroupKind) (kind : KindDescriptor)
  | deleted (kind : KindDescriptor) («namespace» name : String)
  | connecting (url : String)
  /-- The status of an application would be recomputed. -/
  | recompute (key : ResourceKey) (kind : String)
  | changed (key : ResourceKey) (kind : String)
deriving DecidableEq

namespace Level

/-- The level in capital letters. -/
def text : Level → String
  | debug => "DEBUG"
  | info => "INFO"
  | warn => "WARN"
  | error => "ERROR"

end Level

namespace Notice

/-- How important the notice is. -/
def level : Notice → Level
  | handlerFailed _ _ _ _ | namelessObject _ | skippedApplication _ | unknownKind _ _ => .warn
  | streamFailed _ _ _ _ => .error
  | notDiscovered _ | discovered _ _ | changed _ _ => .debug
  | deleted _ _ _ | connecting _ | recompute _ _ => .info

/-- What the notice says. -/
def message : Notice → String
  | handlerFailed kind key change cause =>
    kind.text ++ " handler failed for " ++ key ++ " (" ++ change.text ++ "): " ++ cause.message
  | namelessObject kind => "dropping " ++ kind.text ++ " event for object without a name"
  | skippedApplication cause => "skipping application: " ++ cause.message
  | unknownKind application component =>
    "application " ++ application.text ++ " declares unknown component kind " ++ component.text
  | streamFailed kind scope count cause =>
    kind.text ++ " watcher error in '" ++ scope ++ "' (" ++ toString count ++ "): " ++
      cause.message
  | notDiscovered component => "discovery found no resource for " ++ component.text
  | discovered component kind => "resolved " ++ component.text ++ " to " ++ kind.text
  | deleted kind ns name => "deleted " ++ kind.text ++ " " ++ ns ++ "/" ++ name
  | connecting url => "connecting to " ++ url
  | recompute key kind => "recompute status of " ++ key.text ++ " (" ++ kind ++ ")"
  | changed key kind => "component " ++ key.text ++ " (" ++ kind ++ ") changed"

/-- Level and message in one line. -/
def text (n : Notice) : String := n.level.text ++ " " ++ n.message

/-- What the program reports in place of a status computation. -/
def ofCall : StatusCall → Notice
  | .calculateStatus key application => recompute key application.kind
  | .componentChanged key resource => changed key resource.kind

end Notice

end AppWatch
