/-
# Loading the configuration

The configuration is layered: the defaults, then a file, then variables of the environment.  A
file that is named has to be there; the file in the configuration directory is read only if it is.
What the layers give together is checked last.
-/
import AppWatch.Config.Reader
import AppWatch.Text.NameList

namespace AppWatch

/-- The variables of the environment. -/
abbrev Environment := SortedMap String String

/-- What stands at a path. -/
inductive FileState where
  | absent
  /-- Something is there, but no text can be read from it. -/
  | unreadable
  | holds (text : String)
deriving DecidableEq

/-! ## 1. Where the configuration is -/

/-- A path below another one. -/
def joinPath (base path : String) : String :=
  if base = "" || base.endsWith "/" then base ++ path else base ++ "/" ++ path

namespace Environment

/-- The value of a variable that is set and not empty. -/
def given? (e : Environment) (name : String) : Option String := (e.get? name).filter (· ≠ "")

/-- The directory for the configuration files of all programs: what `XDG_CONFIG_HOME` names, if
that is no relative path, or the one in the home directory. -/
def configHome? (e : Environment) : Option String :=
  match (e.get? "XDG_CONFIG_HOME").filter (·.startsWith "/") with
  | some dir => some dir
  | none => (e.given? "HOME").map fun home => joinPath home ".config"

/-- The directory of the configuration file. -/
def configDirectory (e : Environment) : String :=
  match e.given? "APPNAV_CONFIG_DIR", e.configHome? with
  | some dir, _ => dir
  | none, some home => joinPath home "appnav-controller"
  | none, none => "appnav-controller"

/-- The configuration file that is read if none is named. -/
def configFile (e : Environment) : String := joinPath e.configDirectory "config.yaml"

end Environment

/-! ## 2. The layers -/

namespace Config

/-- Reads a configuration file. -/
def ofFile (files : String → FileState) (path : String) : Except ConfigError Config :=
  match files path with
  | .absent => .error (.notFound path)
  | .unreadable => .error (.unreadable path)
  | .holds text =>
    match read? text with
    | none => .error (.malformed path)
    | some c => .ok c

/-- Reads the file that is named, or else the one in the configuration directory if it is there. -/
def fromFiles (files : String → FileState) (e : Environment) :
    Option String → Except ConfigError Config
  | some path => ofFile files path
  | none =>
    match files e.configFile with
    | .absent => .ok {}
    | _ => ofFile files e.configFile

/-- The number that a variable sets, or the one that holds without it. -/
def numberOr (value : Option String) (current : UInt64) (problem : ConfigError) :
    Except ConfigError UInt64 :=
  match value with
  | none => .ok current
  | some s =>
    match Text.word? s with
    | none => .error problem
    | some n => .ok n

/-- Puts what the environment sets in place of what was read. -/
def override (e : Environment) (c : Config) : Except ConfigError Config := do
  let namespaces := match e.get? "APPNAV_NAMESPACES" with
    | none => c.namespaces
    | some s => Text.nameList s
  let duration ← numberOr (e.get? "APPNAV_BATCH_DURATION_MS") c.batchDurationMs .badDuration
  let capacity ← numberOr (e.get? "APPNAV_QUEUE_CAPACITY") c.queueCapacity .badCapacity
  return { c with
    namespaces := namespaces, batchDurationMs := duration, queueCapacity := capacity }

/-- Loads the configuration from the file at `path?`, or from the default one. -/
def load (files : String → FileState) (e : Environment) (path? : Option String) :
    Except ConfigError Config := do
  let c ← (← fromFiles files e path?).override e
  c.validate
  return c

end Config

end AppWatch
