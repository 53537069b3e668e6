/-
# Configuration

The settings of the program, as one value with a default for each.  `Config.validate` refuses the
settings that the engine cannot run with.
-/
import AppWatch.Application

namespace AppWatch

open Json (Written)

/-- The settings of the program. -/
structure Config where
  /-- The kind whose objects are applications. -/
  applicationKind : KindDescriptor :=
    ⟨⟨"app.k8s.io", "v1beta1", "applications"⟩, "Application", true⟩
  /-- The namespaces that may be watched; all of them, if none is given. -/
  namespaces : List String := []
  /-- How long a window of the batch processor lasts, in milliseconds. -/
  batchDurationMs : UInt64 := 1000
  /-- How many batches the queue has room for. -/
  queueCapacity : UInt64 := 256
  /-- The annotation in which applications name further namespaces. -/
  namespacesKey : String := Application.defaultNamespacesKey
deriving DecidableEq

/-- Why there is no configuration to run with. -/
inductive ConfigError where
  | notFound (path : String)
  | unreadable (path : String)
  | malformed (path : String)
  | zeroCapacity
  | incompleteKind
  | badDuration
  | badCapacity
deriving DecidableEq, Repr

namespace ConfigError

/-- The error in words. -/
def message : ConfigError → String
  | notFound path => "Config file not found: " ++ path
  | unreadable path => "Failed to read config file: " ++ path
  | malformed path => "Failed to parse config file: " ++ path
  | zeroCapacity => "queueCapacity must be at least 1"
  | incompleteKind => "applicationKind needs kind, version and resource"
  | badDuration => "APPNAV_BATCH_DURATION_MS must be a number"
  | badCapacity => "APPNAV_QUEUE_CAPACITY must be a number"

end ConfigError

namespace Config

/-- Whether the application kind names its kind, version and resource. -/
def hasCompleteKind (c : Config) : Bool :=
  c.applicationKind.kind != "" && c.applicationKind.gvr.resource != "" &&
    c.applicationKind.gvr.version != ""

/-- Refuses settings that the engine cannot run with. -/
def validate (c : Config) : Except ConfigError Unit :=
  if c.queueCapacity = 0 then .error .zeroCapacity
  else if !c.hasCompleteKind then .error .incompleteKind
  else .ok ()

/-- The length of a window in whole seconds and the nanoseconds beyond them. -/
def batchDuration (c : Config) : Nat × Nat :=
  let ms := c.batchDurationMs.toNat
  (ms / 1000, ms % 1000 * 1000000)

/-! ## As JSON -/

/-- The settings as members, names ascending; an empty list of namespaces is left out. -/
def toJson (c : Config) : Json :=
  .obj ([("applicationKind", c.applicationKind.toJson),
      ("batchDurationMs", Json.ofNat c.batchDurationMs.toNat),
      ("componentNamespacesAnnotation", .str c.namespacesKey)] ++
    (if c.namespaces.isEmpty then [] else [("namespaces", Json.texts c.namespaces)]) ++
    [("queueCapacity", Json.ofNat c.queueCapacity.toNat)])

/-- Reads one setting. -/
def field (c : Config) (name : String) (w : Written) : Decoded Config :=
  match name with
  | "applicationKind" => do return { c with applicationKind := ← KindDescriptor.ofWritten w }
  | "namespaces" => do return { c with namespaces := ← w.decodeItems Written.decodeText }
  | "batchDurationMs" => do return { c with batchDurationMs := ← w.decodeWord "u64" }
  | "queueCapacity" => do return { c with queueCapacity := ← w.decodeWord "usize" }
  | "componentNamespacesAnnotation" => do return { c with namespacesKey := ← w.decodeText }
  | _ => w.passing c

/-- The record of all settings, none of them required. -/
def layout : Layout Config where
  name := "ControllerConfig"
  fields := [("applicationKind", false), ("namespaces", false), ("batchDurationMs", false),
    ("queueCapacity", false), ("componentNamespacesAnnotation", false)]
  field := field

/-- Reads the settings; absent ones have their defaults. -/
def ofJson (j : Json) : Decoded Config := layout.decode {} j.written

end Config

end AppWatch
