/-
# The command line

Reads the environment and the files that a launch needs, and reports where the program connects
and what it watches.  All decisions are those of `Launch.prepare`.
-/
import AppWatch.Launch
import Std.Time.DateTime.Timestamp

namespace AppWatch

namespace Main

/-- The variables that count. -/
def variableNames : List String :=
  ["APPNAV_NAMESPACES", "APPNAV_BATCH_DURATION_MS", "APPNAV_QUEUE_CAPACITY", "APPNAV_CONFIG_DIR",
    "XDG_CONFIG_HOME", "HOME", "KUBECONFIG"]

/-- Reads the environment. -/
def environment : IO Environment := do
  let given ← variableNames.filterMapM fun name => do
    return (← IO.getEnv name).map fun value => (name, value)
  return SortedMap.ofList given

/-- Looks at a path. -/
def look (path : String) : IO FileState := do
  match ← (IO.FS.readFile path).toBaseIO with
  | .ok text => return .holds text
  | .error (.noFileOrDirectory _ _ _) => return .absent
  | .error _ => return .unreadable

/-- What was seen at a path; what was not looked at is absent. -/
def stateIn (seen : List (String × FileState)) (path : String) : FileState :=
  (seen.lookup path).getD .absent

/-- Runs the program. -/
def run (args : List String) : IO UInt32 := do
  let e ← environment
  let now := (← Std.Time.Timestamp.now).toSecondsSinceUnixEpoch.val
  let seen ← (Launch.paths e args).mapM fun path => do return (path, ← look path)
  let more ← (Launch.morePaths (stateIn seen) e).mapM fun path => do return (path, ← look path)
  match Launch.prepare (stateIn (seen ++ more)) now e args with
  | .ok launch =>
    launch.lines.forM IO.eprintln
    return 0
  | .error problem =>
    IO.eprintln problem.message
    return problem.exitStatus.toUInt32

end Main

end AppWatch

/-- Runs the program on its arguments. -/
def main (args : List String) : IO UInt32 := AppWatch.Main.run args
