/-
# Launching the program

What has to be settled before the program can watch anything: the options, the configuration and
the connection, in this order.  The first that fails ends the launch.
-/
import AppWatch.Connection
import AppWatch.Options

namespace AppWatch

/-- Why a launch fails. -/
inductive LaunchProblem where
  | usage (problem : UsageProblem)
  /-- The configuration could not be loaded. -/
  | loading (cause : ConfigError)
  /-- The options have made the configuration unusable. -/
  | settings (cause : ConfigError)
  | connection (cause : ConnectionError)
deriving DecidableEq

/-- What the program starts with. -/
structure Launch where
  config : Config
  connection : Connection

namespace Launch

/-- The files that a launch may read. -/
def paths (e : Environment) (args : List String) : List String :=
  match Options.read args with
  | .error _ => []
  | .ok o => o.config.getD e.configFile :: e.kubeconfigPaths

/-- The further files that a launch may read: those that the kubeconfigs name. -/
def morePaths (files : String → FileState) (e : Environment) : List String :=
  e.kubeconfigPaths.flatMap fun path => ((Kubeconfig.ofFile? files path).map (·.files)).getD []

/-- Settles what the program starts with, at a second counted from the start of 1970. -/
def prepare (files : String → FileState) (now : Int) (e : Environment) (args : List String) :
    Except LaunchProblem Launch := do
  let options ← (Options.read args).mapError .usage
  let loaded ← (Config.load files e options.config).mapError .loading
  let config := options.applyTo loaded
  config.validate.mapError .settings
  let connection ← (Connection.find files now e options.context).mapError .connection
  return { config, connection }

/-- What is reported about the scope of the watches. -/
def scopeText (c : Config) : String :=
  if c.namespaces.isEmpty then "watching all namespaces"
  else "watching namespaces: " ++ String.intercalate ", " c.namespaces

/-- What is reported at the launch, line by line. -/
def lines (l : Launch) : List String :=
  [Level.info.text ++ " " ++ scopeText l.config, l.connection.notice.text]

end Launch

namespace LaunchProblem

/-- The problem in words. -/
def message : LaunchProblem → String
  | usage problem => "Usage: " ++ problem.name
  | loading cause => "Failed to load configuration: " ++ cause.message
  | settings cause => cause.message
  | connection cause => cause.message

/-- The exit status for the problem; to ask for help or for the version is none. -/
def exitStatus : LaunchProblem → Nat
  | usage .displayHelp | usage .displayVersion => 0
  | usage _ => 2
  | loading _ | settings _ | connection _ => 1

end LaunchProblem

end AppWatch
