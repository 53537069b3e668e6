/-
# Connections

Where the program connects, as whom, and in which namespace it looks.  What the files say has to be
readable first, and then it has to be of use.
-/
import AppWatch.Api.Address
import AppWatch.Kubeconfig.Reader
import AppWatch.Notice

namespace AppWatch

/-- Where a client connects and where it looks if no namespace is named. -/
structure Connection where
  address : ServerAddress
  «namespace» : String
  /-- The certificates of those who vouch for the server, as they are encoded. -/
  authorities : List (List UInt8) := []
  proxy : Option ServerAddress := none
  user : UserAccess := {}
deriving DecidableEq

/-- Why there is no connection. -/
inductive ConnectionError where
  /-- The context that was asked for cannot be used. -/
  | unusableContext (name : String)
  /-- No context was asked for and none can be used. -/
  | nothingUsable
  /-- A context was found, but no client can be made for it. -/
  | noClient
deriving DecidableEq, Repr

namespace Kubeconfig

/-- The namespace of a context that names none. -/
def defaultNamespace : String := "default"

/-- The certificates of those who vouch for a server; none if none are given. -/
def authorities? (files : String → FileState) (m : Material) : Option (List (List UInt8)) :=
  if m.inPlace.isNone && m.file.isNone then some []
  else (m.load? files).bind Certificate.ofFile?

/-- The address of a proxy; an empty one is none. -/
def proxy? (written : Option String) : Option (Option ServerAddress) :=
  match written.filter (· ≠ "") with
  | none => some none
  | some s => (ServerAddress.read? s).map some

/-- The connection of a context, or else of the current one. -/
def connection? (files : String → FileState) (c : Kubeconfig) (asked : Option String) :
    Option Connection := do
  let access ← c.access? asked
  return {
    address := ← ServerAddress.read? (← access.cluster.address)
    «namespace» := access.«namespace».getD defaultNamespace
    authorities := ← authorities? files access.cluster.authority
    proxy := ← proxy? access.cluster.proxy
    user := access.user }

end Kubeconfig

namespace Connection

/-- The ways to talk to a proxy. -/
def proxySchemes : List String := ["http", "socks5"]

/-- Whether a client can be made for a connection at the given second. -/
def isUsable (files : String → FileState) (now : Int) (c : Connection) : Bool :=
  c.proxy.all (fun p => p.scheme.any proxySchemes.contains) &&
    c.authorities.all Certificate.isCertificate && c.user.isUsable files now

/-- Finds where to connect from the files and the environment, at the given second. -/
def find (files : String → FileState) (now : Int) (e : Environment) (context : Option String) :
    Except ConnectionError Connection :=
  let found := match e.kubeconfigPaths with
    | [] => none
    | paths => (Kubeconfig.ofFiles? files paths).bind (·.connection? files context)
  match found, context with
  | some c, _ => if c.isUsable files now then .ok c else .error .noClient
  | none, some name => .error (.unusableContext name)
  | none, none => .error .nothingUsable

/-- What is reported on connecting. -/
def notice (c : Connection) : Notice := .connecting c.address.text

end Connection

/-- The error in words. -/
def ConnectionError.message : ConnectionError → String
  | unusableContext name => "Failed to load kubeconfig context '" ++ name ++ "'"
  | nothingUsable => "Failed to infer Kubernetes configuration"
  | noClient => "Failed to create Kubernetes client"

end AppWatch
