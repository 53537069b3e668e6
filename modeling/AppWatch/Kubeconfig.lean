/-
# Access to clusters

A kubeconfig names clusters, users and contexts; a context joins a cluster and a user with a
namespace.  Several files are laid over each other: of entries with one name the first counts, and
so does the first word on everything else.

Files that are named relative to the kubeconfig are found from the directory that it is in.
-/
import AppWatch.Kubeconfig.User

namespace AppWatch

/-- What is needed of a cluster. -/
structure ClusterAccess where
  /-- The address of the API server as it is written. -/
  address : Option String := none
  /-- The certificates of those who vouch for the server. -/
  authority : Material := {}
  /-- The address of the proxy as it is written. -/
  proxy : Option String := none
deriving DecidableEq, Repr

/-- What is needed of a context. -/
structure AccessContext where
  cluster : String
  user : Option String := none
  «namespace» : Option String := none
deriving DecidableEq, Repr

/-- A kubeconfig.  An entry may have a name and no content. -/
structure Kubeconfig where
  clusters : List (String × Option ClusterAccess) := []
  users : List (String × Option UserAccess) := []
  contexts : List (String × Option AccessContext) := []
  currentContext : Option String := none
  kind : Option String := none
  apiVersion : Option String := none
deriving DecidableEq

/-- The directory that a path leads into. -/
def parentPath (path : String) : String :=
  match (Text.segments '/' path.toList).dropLast with
  | [] => ""
  | [[]] => "/"
  | ds => String.intercalate "/" (ds.map String.ofList)

/-- The path that is named in a file in a directory. -/
def resolvePath (directory path : String) : String :=
  if path.startsWith "/" then path else joinPath directory path

namespace Kubeconfig

/-! ## 1. Named files -/

/-- The user of a kubeconfig in a directory. -/
def userIn (directory : String) (u : UserAccess) : UserAccess :=
  let found := Option.map (resolvePath directory)
  { u with
    tokenFile := found u.tokenFile
    certificate.file := found u.certificate.file
    key.file := found u.key.file }

/-- The cluster of a kubeconfig in a directory. -/
def clusterIn (directory : String) (c : ClusterAccess) : ClusterAccess :=
  { c with authority.file := c.authority.file.map (resolvePath directory) }

/-- The kubeconfig that stands in a directory. -/
def inDirectory (directory : String) (c : Kubeconfig) : Kubeconfig :=
  { c with
    clusters := c.clusters.map fun (name, x) => (name, x.map (clusterIn directory))
    users := c.users.map fun (name, x) => (name, x.map (userIn directory)) }

/-- The files that the clusters and the users are read from. -/
def files (c : Kubeconfig) : List String :=
  c.clusters.filterMap (fun x => x.2.bind (·.authority.file)) ++
    c.users.flatMap fun x => (x.2.map (·.files)).getD []

/-! ## 2. Laying files over each other -/

/-- Adds the entries whose names are new. -/
def addNew (entries more : List (String × α)) : List (String × α) :=
  entries ++ more.filter fun m => !(entries.map (·.1)).contains m.1

/-- Whether two words on one thing contradict each other. -/
def disagree (a b : Option String) : Bool := a.isSome && b.isSome && a != b

/-- Lays one kubeconfig over another, unless they are of different forms. -/
def over? (c under : Kubeconfig) : Option Kubeconfig :=
  if disagree c.kind under.kind || disagree c.apiVersion under.apiVersion then none
  else some {
    clusters := addNew c.clusters under.clusters
    users := addNew c.users under.users
    contexts := addNew c.contexts under.contexts
    currentContext := c.currentContext.or under.currentContext
    kind := c.kind.or under.kind
    apiVersion := c.apiVersion.or under.apiVersion }

/-! ## 3. Contexts -/

/-- What a context joins. -/
structure Access where
  cluster : ClusterAccess
  user : UserAccess
  «namespace» : Option String

/-- What the context with a name joins, or else the current one.  A user that is not there has
nothing to prove who it is. -/
def access? (c : Kubeconfig) (asked : Option String) : Option Access := do
  let name ← asked.or c.currentContext
  let context ← (← c.contexts.lookup name)
  let cluster ← (← c.clusters.lookup context.cluster)
  let user := (context.user.bind fun name => (c.users.lookup name).join).getD {}
  return ⟨cluster, user, context.«namespace»⟩

end Kubeconfig

end AppWatch
