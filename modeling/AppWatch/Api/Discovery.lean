/-
# Discovery

Which kind does the cluster serve for a declared group and kind name?  The server lists its
groups, each with its versions, and for each version the resources.  The core group, which has no
name, is listed apart.

Only one version of a group counts: the preferred one if the group names one, and otherwise the
first in the order of versions (`VersionRank`).  A kind that only another version has is not found.
-/
import AppWatch.Api.Exchange
import AppWatch.Text.Number

namespace AppWatch

open Json (Written)

/-! ## 1. The order of versions -/

/-- What the order of versions goes by: stable versions stand before beta ones, those before alpha
ones, and versions of no known form come last, by name.  Larger numbers stand first. -/
structure VersionRank where
  /-- Three for stable, two for beta, one for alpha versions, and zero for others. -/
  stability : Nat := 0
  major : Nat := 0
  /-- One more than the number behind the stability, or zero without it. -/
  minor : Nat := 0
  /-- The name of a version of no known form. -/
  name : String := ""
deriving DecidableEq, Repr

namespace VersionRank

/-- The number behind the stability, if there is one and it can be read. -/
def minor? (cs : List Char) : Option Nat :=
  if cs.isEmpty then some 0 else (Text.wholeNumber? UInt32.size (String.ofList cs)).map (· + 1)

/-- The rank of a version behind its major number. -/
def behind? (major : Nat) : List Char → Option VersionRank
  | [] => some { stability := 3, major := major }
  | 'b' :: 'e' :: 't' :: 'a' :: cs =>
    (minor? cs).map fun minor => { stability := 2, major := major, minor := minor }
  | 'a' :: 'l' :: 'p' :: 'h' :: 'a' :: cs =>
    (minor? cs).map fun minor => { stability := 1, major := major, minor := minor }
  | _ => none

/-- The rank of a version of a known form. -/
def known? : List Char → Option VersionRank
  | 'v' :: cs =>
    (Text.wholeNumber? UInt32.size (String.ofList (cs.takeWhile Char.isDigit))).bind fun major =>
      behind? major (cs.dropWhile Char.isDigit)
  | _ => none

/-- The rank of a version. -/
def ofVersion (version : String) : VersionRank :=
  (known? version.toList).getD { name := version }

/-- Whether a version of the first rank may stand before one of the second. -/
def standsBefore (a b : VersionRank) : Bool :=
  match compare [b.stability, b.major, b.minor] [a.stability, a.major, a.minor] with
  | .lt => true
  | .gt => false
  | .eq => a.name ≤ b.name

end VersionRank

/-! ## 2. What the server lists -/

/-- A version of a group, with the group in front of it as a path names it. -/
structure ListedVersion where
  groupVersion : String := ""
  version : String := ""

/-- A group with its versions. -/
structure ListedGroup where
  name : String := ""
  versions : List ListedVersion := []
  preferred : Option ListedVersion := none

/-- A resource of a version.  Resources that belong to others have a slash in their name. -/
structure ListedResource where
  name : String := ""
  kind : String := ""
  namespaced : Bool := false
  group : Option String := none
  version : Option String := none

/-- The resources of a version. -/
structure ListedResources where
  groupVersion : String := ""
  resources : List ListedResource := []

/-- Reads a text that is empty if it is absent. -/
def Json.Written.decodeTextOr : Written → Decoded String := Written.decodeOr "" Written.decodeText

/-- Reads a list of texts that is empty if it is absent. -/
def Json.Written.decodeTextsOr : Written → Decoded (List String) :=
  Written.decodeOr [] (Written.decodeItems Written.decodeText)

/-- Reads the addresses of the server for clients, for their types alone. -/
def decodeServerAddresses : Written → Decoded Unit :=
  checked (Written.decodeOr [] (Written.decodeItems
    (Written.decodeMembers "ServerAddressByClientCIDR" () fun _ name w =>
      match name with
      | "clientCIDR" | "serverAddress" => checked Written.decodeTextOr w
      | _ => w.passing ())))

namespace ListedVersion

/-- Reads one field. -/
def field (v : ListedVersion) (name : String) (w : Written) : Decoded ListedVersion :=
  match name with
  | "groupVersion" => do return { v with groupVersion := ← w.decodeTextOr }
  | "version" => do return { v with version := ← w.decodeTextOr }
  | _ => w.passing v

/-- Reads a version. -/
def ofWritten : Written → Decoded ListedVersion :=
  Written.decodeMembers "GroupVersionForDiscovery" {} field

end ListedVersion

/-- Passes over a member that names the type of a record, which has to be the given one. -/
def keeping (a : α) (check : Decoded Unit) : Decoded α := check.map fun _ => a

namespace ListedGroup

/-- Reads one field. -/
def field (g : ListedGroup) (name : String) (w : Written) : Decoded ListedGroup :=
  match name with
  | "apiVersion" => keeping g (w.decodeExactly "v1")
  | "kind" => keeping g (w.decodeExactly "APIGroup")
  | "name" => do return { g with name := ← w.decodeTextOr }
  | "versions" => do
    return { g with versions := ← w.decodeOr [] (Written.decodeItems ListedVersion.ofWritten) }
  | "preferredVersion" => do
    return { g with preferred := ← w.decodeOptional ListedVersion.ofWritten }
  | "serverAddressByClientCIDRs" => keeping g (decodeServerAddresses w)
  | _ => w.passing g

/-- Reads a group. -/
def ofWritten : Written → Decoded ListedGroup := Written.decodeMembers "APIGroup" {} field

/-- Reads one field of the list of groups. -/
def listField (groups : List ListedGroup) (name : String) (w : Written) :
    Decoded (List ListedGroup) :=
  match name with
  | "apiVersion" => keeping groups (w.decodeExactly "v1")
  | "kind" => keeping groups (w.decodeExactly "APIGroupList")
  | "groups" => w.decodeOr [] (Written.decodeItems ofWritten)
  | _ => w.passing groups

/-- Reads the list of groups. -/
def listOfWritten : Written → Decoded (List ListedGroup) :=
  Written.decodeMembers "APIGroupList" [] listField

end ListedGroup

/-- Reads one field of the versions of the core group. -/
def coreVersionsField (versions : List String) (name : String) (w : Written) :
    Decoded (List String) :=
  match name with
  | "apiVersion" => keeping versions (w.decodeExactly "v1")
  | "kind" => keeping versions (w.decodeExactly "APIVersions")
  | "versions" => w.decodeTextsOr
  | "serverAddressByClientCIDRs" => keeping versions (decodeServerAddresses w)
  | _ => w.passing versions

/-- Reads the versions of the core group. -/
def coreVersionsOfWritten : Written → Decoded (List String) :=
  Written.decodeMembers "APIVersions" [] coreVersionsField

namespace ListedResource

/-- Reads one field. -/
def field (r : ListedResource) (name : String) (w : Written) : Decoded ListedResource :=
  match name with
  | "name" => do return { r with name := ← w.decodeTextOr }
  | "kind" => do return { r with kind := ← w.decodeTextOr }
  | "namespaced" => do return { r with namespaced := ← w.decodeOr false Written.decodeBool }
  | "group" => do return { r with group := ← w.decodeOptional Written.decodeText }
  | "version" => do return { r with version := ← w.decodeOptional Written.decodeText }
  | "singularName" | "storageVersionHash" => keeping r (checked Written.decodeTextOr w)
  | "categories" | "shortNames" | "verbs" => keeping r (checked Written.decodeTextsOr w)
  | _ => w.passing r

/-- Reads a resource. -/
def ofWritten : Written → Decoded ListedResource := Written.decodeMembers "APIResource" {} field

end ListedResource

namespace ListedResources

/-- Reads one field. -/
def field (l : ListedResources) (name : String) (w : Written) : Decoded ListedResources :=
  match name with
  | "apiVersion" => keeping l (w.decodeExactly "v1")
  | "kind" => keeping l (w.decodeExactly "APIResourceList")
  | "groupVersion" => do return { l with groupVersion := ← w.decodeTextOr }
  | "resources" => do
    return { l with resources := ← w.decodeOr [] (Written.decodeItems ListedResource.ofWritten) }
  | _ => w.passing l

/-- Reads the resources of a version. -/
def ofWritten : Written → Decoded ListedResources :=
  Written.decodeMembers "APIResourceList" {} field

/-- The group and the version that the resources are listed for. -/
def parts (l : ListedResources) : String × String :=
  let cs := l.groupVersion.toList
  match cs.dropWhile (· ≠ '/') with
  | [] => ("", l.groupVersion)
  | _ :: version => (String.ofList (cs.takeWhile (· ≠ '/')), String.ofList version)

/-- The resource of the given kind, as it can be watched.  Whether it has namespaces is told by the
first resource of its name. -/
def descriptor? (l : ListedResources) (kind : String) : Option KindDescriptor :=
  let own := l.resources.filter fun r => !r.name.toList.contains '/'
  (own.find? (·.kind = kind)).map fun r =>
    let (group, version) := l.parts
    { gvr := ⟨r.group.getD group, r.version.getD version, r.name⟩
      kind := r.kind
      namespaced := ((own.find? (·.name = r.name)).map (·.namespaced)).getD r.namespaced }

end ListedResources

/-! ## 3. Asking -/

/-- A group with the resources of its versions. -/
structure DiscoveredGroup where
  versions : List (String × ListedResources)
  preferred : Option String

namespace DiscoveredGroup

/-- The version that counts. -/
def version? (g : DiscoveredGroup) : Option String :=
  match g.preferred with
  | some version => some version
  | none =>
    ((g.versions.map (·.1)).mergeSort fun a b =>
      (VersionRank.ofVersion a).standsBefore (VersionRank.ofVersion b)).head?

/-- The kind with the given name in the version that counts. -/
def kind? (g : DiscoveredGroup) (name : String) : Option KindDescriptor := do
  let version ← g.version?
  let (_, resources) ← g.versions.find? (·.1 = version)
  resources.descriptor? name

end DiscoveredGroup

namespace Exchange

/-- Asks for the resources of the versions of a group, each by the path to it. -/
def resourcesOf (group : String) (paths : List (String × String)) :
    Exchange (List (String × ListedResources)) :=
  if paths.isEmpty then fail (.emptyGroup group)
  else paths.mapM fun (version, path) => do
    return (version, ← request { path := path } ListedResources.ofWritten .invalidVersion)

/-- Asks for the resources of a listed group. -/
def listedGroup (g : ListedGroup) : Exchange DiscoveredGroup := do
  let versions ← resourcesOf g.name
    (g.versions.map fun v => (v.version, "/apis/" ++ v.groupVersion))
  return ⟨versions, g.preferred.map (·.version)⟩

/-- Asks for the resources of the core group. -/
def coreGroup : Exchange DiscoveredGroup := do
  let versions ← request { path := "/api" } coreVersionsOfWritten
  return ⟨← resourcesOf "" (versions.map fun v => (v, "/api/" ++ v)), some "v1"⟩

/-- Asks for a group by its name; of groups with one name the last counts. -/
def group (name : String) : Exchange (Option DiscoveredGroup) := do
  let groups ← request { path := "/apis" } ListedGroup.listOfWritten
  let found ← (groups.filter (·.name = name)).mapM listedGroup
  if name = "" then return some (← coreGroup) else return found.getLast?

/-- Asks which kind is served for a declared one. -/
def discover (component : GroupKind) : Exchange (Option KindDescriptor) := do
  match (← group component.apiGroup).bind (·.kind? component.kind) with
  | none =>
    notify (.notDiscovered component)
    return none
  | some kind =>
    notify (.discovered component kind)
    return some kind

end Exchange

end AppWatch
