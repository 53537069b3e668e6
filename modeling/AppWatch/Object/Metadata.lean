/-
# Object metadata

The metadata that every cluster object carries.  Only the members named here are kept; a member
given as `null` counts as absent, and absent members are not written.  Of a member that is given
twice the last counts, though each has to be readable.
-/
import AppWatch.Timestamp

namespace AppWatch

open Json (Written)

/-- A label or annotation set. -/
abbrev TextMap := SortedMap String String

/-- An object that another object belongs to. -/
structure OwnerReference where
  apiVersion : String := ""
  kind : String := ""
  name : String := ""
  uid : String := ""
  blockOwnerDeletion : Option Bool := none
  controller : Option Bool := none
deriving DecidableEq

/-- Which fields of an object a manager has set. -/
structure ManagedFields where
  apiVersion : Option String := none
  fieldsType : Option String := none
  fieldsV1 : Option Json := none
  manager : Option String := none
  operation : Option String := none
  subresource : Option String := none
  time : Option Timestamp := none
deriving DecidableEq

/-- The metadata of a cluster object. -/
structure Metadata where
  annotations : Option TextMap := none
  creationTimestamp : Option Timestamp := none
  deletionGracePeriodSeconds : Option Int := none
  deletionTimestamp : Option Timestamp := none
  finalizers : Option (List String) := none
  generateName : Option String := none
  generation : Option Int := none
  labels : Option TextMap := none
  managedFields : Option (List ManagedFields) := none
  name : Option String := none
  «namespace» : Option String := none
  ownerReferences : Option (List OwnerReference) := none
  resourceVersion : Option String := none
  selfLink : Option String := none
  uid : Option String := none
deriving DecidableEq

/-- A member that is written only when it has a value. -/
def givenMember (name : String) (toJson : α → Json) : Option α → List (String × Json)
  | none => []
  | some a => [(name, toJson a)]

/-- A point in time as JSON. -/
def Timestamp.toJson (t : Timestamp) : Json := .str t.text

namespace OwnerReference

/-- Reads one field; absent texts are empty. -/
def field (o : OwnerReference) (name : String) (w : Written) : Decoded OwnerReference :=
  match name with
  | "apiVersion" => do
    return { o with apiVersion := (← w.decodeOptional Written.decodeText).getD "" }
  | "blockOwnerDeletion" => do
    return { o with blockOwnerDeletion := ← w.decodeOptional Written.decodeBool }
  | "controller" => do return { o with controller := ← w.decodeOptional Written.decodeBool }
  | "kind" => do return { o with kind := (← w.decodeOptional Written.decodeText).getD "" }
  | "name" => do return { o with name := (← w.decodeOptional Written.decodeText).getD "" }
  | "uid" => do return { o with uid := (← w.decodeOptional Written.decodeText).getD "" }
  | _ => w.passing o

/-- Reads an owner. -/
def ofWritten : Written → Decoded OwnerReference := Written.decodeMembers "OwnerReference" {} field

/-- The fields as members, names ascending. -/
def toJson (o : OwnerReference) : Json :=
  .obj ([("apiVersion", .str o.apiVersion)] ++
    givenMember "blockOwnerDeletion" .bool o.blockOwnerDeletion ++
    givenMember "controller" .bool o.controller ++
    [("kind", .str o.kind), ("name", .str o.name), ("uid", .str o.uid)])

end OwnerReference

namespace ManagedFields

/-- Reads one field. -/
def field (m : ManagedFields) (name : String) (w : Written) : Decoded ManagedFields :=
  match name with
  | "apiVersion" => do return { m with apiVersion := ← w.decodeOptional Written.decodeText }
  | "fieldsType" => do return { m with fieldsType := ← w.decodeOptional Written.decodeText }
  | "fieldsV1" => do return { m with fieldsV1 := ← w.decodeOptional Written.decodeJson }
  | "manager" => do return { m with manager := ← w.decodeOptional Written.decodeText }
  | "operation" => do return { m with operation := ← w.decodeOptional Written.decodeText }
  | "subresource" => do return { m with subresource := ← w.decodeOptional Written.decodeText }
  | "time" => do return { m with time := ← w.decodeOptional Timestamp.ofWritten }
  | _ => w.passing m

/-- Reads an entry. -/
def ofWritten : Written → Decoded ManagedFields :=
  Written.decodeMembers "ManagedFieldsEntry" {} field

/-- The fields that are given as members, names ascending. -/
def toJson (m : ManagedFields) : Json :=
  .obj (givenMember "apiVersion" .str m.apiVersion ++
    givenMember "fieldsType" .str m.fieldsType ++
    givenMember "fieldsV1" id m.fieldsV1 ++
    givenMember "manager" .str m.manager ++
    givenMember "operation" .str m.operation ++
    givenMember "subresource" .str m.subresource ++
    givenMember "time" Timestamp.toJson m.time)

end ManagedFields

namespace Metadata

/-- Reads one field. -/
def field (m : Metadata) (name : String) (w : Written) : Decoded Metadata :=
  match name with
  | "annotations" => do return { m with annotations := ← w.decodeOptional Written.decodeTextMap }
  | "creationTimestamp" => do
    return { m with creationTimestamp := ← w.decodeOptional Timestamp.ofWritten }
  | "deletionGracePeriodSeconds" => do
    return { m with deletionGracePeriodSeconds := ← w.decodeOptional Written.decodeInt64 }
  | "deletionTimestamp" => do
    return { m with deletionTimestamp := ← w.decodeOptional Timestamp.ofWritten }
  | "finalizers" => do
    return { m with finalizers := ← w.decodeOptional (Written.decodeItems Written.decodeText) }
  | "generateName" => do return { m with generateName := ← w.decodeOptional Written.decodeText }
  | "generation" => do return { m with generation := ← w.decodeOptional Written.decodeInt64 }
  | "labels" => do return { m with labels := ← w.decodeOptional Written.decodeTextMap }
  | "managedFields" => do
    return { m with
      managedFields := ← w.decodeOptional (Written.decodeItems ManagedFields.ofWritten) }
  | "name" => do return { m with name := ← w.decodeOptional Written.decodeText }
  | "namespace" => do return { m with «namespace» := ← w.decodeOptional Written.decodeText }
  | "ownerReferences" => do
    return { m with
      ownerReferences := ← w.decodeOptional (Written.decodeItems OwnerReference.ofWritten) }
  | "resourceVersion" => do
    return { m with resourceVersion := ← w.decodeOptional Written.decodeText }
  | "selfLink" => do return { m with selfLink := ← w.decodeOptional Written.decodeText }
  | "uid" => do return { m with uid := ← w.decodeOptional Written.decodeText }
  | _ => w.passing m

/-- Reads the metadata of an object. -/
def ofWritten : Written → Decoded Metadata := Written.decodeMembers "ObjectMeta" {} field

/-- The fields that are given as members, names ascending. -/
def toJson (m : Metadata) : Json :=
  .obj (givenMember "annotations" Json.textMap m.annotations ++
    givenMember "creationTimestamp" Timestamp.toJson m.creationTimestamp ++
    givenMember "deletionGracePeriodSeconds" Json.ofInt m.deletionGracePeriodSeconds ++
    givenMember "deletionTimestamp" Timestamp.toJson m.deletionTimestamp ++
    givenMember "finalizers" Json.texts m.finalizers ++
    givenMember "generateName" .str m.generateName ++
    givenMember "generation" Json.ofInt m.generation ++
    givenMember "labels" Json.textMap m.labels ++
    givenMember "managedFields" (fun l => .arr (l.map ManagedFields.toJson)) m.managedFields ++
    givenMember "name" .str m.name ++
    givenMember "namespace" .str m.«namespace» ++
    givenMember "ownerReferences" (fun l => .arr (l.map OwnerReference.toJson))
      m.ownerReferences ++
    givenMember "resourceVersion" .str m.resourceVersion ++
    givenMember "selfLink" .str m.selfLink ++
    givenMember "uid" .str m.uid)

end Metadata

end AppWatch
