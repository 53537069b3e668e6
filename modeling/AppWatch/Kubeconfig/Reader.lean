/-
# Kubeconfig files

The form of a kubeconfig: which fields its records have, and of which kind these are.  A file may
hold several documents, which are laid over each other; a document that denotes nothing says
nothing.  No mapping in a document may repeat a key.
-/
import AppWatch.Kubeconfig
import AppWatch.Yaml.Reader
import AppWatch.Yaml.Record

namespace AppWatch

namespace Kubeconfig

open Yaml (Value RecordField)

/-! ## 1. Records -/

/-- Fields that a record in the form of a sequence has to have. -/
def fieldsNamed (names : List String) : List RecordField := names.map fun name => { name }

/-- Reads an extension for its form alone. -/
def extension? (v : Value) : Option Unit := do
  let f ← v.record? (fieldsNamed ["name", "extension"])
  let _ ← f.required? "name" Value.text?
  let _ ← (f.lookup "extension").filter Value.isPlain

/-- Reads the extensions of a record for their form alone. -/
def extensions? (f : Yaml.Fields) : Option Unit := do
  let _ ← f.optional? "extensions" (Value.list? extension?)

/-- Reads an entry with its name; its content stands in the field with the given name. -/
def named? (field : String) (content : Value → Option α) (v : Value) :
    Option (String × Option α) := do
  let f ← v.record? (fieldsNamed ["name", field])
  return (← f.required? "name" Value.text?, ← f.optional? field content)

/-- Reads a cluster. -/
def cluster? (v : Value) : Option ClusterAccess := do
  let f ← v.record? (fieldsNamed ["server", "insecure-skip-tls-verify", "certificate-authority",
    "certificate-authority-data", "proxy-url", "disable-compression", "tls-server-name",
    "extensions"])
  let _ ← f.optional? "insecure-skip-tls-verify" Value.bool?
  let _ ← f.optional? "disable-compression" Value.bool?
  let _ ← f.optional? "tls-server-name" Value.text?
  extensions? f
  return {
    address := ← f.optional? "server" Value.text?
    authority := {
      inPlace := ← f.optional? "certificate-authority-data" Value.text?
      file := ← f.optional? "certificate-authority" Value.text? }
    proxy := ← f.optional? "proxy-url" Value.text? }

/-- Reads a provider of tokens. -/
def provider? (v : Value) : Option TokenProvider := do
  let f ← v.record? [{ name := "name" }, { name := "config", mayEnd := true }]
  return {
    name := ← f.required? "name" Value.text?
    settings := .ofList (← f.withDefault? "config" [] Value.texts?) }

/-- Reads whether a plugin may ask questions, for its form alone. -/
def interaction? (v : Value) : Option Unit :=
  let isKnown (s : String) := s = "Never" || s = "IfAvailable" || s = "Always"
  match v with
  | .text s | .tagged s .null => if isKnown s then some () else none
  | _ => none

/-- Reads a plugin for its form alone. -/
def plugin? (v : Value) : Option Unit := do
  let f ← v.record? (fieldsNamed ["apiVersion", "command", "args", "env", "interactiveMode"] ++
    [{ name := "provideClusterInfo", mayEnd := true }])
  let _ ← f.optional? "apiVersion" Value.text?
  let _ ← f.optional? "command" Value.text?
  let _ ← f.optional? "args" (Value.list? Value.text?)
  let _ ← f.optional? "env" (Value.list? Value.texts?)
  let _ ← f.optional? "interactiveMode" interaction?
  let _ ← f.withDefault? "provideClusterInfo" false Value.bool?

/-- Reads a user. -/
def user? (v : Value) : Option UserAccess := do
  let f ← v.record? (fieldsNamed ["username", "password", "token", "tokenFile",
    "client-certificate", "client-certificate-data", "client-key", "client-key-data", "as",
    "as-groups", "auth-provider", "exec"])
  return {
    username := ← f.optional? "username" Value.text?
    password := ← f.optional? "password" Value.text?
    token := ← f.optional? "token" Value.text?
    tokenFile := ← f.optional? "tokenFile" Value.text?
    certificate := {
      inPlace := ← f.optional? "client-certificate-data" Value.text?
      file := ← f.optional? "client-certificate" Value.text? }
    key := {
      inPlace := ← f.optional? "client-key-data" Value.text?
      file := ← f.optional? "client-key" Value.text? }
    provider := ← f.optional? "auth-provider" provider?
    hasPlugin := (← f.optional? "exec" plugin?).isSome
    actsAs := ← f.optional? "as" Value.text?
    groups := (← f.optional? "as-groups" (Value.list? Value.text?)).getD [] }

/-- Reads a context. -/
def context? (v : Value) : Option AccessContext := do
  let f ← v.record? (fieldsNamed ["cluster", "user", "namespace", "extensions"])
  extensions? f
  return {
    cluster := ← f.required? "cluster" Value.text?
    user := ← f.optional? "user" Value.text?
    «namespace» := ← f.optional? "namespace" Value.text? }

/-- Reads preferences for their form alone. -/
def preferences? (v : Value) : Option Unit := do
  let f ← v.record? (fieldsNamed ["colors", "extensions"])
  let _ ← f.optional? "colors" Value.bool?
  extensions? f

/-- The fields of a kubeconfig. -/
def fields : List RecordField :=
  [{ name := "preferences" }, { name := "clusters", mayEnd := true },
    { name := "users", mayEnd := true }, { name := "contexts", mayEnd := true },
    { name := "current-context" }, { name := "extensions" }, { name := "kind" },
    { name := "apiVersion" }]

/-- Reads a kubeconfig. -/
def ofValue? (v : Value) : Option Kubeconfig := do
  let f ← v.record? fields
  let _ ← f.optional? "preferences" preferences?
  extensions? f
  return {
    clusters := ← f.withDefault? "clusters" [] (Value.list? (named? "cluster" cluster?))
    users := ← f.withDefault? "users" [] (Value.list? (named? "user" user?))
    contexts := ← f.withDefault? "contexts" [] (Value.list? (named? "context" context?))
    currentContext := ← f.optional? "current-context" Value.text?
    kind := ← f.optional? "kind" Value.text?
    apiVersion := ← f.optional? "apiVersion" Value.text? }

/-! ## 2. Files -/

/-- Reads a document. -/
def ofDocument? (d : Yaml.Document) : Option Kubeconfig := do
  match ← (Value.ofYaml? (← d.value?)).filter Value.hasDistinctKeys with
  | .null => some {}
  | v => ofValue? v

/-- A text without the mark for its encoding in front. -/
def withoutMark (text : String) : String :=
  match text.toList with
  | '\uFEFF' :: cs => String.ofList cs
  | _ => text

/-- Reads a text, whose documents are laid over each other. -/
def read? (text : String) : Option Kubeconfig := do
  ((← Yaml.read? (withoutMark text)).mapM ofDocument?).bind fun cs => cs.foldlM over? {}

/-- Reads a file. -/
def ofFile? (files : String → FileState) (path : String) : Option Kubeconfig :=
  match files path with
  | .holds text => (read? text).map (inDirectory (parentPath path))
  | .absent | .unreadable => none

/-- Reads files and lays them over each other. -/
def ofFiles? (files : String → FileState) (paths : List String) : Option Kubeconfig := do
  (← paths.mapM (ofFile? files)).foldlM over? {}

end Kubeconfig

/-- The files that `KUBECONFIG` names, or else the one in the home directory. -/
def Environment.kubeconfigPaths (e : Environment) : List String :=
  let named := (Text.segments ':' ((e.get? "KUBECONFIG").getD "").toList).filter (· ≠ [])
  if named.isEmpty then
    ((e.get? "HOME").map fun home => joinPath (joinPath home ".kube") "config").toList
  else named.map String.ofList

end AppWatch
