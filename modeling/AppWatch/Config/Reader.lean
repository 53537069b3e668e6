/-
# Configuration files

A configuration file is one YAML document: a mapping from settings to values.  Settings that are
not known are passed over, a known one may be given once, and an empty file sets nothing.

The group, the version and the resource of the application kind have to be texts and nothing else
that a scalar may denote; every other text may be any scalar.  What else stands in the application
kind does not count, but it has to denote something without tags.
-/
import AppWatch.Config
import AppWatch.Yaml.Reader
import AppWatch.Yaml.Value

namespace AppWatch

/-- What a value denotes if no tag stands in it. -/
def Yaml.untagged? (y : Yaml) : Option Yaml.Value :=
  (Yaml.Value.ofYaml? y).filter fun v => !v.hasTag

/-- The text that a value denotes by itself. -/
def Yaml.textOnly? (y : Yaml) : Option String :=
  match y.untagged? with
  | some (.text s) => some s
  | _ => none

/-- Reads one field of a kind. -/
def KindDescriptor.yamlField (k : KindDescriptor) (name : String) (y : Yaml) :
    Option KindDescriptor :=
  match name with
  | "group" => y.textOnly?.map fun s => { k with gvr.group := s }
  | "version" => y.textOnly?.map fun s => { k with gvr.version := s }
  | "resource" => y.textOnly?.map fun s => { k with gvr.resource := s }
  | "kind" => y.text?.map fun s => { k with kind := s }
  | "namespaced" => y.bool?.map fun b => { k with namespaced := b }
  | _ => y.untagged?.map fun _ => k

/-- The fields of a kind. -/
def KindDescriptor.yamlFields : List String :=
  ["group", "version", "resource", "kind", "namespaced"]

/-- Reads a kind; version, resource and kind have to be given. -/
def KindDescriptor.ofYaml? (y : Yaml) : Option KindDescriptor := do
  let members ← y.members?
  let names := members.map (·.1)
  if (names.filter yamlFields.contains).Nodup && ["version", "resource", "kind"].all names.contains
  then members.foldlM (fun k f => k.yamlField f.1 f.2) {}
  else none

namespace Config

/-- Reads one setting. -/
def yamlField (c : Config) (name : String) (y : Yaml) : Option Config :=
  match name with
  | "applicationKind" => (KindDescriptor.ofYaml? y).map fun k => { c with applicationKind := k }
  | "namespaces" =>
    (y.items?.bind (·.mapM Yaml.text?)).map fun l => { c with namespaces := l }
  | "batchDurationMs" => y.word?.map fun n => { c with batchDurationMs := n }
  | "queueCapacity" => y.word?.map fun n => { c with queueCapacity := n }
  | "componentNamespacesAnnotation" => y.text?.map fun s => { c with namespacesKey := s }
  | _ => some c

/-- Reads the settings of a document; absent ones have their defaults. -/
def ofDocument? (d : Yaml.Document) : Option Config := do
  let members ← d.members? (layout.fields.map (·.1))
  if (members.map (·.1)).Nodup then members.foldlM (fun c f => c.yamlField f.1 f.2) {} else none

/-- The settings that the text of a configuration file gives. -/
def read? (text : String) : Option Config :=
  match Yaml.read? text with
  | some [] => some {}
  | some [document] => ofDocument? document
  | _ => none

end Config

end AppWatch
