/-
# What an application declares is what is parsed

An application says what it selects in a JSON object of optional parts and in an annotation of free
text.  A declaration is said here on its own (`Declared.Specification`): lists of kinds and of
expressions and a map of labels, where a part may also be left out or be `null`.

An object holds a declaration if its specification has these parts under their names, whatever else
it has (`Declared.Specification.IsHeldBy`), and the annotation lists the namespaces in the sense of
`Text.Lists`.  Every named object that holds a declaration is parsed into exactly what was declared
(`Application.ofObject_of_declaration`): of a part that is not given, the parsed form has the empty
collection, and of an operator that has none of the four names it keeps the text.
-/
import AppWatch.Application
import AppWatch.Proofs.Encodings
import AppWatch.Proofs.NameLists
import Mathlib.Data.List.Forall2

namespace AppWatch

open Json (Written)

attribute [ext] MatchExpression Selector ApplicationSpec

/-! ## 1. Operators -/

namespace Operator

/-- The names of the operators that can hold. -/
def names : List String := ["In", "NotIn", "Exists", "DoesNotExist"]

/-- No spelling but the four names is recognised. -/
theorem isKnown_ofText_iff (s : String) : (ofText s).isKnown = true ↔ s ∈ names := by
  unfold ofText
  split
  · simp [isKnown, names]
  · simp [isKnown, names]
  · simp [isKnown, names]
  · simp [isKnown, names]
  · next hin hnotIn hexists hdoesNot =>
    have : s ∉ names := by
      simp only [names, List.mem_cons, List.not_mem_nil, or_false, not_or]
      exact ⟨hin, hnotIn, hexists, hdoesNot⟩
    simpa [isKnown] using this

/-- An operator is the one of a text if it has that name and is known exactly for the four names. -/
theorem eq_ofText_iff (o : Operator) (s : String) :
    o = ofText s ↔ o.text = s ∧ (o.isKnown = true ↔ s ∈ names) := by
  constructor
  · rintro rfl
    exact ⟨text_ofText s, isKnown_ofText_iff s⟩
  · rintro ⟨rfl, hknown⟩
    cases o with
    | oneOf | noneOf | present | absent => rfl
    | unknown s =>
      have hs : s ∉ names := fun hs => absurd (hknown.mpr hs) (by simp [isKnown])
      have hunknown : (ofText s).isKnown = false := by
        rw [← Bool.not_eq_true, isKnown_ofText_iff]
        exact hs
      cases h : ofText s with
      | oneOf | noneOf | present | absent => simp [h, isKnown] at hunknown
      | unknown t =>
        have htext : (ofText s).text = s := text_ofText s
        rw [h] at htext
        exact (congrArg unknown htext.symm).trans h.symm

end Operator

/-! ## 2. Declarations -/

namespace Declared

/-- A part of a declaration that need not be given. -/
inductive Part (α : Type) where
  | leftOut
  | null
  | given (a : α)

namespace Part

variable {α β : Type}

/-- What is given, if anything is. -/
def value? : Part α → Option α
  | leftOut | null => none
  | given a => some a

/-- The JSON of the part, if it is not left out. -/
def json? (toJson : α → Json) : Part α → Option Json
  | leftOut => none
  | null => some .null
  | given a => some (toJson a)

/-- The member with the given name for the part, if it is not left out. -/
def members (name : String) (toJson : α → Json) (p : Part α) : List (String × Json) :=
  givenMember name id (p.json? toJson)

theorem mem_members_iff {name n : String} {toJson : α → Json} {p : Part α} {j : Json} :
    (n, j) ∈ p.members name toJson ↔ n = name ∧ p.json? toJson = some j := by
  unfold members givenMember
  cases p.json? toJson <;> simp [eq_comm]

/-- The parsed form of the part: that of what is given, or the default. -/
def parsed (read : α → β) (default : β) (p : Part α) : β := (p.value?.map read).getD default

theorem mem_names_or_default {name : String} {toJson : α → Json} {p : Part α}
    {names : List String} (h : ∀ n ∈ (p.members name toJson).map (·.1), n ∈ names)
    (read : α → β) (default : β) : name ∈ names ∨ default = p.parsed read default := by
  cases p with
  | leftOut => exact .inr rfl
  | null | given a => exact .inl (h name (List.mem_singleton_self name))

/-- A part that is left out or `null` is read as none, and any other as what is given. -/
theorem decode {toJson : α → Json} {value : Written → Decoded β} {read : α → β} {p : Part α}
    {j : Json} {w : Written} (hvalue : ∀ a w, w.Writes (toJson a) → value w = .ok (read a))
    (hnull : ∀ a, toJson a ≠ .null) (hp : p.json? toJson = some j) (hw : w.Writes j) :
    w.decodeOptional value = .ok (p.value?.map read) := by
  cases p with
  | leftOut => contradiction
  | null =>
    obtain rfl := Option.some.inj hp
    cases hw
    rfl
  | given a =>
    obtain rfl := Option.some.inj hp
    exact hw.decodeOptional (hnull a) (hvalue a w hw)

end Part

/-- A selector expression as it is declared. -/
structure Expression where
  key : String
  operator : String
  values : Part (List String)

/-- A label selector as it is declared. -/
structure LabelSelector where
  matchLabels : Part TextMap
  matchExpressions : Part (List Expression)

/-- What a specification declares. -/
structure Specification where
  componentKinds : Option (List GroupKind)
  selector : Part LabelSelector

namespace Expression

/-- The expression as JSON. -/
def toJson (d : Expression) : Json :=
  .obj ([("key", .str d.key), ("operator", .str d.operator)] ++
    d.values.members "values" Json.texts)

/-- The parsed form of the expression. -/
def parsed (d : Expression) : MatchExpression :=
  ⟨d.key, .ofText d.operator, d.values.parsed id []⟩

/-- What a parsed expression says of a declared one: it has its key, its operator by name and its
values, and it knows the operator exactly if it has one of the four names. -/
structure Says (d : Expression) (e : MatchExpression) : Prop where
  key : e.key = d.key
  operator : e.operator.text = d.operator
  isKnown : e.operator.isKnown = true ↔ d.operator ∈ Operator.names
  values : e.values = d.values.value?.getD []

theorem says_iff {d : Expression} {e : MatchExpression} : d.Says e ↔ e = d.parsed := by
  have hvalues : d.parsed.values = d.values.value?.getD [] := by
    rw [parsed, Part.parsed, Option.map_id_fun, id]
  constructor
  · intro h
    exact MatchExpression.ext h.key ((Operator.eq_ofText_iff _ _).mpr ⟨h.operator, h.isKnown⟩)
      (h.values.trans hvalues.symm)
  · rintro rfl
    exact ⟨rfl, Operator.text_ofText _, Operator.isKnown_ofText_iff _, hvalues⟩

theorem forall₂_says_iff {ds : List Expression} {es : List MatchExpression} :
    List.Forall₂ Says ds es ↔ es = ds.map parsed := by
  constructor
  · intro h
    induction h with
    | nil => rfl
    | cons h _ ih => rw [says_iff.mp h, ih, List.map_cons]
  · rintro rfl
    exact List.forall₂_map_right_iff.mpr (List.forall₂_same.mpr fun d _ => says_iff.mpr rfl)

/-- Takes the field of the given name from `d`. -/
def take (d : Expression) (e : MatchExpression) (name : String) : MatchExpression where
  key := if name = "key" then d.key else e.key
  operator := if name = "operator" then .ofText d.operator else e.operator
  values := if name = "values" then d.parsed.values else e.values

theorem field_of_writes {d : Expression} (e : MatchExpression) {n : String} {j : Json}
    {w : Written} (hj : (n, j) ∈ [("key", Json.str d.key), ("operator", .str d.operator)] ++
      d.values.members "values" Json.texts) (hw : w.Writes j) :
    MatchExpression.field e n w = .ok (d.take e n) := by
  simp only [List.mem_append, List.mem_cons, Prod.mk.injEq, List.not_mem_nil, or_false,
    Part.mem_members_iff] at hj
  obtain (⟨rfl, rfl⟩ | ⟨rfl, rfl⟩) | ⟨rfl, hvalues⟩ := hj
  · simp only [MatchExpression.field, hw.decodeOptional (by simp) hw.decodeText]
    rfl
  · simp only [MatchExpression.field, hw.decodeOptional (by simp) hw.decodeText]
    rfl
  · have hread : w.decodeOptional (Written.decodeItems Written.decodeText) =
        .ok (d.values.value?.map id) :=
      Part.decode (fun _ _ => Written.Writes.decodeTexts) (by simp [Json.texts]) hvalues hw
    simp only [MatchExpression.field, hread]
    rfl

theorem ofWritten_of_writes {d : Expression} {w : Written} (h : w.Writes d.toJson) :
    MatchExpression.ofWritten w = .ok d.parsed := by
  obtain ⟨names, hperm, hdecode⟩ := Written.decodeMembers_of_writes d.take
    "LabelSelectorRequirement" {} h fun e n j w hj hw => field_of_writes e hj hw
  have hvalues := d.values.mem_names_or_default (fun n hn => hperm.mem_iff.mpr
    (List.map_append ▸ List.mem_append_right _ hn)) id []
  rw [MatchExpression.ofWritten, hdecode]
  refine congrArg Except.ok (MatchExpression.ext ?_ ?_ ?_)
  · exact Written.foldl_take MatchExpression.key (.inl (hperm.mem_iff.mpr (by simp))) fun _ _ => rfl
  · exact Written.foldl_take MatchExpression.operator (.inl (hperm.mem_iff.mpr (by simp)))
      fun _ _ => rfl
  · exact Written.foldl_take MatchExpression.values hvalues fun _ _ => rfl

end Expression

namespace LabelSelector

/-- The selector as JSON, names ascending. -/
def toJson (d : LabelSelector) : Json :=
  .obj (d.matchExpressions.members "matchExpressions" (fun l => .arr (l.map Expression.toJson)) ++
    d.matchLabels.members "matchLabels" Json.textMap)

/-- The expressions, of which there are none unless they are given. -/
def expressions (d : LabelSelector) : List Expression := d.matchExpressions.value?.getD []

/-- The labels, of which there are none unless they are given. -/
def labels (d : LabelSelector) : TextMap := d.matchLabels.value?.getD .empty

/-- The parsed form of the selector. -/
def parsed (d : LabelSelector) : Selector :=
  ⟨d.matchLabels.parsed id .empty, d.matchExpressions.parsed (List.map Expression.parsed) []⟩

theorem matchLabels_parsed (d : LabelSelector) : d.parsed.matchLabels = d.labels := by
  rw [parsed, Part.parsed, Option.map_id_fun, id, labels]

theorem matchExpressions_parsed (d : LabelSelector) :
    d.parsed.matchExpressions = d.expressions.map Expression.parsed := by
  simp only [parsed, Part.parsed, expressions]
  cases d.matchExpressions.value? <;> rfl

/-- Takes the field of the given name from `d`. -/
def take (d : LabelSelector) (s : Selector) (name : String) : Selector where
  matchLabels := if name = "matchLabels" then d.parsed.matchLabels else s.matchLabels
  matchExpressions :=
    if name = "matchExpressions" then d.parsed.matchExpressions else s.matchExpressions

theorem field_of_writes {d : LabelSelector} (s : Selector) {n : String} {j : Json} {w : Written}
    (hj : (n, j) ∈ d.matchExpressions.members "matchExpressions"
      (fun l => .arr (l.map Expression.toJson)) ++ d.matchLabels.members "matchLabels" Json.textMap)
    (hw : w.Writes j) : Selector.field s n w = .ok (d.take s n) := by
  rw [List.mem_append, Part.mem_members_iff, Part.mem_members_iff] at hj
  obtain ⟨rfl, hexpressions⟩ | ⟨rfl, hlabels⟩ := hj
  · have hread := Part.decode (fun _ _ => Written.Writes.decodeItems
      fun _ _ => Expression.ofWritten_of_writes) (by simp) hexpressions hw
    simp only [Selector.field, hread]
    rfl
  · have hread : w.decodeOptional Written.decodeTextMap = .ok (d.matchLabels.value?.map id) :=
      Part.decode (fun _ _ => Written.Writes.decodeTextMap) (by simp [Json.textMap]) hlabels hw
    simp only [Selector.field, hread]
    rfl

theorem ofWritten_of_writes {d : LabelSelector} {w : Written} (h : w.Writes d.toJson) :
    Selector.ofWritten w = .ok d.parsed := by
  obtain ⟨names, hperm, hdecode⟩ := Written.decodeMembers_of_writes d.take "LabelSelector" {} h
    fun s n j w hj hw => field_of_writes s hj hw
  have hlabels := d.matchLabels.mem_names_or_default (fun n hn => hperm.mem_iff.mpr
    (List.map_append ▸ List.mem_append_right _ hn)) id .empty
  have hexpressions := d.matchExpressions.mem_names_or_default (fun n hn => hperm.mem_iff.mpr
    (List.map_append ▸ List.mem_append_left _ hn)) (List.map Expression.parsed) []
  rw [Selector.ofWritten, hdecode]
  exact congrArg Except.ok (Selector.ext
    (Written.foldl_take Selector.matchLabels hlabels fun _ _ => rfl)
    (Written.foldl_take Selector.matchExpressions hexpressions fun _ _ => rfl))

end LabelSelector

namespace Specification

/-- The kinds in order, of which there are none unless they are given. -/
def kinds (d : Specification) : List GroupKind := d.componentKinds.getD []

/-- The labels, of which there are none unless a selector gives them. -/
def labels (d : Specification) : TextMap :=
  (d.selector.value?.map LabelSelector.labels).getD .empty

/-- The expressions in order, of which there are none unless a selector gives them. -/
def expressions (d : Specification) : List Expression :=
  (d.selector.value?.map LabelSelector.expressions).getD []

/-- An object holds a declaration if its members of the two names are those of the declaration;
whatever other members it has say nothing. -/
structure IsHeldBy (d : Specification) (members : SortedMap String Json) : Prop where
  componentKinds : members.get? "componentKinds" =
    d.componentKinds.map fun l => .arr (l.map GroupKind.toJson)
  selector : members.get? "selector" = d.selector.json? LabelSelector.toJson

/-- The parsed form of the specification. -/
def parsed (d : Specification) : ApplicationSpec :=
  ⟨d.kinds, d.selector.parsed LabelSelector.parsed {}⟩

theorem matchLabels_parsed (d : Specification) : d.parsed.selector.matchLabels = d.labels := by
  rw [parsed, Part.parsed, labels]
  cases d.selector.value? with
  | none => rfl
  | some s => exact s.matchLabels_parsed

theorem matchExpressions_parsed (d : Specification) :
    d.parsed.selector.matchExpressions = d.expressions.map Expression.parsed := by
  rw [parsed, Part.parsed, expressions]
  cases d.selector.value? with
  | none => rfl
  | some s => exact s.matchExpressions_parsed

/-- Takes the field of the given name from `d`. -/
def take (d : Specification) (s : ApplicationSpec) (name : String) : ApplicationSpec where
  componentKinds := if name = "componentKinds" then d.parsed.componentKinds else s.componentKinds
  selector := if name = "selector" then d.parsed.selector else s.selector

variable {d : Specification} {members : SortedMap String Json}

theorem field_of_writes (h : d.IsHeldBy members) (s : ApplicationSpec) {n : String} {j : Json}
    {w : Written} (hj : (n, j) ∈ members.entries) (hw : w.Writes j) :
    ApplicationSpec.field s n w = .ok (d.take s n) := by
  have hget : members.get? n = some j := SortedMap.get?_eq_some_iff.mpr hj
  unfold ApplicationSpec.field
  split
  · obtain ⟨l, hl, rfl⟩ := Option.map_eq_some_iff.mp (h.componentKinds.symm.trans hget)
    have hkinds := Written.Writes.decodeItems (fun _ _ => GroupKind.ofWritten_of_writes) hw
    rw [hkinds, List.map_id', take, parsed, kinds, hl]
    rfl
  · have hselector := Part.decode (fun _ _ => LabelSelector.ofWritten_of_writes)
      (by simp [LabelSelector.toJson]) (h.selector.symm.trans hget) hw
    rw [hselector]
    rfl
  · next hkinds hselector => rw [hw.passing, take, if_neg hkinds, if_neg hselector]

theorem ofJson_of_isHeldBy (h : d.IsHeldBy members) :
    ApplicationSpec.ofJson (.obj members.entries) = .ok d.parsed := by
  obtain ⟨names, hperm, hdecode⟩ := ApplicationSpec.layout.decode_of_writes d.take {}
    (Written.writes_written (.obj members.entries)) members.nodup_keys
    (by simp [ApplicationSpec.layout]) fun s n j w hj hw => field_of_writes h s hj hw
  have hname {n : String} : n ∈ names ↔ ∃ j, members.get? n = some j := by
    rw [hperm.mem_iff]
    exact SortedMap.mem_keys_iff
  -- what is not given has no name here, and the start has the parsed form of it already
  have hkinds : "componentKinds" ∈ names ∨ [] = d.parsed.componentKinds := by
    rw [hname, h.componentKinds, parsed, kinds]
    cases d.componentKinds <;> simp
  have hselector : "selector" ∈ names ∨ {} = d.parsed.selector := by
    rw [hname, h.selector, parsed]
    cases d.selector <;> simp [Part.json?, Part.parsed, Part.value?]
  rw [ApplicationSpec.ofJson, hdecode]
  exact congrArg Except.ok (ApplicationSpec.ext
    (Written.foldl_take ApplicationSpec.componentKinds hkinds fun _ _ => rfl)
    (Written.foldl_take ApplicationSpec.selector hselector fun _ _ => rfl))

end Specification

end Declared

/-! ## 3. Applications -/

namespace Application

/-- An object that has a name and holds a declaration is parsed into what is declared.  An
annotation that is not there is as good as an empty one. -/
theorem ofObject_of_declaration {k : KindDescriptor} {namespacesKey : String} {o : ClusterObject}
    {d : Declared.Specification} {members : SortedMap String Json} {names : List String}
    (hname : o.metadata.name.isSome = true)
    (hspec : o.data.get? "spec" = some (.obj members.entries)) (hheld : d.IsHeldBy members)
    (hnames : Text.Lists ((o.metadata.annotations.bind (·.get? namespacesKey)).getD "") names) :
    ∃ a, ofObject k namespacesKey o = .ok a ∧ ResourceInfo.ofObject k o = .ok a.resource ∧
      a.componentKinds = d.kinds ∧ a.matchLabels = d.labels ∧
      List.Forall₂ Declared.Expression.Says d.expressions a.matchExpressions ∧
      ∀ n, a.componentNamespaces.contains n = true ↔ n ∈ names := by
  obtain ⟨name, hname⟩ := Option.isSome_iff_exists.mp hname
  obtain ⟨resource, hresource⟩ : ∃ resource, ResourceInfo.ofObject k o = .ok resource := by
    rw [ResourceInfo.ofObject, hname]
    exact ⟨_, rfl⟩
  refine ⟨⟨resource, d.parsed.componentKinds, d.parsed.selector.matchLabels,
    d.parsed.selector.matchExpressions, annotatedNamespaces namespacesKey o⟩, ?_, hresource, rfl,
    d.matchLabels_parsed, Declared.Expression.forall₂_says_iff.mpr d.matchExpressions_parsed,
    fun n => ?_⟩
  · rw [ofObject, hresource]
    simp only [bind, Except.bind, hspec, Declared.Specification.ofJson_of_isHeldBy hheld]
    rfl
  · have hset : annotatedNamespaces namespacesKey o = SortedSet.ofList names := by
      rw [← Text.lists_iff.mp hnames, ← Text.nameSet_eq, annotatedNamespaces]
      cases o.metadata.annotations.bind (·.get? namespacesKey) <;> rfl
    rw [hset, SortedSet.contains_ofList_iff]

/-- A declaration with an operator that is spelled wrongly and has no values, and without labels. -/
def sampleDeclaration : Declared.Specification where
  componentKinds := some [⟨"apps", "Deployment"⟩, ⟨"", "Service"⟩]
  selector := .given {
    matchLabels := .leftOut
    matchExpressions := .given [⟨"tier", "In", .given ["web", "db"]⟩, ⟨"zone", "in", .leftOut⟩] }

/-- A specification that holds the sample declaration and says more. -/
def sampleMembers : SortedMap String Json :=
  SortedMap.ofList [("addOwnerRef", .bool true),
    ("componentKinds", .arr [.obj [("group", .str "apps"), ("kind", .str "Deployment")],
      .obj [("group", .str ""), ("kind", .str "Service")]]),
    ("selector", .obj [("matchExpressions", .arr [
      .obj [("key", .str "tier"), ("operator", .str "In"), ("values", Json.texts ["web", "db"])],
      .obj [("key", .str "zone"), ("operator", .str "in")]])])]

/-- An object with the sample specification and an annotation that lists two namespaces. -/
def sampleObject : ClusterObject where
  metadata :=
    { name := some "shop", annotations := some (.ofList [("spaces", " blue,,\tgreen ,")]) }
  data := .ofList [("spec", .obj sampleMembers.entries)]

/-- The labels and the values that the sample leaves out are empty, and the operator that is spelled
wrongly is kept as it is. -/
theorem ofObject_of_declaration_sample :
    ∃ a, ofObject {} "spaces" sampleObject = .ok a ∧
      a.componentKinds = [⟨"apps", "Deployment"⟩, ⟨"", "Service"⟩] ∧ a.matchLabels = .empty ∧
      a.matchExpressions =
        [⟨"tier", .oneOf, ["web", "db"]⟩, ⟨"zone", .unknown "in", []⟩] ∧
      ∀ n, a.componentNamespaces.contains n = true ↔ n ∈ ["blue", "green"] := by
  have hspec : sampleObject.data.get? "spec" = some (.obj sampleMembers.entries) := by decide
  have hheld : sampleDeclaration.IsHeldBy sampleMembers := ⟨by decide, by decide⟩
  have hlists : Text.Lists ((sampleObject.metadata.annotations.bind (·.get? "spaces")).getD "")
      ["blue", "green"] := Text.lists_iff.mpr (by decide)
  obtain ⟨a, ha, -, hkinds, hlabels, hexpressions, hnamespaces⟩ :=
    ofObject_of_declaration (k := {}) (by decide) hspec hheld hlists
  exact ⟨a, ha, hkinds, hlabels, Declared.Expression.forall₂_says_iff.mp hexpressions, hnamespaces⟩

end Application

end AppWatch
