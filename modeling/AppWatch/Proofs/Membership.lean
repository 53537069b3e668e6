/-
# The rule of membership

A selector has two parts, required labels and expressions.  Which of them are empty decides how a
resource is tested, each part refuses when it is empty itself, and an absent label set takes a way
of its own through both.  The rule that comes of it has none of these cases
(`Application.selects_eq`): not both parts are empty, every required label is there, and every
expression holds.

`Application.Qualifies` states the rule without the tests, over the label pairs that a resource has,
an absent set having none.  `Application.hasComponent_iff` says that the tests decide it.  So the
labels count only through their values (`Application.selects_congr`), and whether a resource has no
label set or an empty one cannot be seen.
-/
import AppWatch.Membership

namespace AppWatch

/-! ## 1. Labels and expressions -/

/-- The label pairs of a resource; an absent set has none. -/
def Labels.pairs (l : Labels) : TextMap := l.getD .empty

theorem Labels.value?_eq (l : Labels) (key : String) :
    Labels.value? l key = (Labels.pairs l).get? key := by
  cases l <;> rfl

/-- Whether labels match depends on the values of the required ones only. -/
theorem labelsMatch_eq (required : TextMap) (labels : Labels) :
    labelsMatch required labels =
      (!required.isEmpty && required.entries.all fun e => Labels.value? labels e.1 = some e.2) := by
  cases labels with
  | some l => rfl
  | none =>
    obtain ⟨entries, _⟩ := required
    cases entries with
    | nil => rfl
    | cons e es => simp [labelsMatch, Labels.value?, SortedMap.isEmpty]

namespace MatchExpression

/-- What an expression asks of label pairs; an operator without a meaning asks the impossible. -/
def Admits (e : MatchExpression) (l : TextMap) : Prop :=
  match e.operator with
  | .oneOf => ∃ v, l.get? e.key = some v ∧ v ∈ e.values
  | .noneOf => l.get? e.key = none ∨ ∃ v, l.get? e.key = some v ∧ v ∉ e.values
  | .present => ∃ v, l.get? e.key = some v
  | .absent => l.get? e.key = none
  | .unknown _ => False

theorem holds_iff {e : MatchExpression} {l : Labels} :
    e.holds l = true ↔ e.Admits (Labels.pairs l) := by
  simp only [holds, Admits, Labels.value?_eq]
  cases e.operator <;> cases (Labels.pairs l).get? e.key <;> simp

end MatchExpression

/-! ## 2. Selectors -/

namespace Application

/-- **One rule for all selectors**, whichever of their parts are empty. -/
theorem selects_eq (a : Application) (l : Labels) :
    a.selects l = (!(a.matchLabels.isEmpty && a.matchExpressions.isEmpty) &&
      (a.matchLabels.entries.all (fun e => Labels.value? l e.1 = some e.2) &&
        a.matchExpressions.all fun e => e.holds l)) := by
  have hlabels : a.matchLabels.isEmpty = true → a.matchLabels.entries = [] := List.isEmpty_iff.mp
  have hexpressions : a.matchExpressions.isEmpty = true → a.matchExpressions = [] :=
    List.isEmpty_iff.mp
  unfold selects
  split
  · next h h' => simp [labelsMatch_eq, expressionsMatch, h, h']
  · next h h' => simp [labelsMatch_eq, h, hexpressions h']
  · next h h' => simp [expressionsMatch, hlabels h, h']
  · next h h' => simp [h, h']

/-- A selector sees the values of labels and no more. -/
theorem selects_congr (a : Application) {l m : Labels}
    (h : ∀ key, Labels.value? l key = Labels.value? m key) : a.selects l = a.selects m := by
  have hholds : ∀ e : MatchExpression, e.holds l = e.holds m := fun e => by
    simp only [MatchExpression.holds, h]
  simp only [selects_eq, h, hholds]

theorem selects_iff {a : Application} {l : Labels} :
    a.selects l = true ↔ ¬ (a.matchLabels.entries = [] ∧ a.matchExpressions = []) ∧
      (∀ k v, a.matchLabels.get? k = some v → (Labels.pairs l).get? k = some v) ∧
        ∀ e ∈ a.matchExpressions, e.Admits (Labels.pairs l) := by
  have hentries : (a.matchLabels.entries.all fun e => Labels.value? l e.1 = some e.2) = true ↔
      ∀ k v, a.matchLabels.get? k = some v → (Labels.pairs l).get? k = some v := by
    simp [SortedMap.get?_eq_some_iff (m := a.matchLabels), Labels.value?_eq]
  have hall : (a.matchExpressions.all fun e => e.holds l) = true ↔
      ∀ e ∈ a.matchExpressions, e.Admits (Labels.pairs l) := by
    simp only [List.all_eq_true, MatchExpression.holds_iff]
  have hempty : (!(a.matchLabels.isEmpty && a.matchExpressions.isEmpty)) = true ↔
      ¬ (a.matchLabels.entries = [] ∧ a.matchExpressions = []) := by
    simp only [SortedMap.isEmpty, Bool.not_eq_true', ← Bool.not_eq_true, Bool.and_eq_true,
      List.isEmpty_iff]
  rw [selects_eq, Bool.and_eq_true, Bool.and_eq_true, hempty, hentries, hall]

/-! ## 3. Components -/

/-- Where components of an application come from. -/
theorem drawsFrom_iff {a : Application} {f : NamespaceFilter} {ns : String} :
    a.drawsFrom f ns = true ↔ ns = "" ∨
      (ns = a.«namespace» ∧ (f.globalNamespaces = [] ∨ ns ∈ f.globalNamespaces)) ∨
        ns ∈ SortedSet.toList a.componentNamespaces := by
  have hpermitted : f.isPermitted ns = true ↔
      f.globalNamespaces = [] ∨ ns ∈ f.globalNamespaces := by
    simp [NamespaceFilter.isPermitted, NamespaceFilter.permitsAll,
      NamespaceFilter.globalNamespaces, SortedMap.isEmpty, SortedMap.contains_iff_mem_keys,
      SortedMap.keys]
  simp only [drawsFrom, Bool.or_eq_true, Bool.and_eq_true, decide_eq_true_eq, hpermitted,
    SortedMap.contains_iff_mem_keys, or_assoc, @eq_comm _ a.«namespace»]

/-- What makes a resource a component of an application: where it is, that it is another resource,
its kind name and its label pairs. -/
structure Qualifies (a : Application) (f : NamespaceFilter) (r : ResourceInfo) : Prop where
  /-- It has no namespace, or the application's, if that is globally permitted, or one of those
  that the application names. -/
  «namespace» : r.«namespace» = "" ∨
    (r.«namespace» = a.«namespace» ∧
      (f.globalNamespaces = [] ∨ r.«namespace» ∈ f.globalNamespaces)) ∨
    r.«namespace» ∈ SortedSet.toList a.componentNamespaces
  other : r.key ≠ a.key
  kind : ∃ g ∈ a.componentKinds, g.kind = r.kind
  selector : ¬ (a.matchLabels.entries = [] ∧ a.matchExpressions = [])
  labels : ∀ k v, a.matchLabels.get? k = some v → (Labels.pairs r.labels).get? k = some v
  expressions : ∀ e ∈ a.matchExpressions, e.Admits (Labels.pairs r.labels)

/-- **The tests decide the rule.**  A resource is a component exactly if it qualifies, for every
filter, application and resource; and it does not matter whether it has an empty label set or
none. -/
theorem hasComponent_iff (a : Application) (f : NamespaceFilter) (r : ResourceInfo) :
    (a.hasComponent f r = true ↔ a.Qualifies f r) ∧
      a.hasComponent f { r with labels := none } =
        a.hasComponent f { r with labels := some .empty } := by
  constructor
  · have hother : (!a.resource.isSameResource r) = true ↔ r.key ≠ a.key := by
      rw [Bool.not_eq_true', Bool.eq_false_iff, Ne, ResourceInfo.isSameResource_iff, eq_comm]
      rfl
    have hkind : a.declaresKind r.kind = true ↔ ∃ g ∈ a.componentKinds, g.kind = r.kind := by
      simp [declaresKind]
    simp only [hasComponent, Bool.and_eq_true, drawsFrom_iff, hother, hkind, selects_iff]
    constructor
    · rintro ⟨⟨⟨hns, hne⟩, hk⟩, hs, hl, he⟩
      exact ⟨hns, hne, hk, hs, hl, he⟩
    · rintro ⟨hns, hne, hk, hs, hl, he⟩
      exact ⟨⟨⟨hns, hne⟩, hk⟩, hs, hl, he⟩
  · have hselects : a.selects none = a.selects (some .empty) := a.selects_congr fun _ => rfl
    simp only [hasComponent, hselects]
    rfl

end Application

end AppWatch
