/-
# The groups of declared kinds

An application declares the kinds of its components by API group and kind name, and discovery
watches each of them in its group.  The rule of membership reads the kind name only.  A kind name
need not be unique among the groups, and all watched kinds are tested by the same rule.

* **The group does not count.**  A component stays one when it is moved to another group
  (`Application.exists_component_in_group`).  So an application keeps to the declared group of a
  kind name only if it declares the group, or if it has no component of that name at all
  (`Application.respectsGroup_iff`).  Whatever breaks this is in a batch already for one application
  and one added resource (`Application.respectsGroup_iff_batch`).
* **Where it is harmless.**  If no application of the list confuses the kind of the resource or the
  kind of another application, then every step of a walk is one by a declared kind, and so is the
  way to everything in a batch (`Resolver.claimed_of_findAll`, `Resolver.claimed_of_isOf`).
-/
import AppWatch.Proofs.FormerAncestors

namespace AppWatch

/-! ## 1. One application -/

namespace Application

/-- The application declares the kind of a name in an API group; `core` is the one without a
name. -/
def Declares (a : Application) (kind group : String) : Prop :=
  ∃ g ∈ a.componentKinds, g.kind = kind ∧ g.apiGroup = group

instance (a : Application) (kind group : String) : Decidable (a.Declares kind group) :=
  inferInstanceAs (Decidable (∃ g ∈ a.componentKinds, g.kind = kind ∧ g.apiGroup = group))

/-- All components of a kind name and an API group are of a declared kind. -/
def RespectsGroup (a : Application) (kind group : String) : Prop :=
  ∀ f x, x.kind = kind → x.gvr.group = group → a.hasComponent f x = true → a.Declares kind group

/-- Under no namespace filter a resource of the kind name is a component. -/
def Excludes (a : Application) (kind : String) : Prop :=
  ∀ f x, x.kind = kind → a.hasComponent f x = false

variable {a : Application} {f : NamespaceFilter} {x : ResourceInfo} {kind group : String}

/-- **The group does not count**: every group has resources that are components along with `x`. -/
theorem exists_component_in_group (group : String) (hx : a.hasComponent f x = true) :
    ∃ y : ResourceInfo, y.kind = x.kind ∧ y.gvr.group = group ∧ y.gvr ≠ a.resource.gvr ∧
      a.hasComponent f y = true := by
  let other : GroupVersionResource := ⟨group, x.gvr.version, a.resource.gvr.resource ++ "x"⟩
  have hne : a.resource.gvr ≠ other := by
    intro he
    have hlength := congrArg (fun g => g.resource.length) he
    simp [other] at hlength
  have hlike : SelectedLike x { x with gvr := other } := ⟨rfl, .inr rfl, fun _ => rfl⟩
  exact ⟨{ x with gvr := other }, rfl, rfl, hne.symm, hlike.hasComponent hne hx⟩

theorem respectsGroup_iff :
    a.RespectsGroup kind group ↔ a.Declares kind group ∨ a.Excludes kind := by
  constructor
  · intro h
    by_cases hd : a.Declares kind group
    · exact .inl hd
    · refine .inr fun f x hk => Bool.eq_false_iff.mpr fun hx => ?_
      obtain ⟨y, hyk, hyg, -, hy⟩ := exists_component_in_group group hx
      exact hd (h f y (hyk.trans hk) hyg hy)
  · rintro (hd | hnone) f x hk - hx
    · exact hd
    · rw [hnone f x hk] at hx
      exact absurd hx (by simp)

theorem excludes_of_not_declaresKind (h : a.declaresKind kind = false) : a.Excludes kind := by
  intro f x hk
  simp [hasComponent, hk, h]

/-- Over one application a resource is its component or has no ancestors. -/
theorem contains_ofResourceChange_added (hne : x.gvr ≠ a.resource.gvr) :
    (Batch.ofResourceChange { Resolver.lone a with filter := f } (.added x)).applications.contains
      a.key = true ↔ a.hasComponent f x = true := by
  have hproper : Resolver.Proper { Resolver.lone a with filter := f } :=
    ⟨(Resolver.lone_proper a).kind, (Resolver.lone_proper a).distinct⟩
  rw [Batch.contains_ofResourceChange]
  simp only [Batch.resolved, List.mem_singleton, exists_eq_left]
  rw [Resolver.contains_ancestorsOf_of_ne hproper hne]
  constructor
  · rintro ⟨z, hz, -⟩
    obtain ⟨w, ⟨b, hb, hc, -⟩, -⟩ := Relation.TransGen.head'_iff.mp hz
    rw [List.mem_singleton.mp hb] at hc
    exact hc
  · intro hx
    exact ⟨a.resource, .single ⟨a, List.mem_singleton_self a, hx, rfl⟩, rfl⟩

theorem respectsGroup_iff_batch :
    a.RespectsGroup kind group ↔
      ∀ f x, x.kind = kind → x.gvr.group = group → x.gvr ≠ a.resource.gvr →
        (Batch.ofResourceChange { Resolver.lone a with filter := f }
          (.added x)).applications.contains a.key = true → a.Declares kind group := by
  constructor
  · intro h f x hk hg hne hin
    exact h f x hk hg ((contains_ofResourceChange_added hne).mp hin)
  · intro h f x hk hg hx
    obtain ⟨y, hyk, hyg, hne, hy⟩ := exists_component_in_group group hx
    exact h f y (hyk.trans hk) hyg hne ((contains_ofResourceChange_added hne).mpr hy)

end Application

/-! ## 2. Walks and batches -/

namespace Resolver

variable {r : Resolver} {x y z : ResourceInfo} {found : FoundApplications} {k : ResourceKey}

/-- `z` is an application of the list, and `y` a component of it that is of a declared kind. -/
def IsDeclaredComponentOf (r : Resolver) (y z : ResourceInfo) : Prop :=
  ∃ a ∈ r.applications, a.hasComponent r.filter y = true ∧ a.Declares y.kind y.gvr.group ∧
    a.resource = z

/-- The key is that of `x`, if `x` is an application, or that of an application which contains `x`
by declared kinds all the way. -/
def Claimed (r : Resolver) (x : ResourceInfo) (k : ResourceKey) : Prop :=
  (x.gvr = r.applicationKind ∧ k = x.key) ∨
    ∃ z, Relation.TransGen r.IsDeclaredComponentOf x z ∧ z.key = k

/-- No application of the list confuses the kind of `x` with one of another group. -/
def RespectsGroup (r : Resolver) (x : ResourceInfo) : Prop :=
  ∀ a ∈ r.applications, a.RespectsGroup x.kind x.gvr.group

theorem RespectsGroup.isDeclaredComponentOf (h : r.RespectsGroup y) (hyz : r.IsComponentOf y z) :
    r.IsDeclaredComponentOf y z := by
  obtain ⟨a, ha, hc, rfl⟩ := hyz
  exact ⟨a, ha, hc, h a ha r.filter y rfl rfl hc, rfl⟩

/-- Where no kind is confused, a walk goes up by declared kinds. -/
theorem Above.declared (happs : ∀ a ∈ r.applications, r.RespectsGroup a.resource)
    (hx : r.RespectsGroup x) (h : r.Above found x z) :
    Relation.TransGen r.IsDeclaredComponentOf x z := by
  induction h with
  | single hs => exact .single (hx.isDeclaredComponentOf hs.1)
  | @tail y z hy hs ih =>
    have hy' : r.Above found x y := hy
    obtain ⟨_, a, ha, -, rfl⟩ := hy'.isComponentOf
    exact ih.tail ((happs a ha).isDeclaredComponentOf hs.1)

theorem claimed_of_findAll (hr : r.Proper)
    (happs : ∀ a ∈ r.applications, r.RespectsGroup a.resource) (hx : r.RespectsGroup x)
    (hk : (r.findAll x found).contains k = true) : found.contains k = true ∨ r.Claimed x k := by
  cases hd : r.isDone x found with
  | true =>
    rw [findAll_of_isDone hr hd] at hk
    exact .inl hk
  | false =>
    obtain ⟨v, hv⟩ := Option.isSome_iff_exists.mp hk
    rcases (get?_findAll hr hd).mp hv with hv | ⟨hgvr, hkey, -⟩ | ⟨-, hkey, habove⟩
    · exact .inl (contains_of_get? hv)
    · exact .inr (.inl ⟨hgvr, hkey⟩)
    · exact .inr (.inr ⟨v, habove.declared happs hx, hkey.symm⟩)

theorem claimed_of_isOf (hr : r.Proper) (happs : ∀ a ∈ r.applications, r.RespectsGroup a.resource)
    {change : Change ResourceInfo} (hchange : ∀ x ∈ change.snapshots, r.RespectsGroup x) {b : Batch}
    (hb : b.IsOf r change) (hk : b.applications.contains k = true) :
    ∃ x ∈ change.snapshots, r.Claimed x k := by
  have hof : ∃ x ∈ change.snapshots, (r.ancestorsOf x).contains k = true := by
    rcases hb with rfl | rfl
    · obtain ⟨x, hx, hin⟩ := Batch.contains_ofResourceChange.mp hk
      refine ⟨x, ?_, hin⟩
      cases change with
      | added new => exact hx
      | deleted old => exact hx
      | updated old new =>
        simp only [Batch.resolved, Change.snapshots] at hx ⊢
        split at hx
        · exact List.mem_cons_of_mem _ hx
        · exact hx
    · exact Batch.contains_ofApplicationChange.mp hk
  obtain ⟨x, hx, hin⟩ := hof
  rcases claimed_of_findAll hr happs (hchange x hx) hin with hempty | hclaimed
  · exact absurd hempty (by simp [SortedMap.contains])
  · exact ⟨x, hx, hclaimed⟩

/-! ## 3. When groups are respected -/

/-- **When the groups of declared kinds are respected.**  An application respects the API group of a
kind name exactly if it declares the name in that group or has no component of that name, and that
is what keeps it out of the batches of the other groups.  Over a list of applications that respect
the groups of the snapshots and of each other, every application that a walk adds and every one in a
batch contains a snapshot by declared kinds all the way, or is a snapshot itself. -/
theorem groups_respected_iff (r : Resolver) (hr : r.Proper) :
    (∀ (a : Application) (kind group : String),
      (a.RespectsGroup kind group ↔ a.Declares kind group ∨ a.Excludes kind) ∧
      (a.RespectsGroup kind group ↔
        ∀ f x, x.kind = kind → x.gvr.group = group → x.gvr ≠ a.resource.gvr →
          (Batch.ofResourceChange { lone a with filter := f } (.added x)).applications.contains
            a.key = true → a.Declares kind group)) ∧
    ((∀ a ∈ r.applications, r.RespectsGroup a.resource) →
      (∀ x, r.RespectsGroup x → ∀ found k, (r.findAll x found).contains k = true →
        found.contains k = true ∨ r.Claimed x k) ∧
      ∀ change : Change ResourceInfo, (∀ x ∈ change.snapshots, r.RespectsGroup x) →
        ∀ b : Batch, b.IsOf r change → ∀ k, b.applications.contains k = true →
          ∃ x ∈ change.snapshots, r.Claimed x k) := by
  constructor
  · intro a kind group
    exact ⟨Application.respectsGroup_iff, Application.respectsGroup_iff_batch⟩
  · intro happs
    constructor
    · intro x hx found k hk
      exact claimed_of_findAll hr happs hx hk
    · intro change hchange b hb k hk
      exact claimed_of_isOf hr happs hchange hb hk

/-- An application of the services of one group that are labelled `app: web`. -/
def sampleServiceOwner (name own group : String) : Application :=
  { sampleApplication name own own with
    componentKinds := [⟨group, "Service"⟩]
    matchLabels := .ofList [("app", "web")] }

/-- A service of the group without a name. -/
def sampleService : ResourceInfo where
  gvr := ⟨"", "v1", "services"⟩
  kind := "Service"
  «namespace» := "default"
  name := "web"
  labels := some (.ofList [("app", "web")])

/-- An application that declares `core` services and an application that contains it are both in
the batch of a service, by declared kinds. -/
theorem groups_respected_core :
    let shop := sampleServiceOwner "shop" "mall" "core"
    let mall := sampleApplication "mall" "town" "mall"
    let r : Resolver := ⟨shop.resource.gvr, [shop, mall], {}⟩
    let batch := Batch.ofResourceChange r (.added sampleService)
    batch.applications.contains mall.key = true ∧ r.Claimed sampleService mall.key := by
  intro shop mall r batch
  have hproper : r.Proper := ⟨by decide, by decide⟩
  have hrespects : ∀ x ∈ [sampleService, shop.resource, mall.resource], r.RespectsGroup x := by
    have hdecided : ∀ x ∈ [sampleService, shop.resource, mall.resource], ∀ a ∈ [shop, mall],
        a.Declares x.kind x.gvr.group ∨ a.declaresKind x.kind = false := by decide
    intro x hx a ha
    exact Application.respectsGroup_iff.mpr
      ((hdecided x hx a ha).imp_right Application.excludes_of_not_declaresKind)
  have happs : ∀ a ∈ r.applications, r.RespectsGroup a.resource := fun a ha =>
    hrespects a.resource (List.mem_cons_of_mem _ (List.mem_map_of_mem ha))
  have hin : batch.applications.contains mall.key = true := by decide
  obtain ⟨x, hx, hclaimed⟩ := ((groups_respected_iff r hproper).2 happs).2 (.added sampleService)
    (fun x hx => hrespects x (List.mem_singleton.mp hx ▸ List.mem_cons_self)) batch (.inl rfl)
    mall.key hin
  rw [List.mem_singleton.mp hx] at hclaimed
  exact ⟨hin, hclaimed⟩

/-- A service without a group is taken for one of another group: the application that declares the
other group is in its batch beside the one that declares `core`, and by no declared kind. -/
theorem group_confused :
    let functions := sampleServiceOwner "functions" "town" "serving.knative.dev"
    let shop := sampleServiceOwner "shop" "town" "core"
    let r : Resolver := ⟨shop.resource.gvr, [functions, shop], {}⟩
    let batch := Batch.ofResourceChange r (.added sampleService)
    functions.hasComponent r.filter sampleService = true ∧
      ¬ functions.Declares sampleService.kind sampleService.gvr.group ∧
      batch.applications.contains functions.key = true ∧
      ¬ r.Claimed sampleService functions.key ∧
      batch.applications.contains shop.key = true ∧ r.Claimed sampleService shop.key := by
  intro functions shop r batch
  refine ⟨by decide, by decide, by decide, ?_, by decide, ?_⟩
  · -- a step to the application comes from its declared group, and nothing there is reached
    have hsource : ∀ y ∈ [sampleService, functions.resource, shop.resource],
        ¬ functions.Declares y.kind y.gvr.group := by decide
    rintro (⟨hgvr, -⟩ | ⟨z, hz, hkey⟩)
    · exact absurd hgvr (by decide)
    · obtain ⟨y, hy, a, ha, -, hd, rfl⟩ := Relation.TransGen.tail'_iff.mp hz
      have hfunctions : a = functions := by
        rcases List.mem_pair.mp ha with rfl | rfl
        · rfl
        · exact absurd hkey (by decide)
      rw [hfunctions] at hd
      refine hsource y ?_ hd
      rcases Relation.ReflTransGen.cases_tail hy with rfl | ⟨w, -, b, hb, -, -, rfl⟩
      · exact List.mem_cons_self
      · exact List.mem_cons_of_mem _ (List.mem_map_of_mem hb)
  · exact .inr ⟨shop.resource, .single ⟨shop, by simp [r], by decide, by decide, rfl⟩, rfl⟩

end Resolver

end AppWatch
