/-
# The ancestors of a version that is replaced or removed

When a cached component changes or goes, the applications that contained its former version have
to be recomputed.  The version itself is not always resolved.  Which one is depends on the event:

* a relist that prunes an object resolves the cached version;
* an update with other labels resolves the cached version and the new one;
* an update with the same labels resolves the new version only;
* a deletion resolves the version that the event carries.

In the first two cases no former ancestor is missed.  In the other two the resolved version stands
in for the cached one, and that is sound exactly if every application that selects the cached
version selects it too (`SelectedLike`): the kind name, the namespace and the label values decide
about membership, and nothing else does.  If one of them differs, an application that tells the
two versions apart is missed (`probe`).  `former_ancestors_covered_iff` puts the two halves
together.
-/
import AppWatch.Proofs.Ancestors
import AppWatch.Proofs.Batches
import AppWatch.Proofs.Cache
import AppWatch.Proofs.Membership
import AppWatch.Watch.System

namespace AppWatch

/-! ## 1. Versions that are selected alike -/

/-- A snapshot may stand in for another: it has its kind name and label values, and its namespace
or none. -/
structure SelectedLike (x y : ResourceInfo) : Prop where
  kind : y.kind = x.kind
  «namespace» : y.«namespace» = "" ∨ y.«namespace» = x.«namespace»
  values : ∀ key, Labels.value? y.labels key = Labels.value? x.labels key

theorem SelectedLike.refl (x : ResourceInfo) : SelectedLike x x := ⟨rfl, .inr rfl, fun _ => rfl⟩

variable {x y z : ResourceInfo} {a : Application} {f : NamespaceFilter} {r : Resolver}

/-- An application that has a component has what stands in for it, unless that is the application
itself. -/
theorem SelectedLike.hasComponent (h : SelectedLike x y) (hne : a.resource.gvr ≠ y.gvr)
    (hx : a.hasComponent f x = true) : a.hasComponent f y = true := by
  simp only [Application.hasComponent, Bool.and_eq_true] at hx ⊢
  obtain ⟨⟨⟨hdraws, -⟩, hkind⟩, hselects⟩ := hx
  refine ⟨⟨⟨?_, by simp [ResourceInfo.isSameResource, hne]⟩, by rw [h.kind]; exact hkind⟩, ?_⟩
  · rcases h.namespace with he | he
    · simp [Application.drawsFrom, he]
    · rw [he]
      exact hdraws
  · rw [a.selects_congr h.values]
    exact hselects

namespace Resolver

/-- The collected ancestors of a resource that is no application are its transitive ones. -/
theorem contains_ancestorsOf_of_ne (hr : r.Proper) (hx : x.gvr ≠ r.applicationKind)
    {k : ResourceKey} : (r.ancestorsOf x).contains k = true ↔
      ∃ z, Relation.TransGen r.IsComponentOf x z ∧ z.key = k := by
  rw [contains_ancestorsOf hr]
  simp only [hx, false_and, false_or, above_empty_iff (hr.entry_eq_of_ne hx)]

/-- What stands in for a resource has all its ancestors. -/
theorem transGen_of_selectedLike (hr : r.Proper) (hy : y.gvr ≠ r.applicationKind)
    (h : SelectedLike x y) (hz : Relation.TransGen r.IsComponentOf x z) :
    Relation.TransGen r.IsComponentOf y z := by
  obtain ⟨w, ⟨a, ha, hc, hw⟩, hrest⟩ := Relation.TransGen.head'_iff.mp hz
  have hne : a.resource.gvr ≠ y.gvr := fun he => hy (he.symm.trans (hr.kind a ha))
  exact Relation.TransGen.head'_iff.mpr ⟨w, ⟨a, ha, h.hasComponent hne hc, hw⟩, hrest⟩

/-- A resource that is a component of nothing has no ancestors. -/
theorem not_transGen (hnone : ∀ a ∈ r.applications, a.hasComponent r.filter x = false) :
    ¬ Relation.TransGen r.IsComponentOf x z := by
  intro h
  obtain ⟨w, ⟨a, ha, hc, -⟩, -⟩ := Relation.TransGen.head'_iff.mp h
  rw [hnone a ha] at hc
  exact absurd hc (by simp)

end Resolver

/-! ## 2. An application that tells two versions apart -/

/-- An application that takes in the snapshot `x` and whatever agrees with it in kind name,
namespace and the value of one label. -/
def probe (applicationKind : GroupVersionResource) (x : ResourceInfo) (key : String) :
    Application where
  resource := { gvr := applicationKind }
  componentKinds := [⟨"", x.kind⟩]
  matchExpressions := match Labels.value? x.labels key with
    | none => [⟨key, .absent, []⟩]
    | some v => [⟨key, .oneOf, [v]⟩]
  componentNamespaces := SortedSet.ofList [x.«namespace»]

theorem hasComponent_probe {gvr : GroupVersionResource} {key : String} (hy : y.gvr ≠ gvr) :
    (probe gvr x key).hasComponent f y = true ↔
      (y.«namespace» = "" ∨ y.«namespace» = x.«namespace») ∧ y.kind = x.kind ∧
        Labels.value? y.labels key = Labels.value? x.labels key := by
  have hdraws : (probe gvr x key).drawsFrom f y.«namespace» = true ↔
      y.«namespace» = "" ∨ y.«namespace» = x.«namespace» := by
    simp only [Application.drawsFrom, Bool.or_eq_true, Bool.and_eq_true, decide_eq_true_eq]
    rw [show (probe gvr x key).componentNamespaces = SortedSet.ofList [x.«namespace»] from rfl,
      SortedSet.contains_ofList_iff, List.mem_singleton]
    constructor
    · rintro ((he | ⟨he, -⟩) | he)
      · exact .inl he
      · exact .inl he.symm
      · exact .inr he
    · exact fun h => h.imp_left .inl
  have hkind : (probe gvr x key).declaresKind y.kind = true ↔ y.kind = x.kind := by
    simp [Application.declaresKind, probe, eq_comm]
  have hselects : (probe gvr x key).selects y.labels = true ↔
      Labels.value? y.labels key = Labels.value? x.labels key := by
    unfold probe
    cases hx : Labels.value? x.labels key <;> cases hv : Labels.value? y.labels key <;>
      simp [Application.selects, expressionsMatch, MatchExpression.holds, SortedMap.isEmpty,
        SortedMap.empty, hv]
  have hother : (probe gvr x key).resource.isSameResource y = false := by
    simp [ResourceInfo.isSameResource, probe, Ne.symm hy]
  simp only [Application.hasComponent, Bool.and_eq_true, hdraws, hkind, hselects, hother,
    Bool.not_false, and_true, and_assoc]

/-- The resolver over one application. -/
def Resolver.lone (a : Application) : Resolver := ⟨a.resource.gvr, [a], {}⟩

theorem Resolver.lone_proper (a : Application) : (lone a).Proper :=
  ⟨fun b hb => by rw [List.mem_singleton.mp hb]; rfl, List.nodup_singleton _⟩

/-- **The conditions on a stand-in are all needed.**  A snapshot that every probe takes in along
with `x` may stand in for `x`. -/
theorem selectedLike_of_probes {gvr : GroupVersionResource} (hy : y.gvr ≠ gvr)
    (h : ∀ key, (probe gvr x key).hasComponent f y = true) : SelectedLike x y where
  kind := ((hasComponent_probe hy).mp (h "")).2.1
  «namespace» := ((hasComponent_probe hy).mp (h "")).1
  values key := ((hasComponent_probe hy).mp (h key)).2.2

/-! ## 3. The batches of an event -/

namespace Batch

/-- The batch that handling a change sends, over the applications of the resolver. -/
def ofEvent (r : Resolver) (kind : KindDescriptor) (c : WatchCache) (e : ResourceEvent) :
    Except Failure Batch :=
  ((c.latestChange e).mapM? (ResourceInfo.ofObject kind)).map (ofResourceChange r)

/-- The batches of some changes that are handled while the cache stays as it is. -/
def ofEvents (r : Resolver) (kind : KindDescriptor) (c : WatchCache) (es : List ResourceEvent) :
    List Batch :=
  es.filterMap fun e => (ofEvent r kind c e).toOption

end Batch

/-- What a worker sends for a change of a kind that is no application is the batch of the event,
over the applications that are cached then. -/
theorem System.handleResource_of_ofEvent {s : System} {self : Party} {kind : KindDescriptor}
    {c : WatchCache} {e : ResourceEvent} {b : Batch}
    (h : Batch.ofEvent (s.registry.resolver s.registry.snapshot.1) kind c e = .ok b) :
    s.handleResource self kind c e =
      (s.send self b).after (s.registry.snapshot.2.map .notice) := by
  unfold Batch.ofEvent at h
  unfold handleResource sendChange
  cases hm : (c.latestChange e).mapM? (ResourceInfo.ofObject kind) with
  | error f =>
    rw [hm] at h
    exact absurd h (by simp [Except.map])
  | ok change =>
    rw [hm] at h
    cases h
    rfl

/-! ## 4. Events that replace or remove -/

variable {c : WatchCache} {kind : KindDescriptor} {e : ScopedEvent} {key : String}
  {o : ClusterObject}

namespace WatchCache

/-- An event replaces or removes what is cached under a key: it carries an object with that key,
or nothing is cached there afterwards. -/
def Displaces (c : WatchCache) (e : ScopedEvent) (key : String) : Prop :=
  e.event.object?.bind ClusterObject.key? = some key ∨
    (c.apply e.scope e.event).1.objects.get? key = none

/-- What is cached is replaced by storing, and removed by a deletion or a closed listing. -/
theorem displaces_cases (ho : c.objects.get? key = some o) (hd : c.Displaces e key) :
    (∃ n, (e.event = .apply n ∨ e.event = .initApply n) ∧ n.key? = some key) ∨
      (∃ d, e.event = .delete d ∧ d.key? = some key) ∨
      (e.event = .initDone ∧ (c.apply e.scope e.event).1.objects.get? key = none) := by
  have heff := effect_apply c e.scope e.event
  unfold Displaces at hd
  generalize (c.apply e.scope e.event).1.objects = objects at hd heff ⊢
  generalize (c.apply e.scope e.event).2 = changes at heff
  generalize e.event = event at hd heff ⊢
  cases heff with
  | @stored _ n key' he hkey =>
    refine .inl ⟨n, he, ?_⟩
    rcases hd with hcarried | hgone
    · rcases he with rfl | rfl <;> exact hcarried
    · rw [SortedMap.get?_insert] at hgone
      split at hgone
      · exact absurd hgone (by simp)
      · rw [ho] at hgone
        exact absurd hgone (by simp)
  | @removed d key' hkey =>
    refine .inr (.inl ⟨d, rfl, ?_⟩)
    rcases hd with hcarried | hgone
    · exact hcarried
    · rw [SortedMap.get?_erase] at hgone
      split at hgone
      · next he => rw [he, hkey]
      · rw [ho] at hgone
        exact absurd hgone (by simp)
  | pruned _ =>
    refine .inr (.inr ⟨rfl, ?_⟩)
    rcases hd with hcarried | hgone
    · exact absurd hcarried (by simp [WatchEvent.object?])
    · exact hgone
  | passed hnone =>
    rcases hd with hcarried | hgone
    · rw [hnone] at hcarried
      exact absurd hcarried (by simp)
    · rw [ho] at hgone
      exact absurd hgone (by simp)

/-- The batches that the changes of an event lead to. -/
def batchesOf (c : WatchCache) (r : Resolver) (kind : KindDescriptor) (e : ScopedEvent) :
    List Batch :=
  Batch.ofEvents r kind (c.apply e.scope e.event).1 (c.apply e.scope e.event).2

/-- Together the batches of an event hold every transitive ancestor of a snapshot. -/
def CoversFormer (c : WatchCache) (r : Resolver) (kind : KindDescriptor) (e : ScopedEvent)
    (x : ResourceInfo) : Prop :=
  ∀ z, Relation.TransGen r.IsComponentOf x z →
    ∃ b ∈ c.batchesOf r kind e, b.applications.contains z.key = true

/-- An event that changes an object is resolved at the changes it reports. -/
theorem batchesOf_eq (c : WatchCache) (r : Resolver) (kind : KindDescriptor) (e : ScopedEvent) :
    c.batchesOf r kind e = (c.apply e.scope e.event).2.filterMap fun change =>
      ((change.change.mapM? (ResourceInfo.ofObject kind)).map (Batch.ofResourceChange r)).toOption
        := by
  refine List.filterMap_congr fun change hmem => ?_
  rw [Batch.ofEvent, (stands_apply hmem).latestChange_eq]

/-- The snapshots that are resolved at an event: those of the changes it makes. -/
def Resolves (c : WatchCache) (kind : KindDescriptor) (e : ScopedEvent) (y : ResourceInfo) : Prop :=
  ∃ change ∈ (c.apply e.scope e.event).2, ∃ parsed,
    change.change.mapM? (ResourceInfo.ofObject kind) = .ok parsed ∧ y ∈ Batch.resolved parsed

theorem mem_batchesOf {k : ResourceKey} :
    (∃ b ∈ c.batchesOf r kind e, b.applications.contains k = true) ↔
      ∃ y, c.Resolves kind e y ∧ (r.ancestorsOf y).contains k = true := by
  rw [batchesOf_eq]
  constructor
  · rintro ⟨b, hb, hk⟩
    obtain ⟨change, hmem, hbatch⟩ := List.mem_filterMap.mp hb
    have hok := toOption_eq_some_iff.mp hbatch
    cases hp : change.change.mapM? (ResourceInfo.ofObject kind) with
    | error f =>
      rw [hp] at hok
      cases hok
    | ok parsed =>
      rw [hp] at hok
      cases hok
      obtain ⟨y, hy, hin⟩ := Batch.contains_ofResourceChange.mp hk
      exact ⟨y, ⟨change, hmem, parsed, hp, hy⟩, hin⟩
  · rintro ⟨y, ⟨change, hmem, parsed, hp, hy⟩, hin⟩
    refine ⟨Batch.ofResourceChange r parsed, List.mem_filterMap.mpr ⟨change, hmem, ?_⟩,
      Batch.contains_ofResourceChange.mpr ⟨y, hy, hin⟩⟩
    rw [hp]
    rfl

/-- Where a version of a resource is resolved, its ancestors are covered. -/
theorem CoversFormer.of_resolves (hr : r.Proper) (hy : y.gvr ≠ r.applicationKind)
    (hres : c.Resolves kind e y) (h : SelectedLike x y) : c.CoversFormer r kind e x := by
  intro z hz
  have hin : (r.ancestorsOf y).contains z.key = true :=
    (Resolver.contains_ancestorsOf_of_ne hr hy).mpr
      ⟨z, Resolver.transGen_of_selectedLike hr hy h hz, rfl⟩
  exact mem_batchesOf.mpr ⟨y, hres, hin⟩

/-- Where one version alone is resolved, it has to be selected like the former one. -/
theorem selectedLike_of_covers {gvr : GroupVersionResource} (hx : x.gvr ≠ gvr) (hy : y.gvr ≠ gvr)
    (honly : ∀ w, c.Resolves kind e w → w = y)
    (hcovers : ∀ r : Resolver, r.applicationKind = gvr → r.Proper → c.CoversFormer r kind e x) :
    SelectedLike x y := by
  refine selectedLike_of_probes (f := {}) hy fun k => ?_
  have hown : (probe gvr x k).hasComponent {} x = true :=
    (hasComponent_probe hx).mpr ⟨.inr rfl, rfl, rfl⟩
  have hproper := Resolver.lone_proper (probe gvr x k)
  obtain ⟨w, hres, hin⟩ := mem_batchesOf.mp (hcovers _ rfl hproper _
    (.single ⟨probe gvr x k, List.mem_singleton_self _, hown, rfl⟩))
  rw [honly w hres] at hin
  obtain ⟨z, hz, -⟩ := (Resolver.contains_ancestorsOf_of_ne hproper hy).mp hin
  cases hc : (probe gvr x k).hasComponent {} y with
  | true => rfl
  | false =>
    refine absurd hz (Resolver.not_transGen fun a ha => ?_)
    rw [List.mem_singleton.mp ha]
    exact hc

/-- Where an event makes one change, the snapshots of that change are resolved. -/
theorem resolves_of_singleton {change : Change ClusterObject} {parsed : Change ResourceInfo}
    (hchanges : (c.apply e.scope e.event).2 = [⟨key, change⟩])
    (hparsed : change.mapM? (ResourceInfo.ofObject kind) = .ok parsed) (w : ResourceInfo) :
    c.Resolves kind e w ↔ w ∈ Batch.resolved parsed := by
  unfold Resolves
  rw [hchanges]
  constructor
  · rintro ⟨change', hmem, parsed', hp, hw⟩
    cases List.mem_singleton.mp hmem
    cases hp.symm.trans hparsed
    exact hw
  · exact fun hw => ⟨_, List.mem_singleton_self _, parsed, hparsed, hw⟩

/-- Storing over a cached object resolves the snapshots of that one update. -/
theorem resolves_stored {n : ClusterObject} (ho : c.objects.get? key = some o)
    (he : e.event = .apply n ∨ e.event = .initApply n) (hkey : n.key? = some key)
    (hx : ResourceInfo.ofObject kind o = .ok x) (hy : ResourceInfo.ofObject kind n = .ok y)
    (w : ResourceInfo) : c.Resolves kind e w ↔ w ∈ Batch.resolved (.updated x y) := by
  have hchanges : (c.apply e.scope e.event).2 = [⟨key, .updated o n⟩] := by
    have hto : c.changeTo key n = .updated o n := by
      unfold changeTo
      rw [ho]
    rw [← hto]
    rcases he with he | he <;> rw [he] <;> simp only [apply, hkey] <;> rfl
  have hparsed : (Change.updated o n).mapM? (ResourceInfo.ofObject kind) = .ok (.updated x y) := by
    simp only [Change.mapM?, hx, hy]
    rfl
  exact resolves_of_singleton hchanges hparsed w

/-- A deletion resolves the snapshot of the object it carries. -/
theorem resolves_removed {d : ClusterObject} (he : e.event = .delete d) (hkey : d.key? = some key)
    (hy : ResourceInfo.ofObject kind d = .ok y) (w : ResourceInfo) :
    c.Resolves kind e w ↔ w = y := by
  have hchanges : (c.apply e.scope e.event).2 = [⟨key, .deleted d⟩] := by
    rw [he]
    simp only [apply, hkey]
  have hparsed : (Change.deleted d).mapM? (ResourceInfo.ofObject kind) = .ok (.deleted y) := by
    simp only [Change.mapM?, hy]
    rfl
  rw [resolves_of_singleton hchanges hparsed w]
  exact List.mem_singleton

/-- A closed listing resolves the cached snapshot of everything it prunes. -/
theorem resolves_pruned (ho : c.objects.get? key = some o) (he : e.event = .initDone)
    (hgone : (c.apply e.scope e.event).1.objects.get? key = none)
    (hx : ResourceInfo.ofObject kind o = .ok x) : c.Resolves kind e x := by
  have heff := effect_apply c e.scope e.event
  have hparsed : (Change.deleted o).mapM? (ResourceInfo.ofObject kind) = .ok (.deleted x) := by
    simp only [Change.mapM?, hx]
    rfl
  suffices hmem : (⟨key, .deleted o⟩ : ResourceEvent) ∈ (c.apply e.scope e.event).2 from
    ⟨_, hmem, _, hparsed, List.mem_singleton_self _⟩
  generalize (c.apply e.scope e.event).1.objects = objects at hgone heff
  generalize (c.apply e.scope e.event).2 = changes at heff ⊢
  rw [he] at heff
  cases heff with
  | stored he' _ => rcases he' with he' | he' <;> exact absurd he' (by simp)
  | @pruned announced _ =>
    refine List.mem_map.mpr ⟨(key, o), ?_, rfl⟩
    cases hs : isStale e.scope announced key o with
    | true => exact SortedMap.get?_eq_some_iff.mp (SortedMap.get?_filter_eq_some.mpr ⟨ho, hs⟩)
    | false =>
      have hkept : (c.objects.filter fun key o => !isStale e.scope announced key o).get? key =
          some o := SortedMap.get?_filter_eq_some.mpr ⟨ho, by rw [hs]; rfl⟩
      rw [hgone] at hkept
      exact absurd hkept (by simp)
  | passed _ =>
    rw [ho] at hgone
    exact absurd hgone (by simp)

/-! ## 5. When the former ancestors are covered -/

/-- What has to hold of the version that an event brings, given the snapshot of the cached one: it
is selected alike wherever it is resolved in place of the cached one. -/
def Faithful (kind : KindDescriptor) (x : ResourceInfo) : WatchEvent → Prop
  | .apply o | .initApply o =>
    ∀ y, ResourceInfo.ofObject kind o = .ok y → y.labels = x.labels → SelectedLike x y
  | .delete o => ∀ y, ResourceInfo.ofObject kind o = .ok y → SelectedLike x y
  | .init | .initDone => True

/-- Storing over a cached object covers its ancestors if the labels change, and otherwise exactly
if the new version is selected alike. -/
theorem covers_stored_iff {gvr : GroupVersionResource} {n : ClusterObject} (hkind : kind.gvr ≠ gvr)
    (ho : c.objects.get? key = some o) (he : e.event = .apply n ∨ e.event = .initApply n)
    (hkey : n.key? = some key) (hx : ResourceInfo.ofObject kind o = .ok x) :
    (∀ r : Resolver, r.applicationKind = gvr → r.Proper → c.CoversFormer r kind e x) ↔
      ∀ y, ResourceInfo.ofObject kind n = .ok y → y.labels = x.labels → SelectedLike x y := by
  have hxk : x.gvr ≠ gvr := ResourceInfo.gvr_ofObject hx ▸ hkind
  constructor
  · intro h y hy hlabels
    refine selectedLike_of_covers hxk (ResourceInfo.gvr_ofObject hy ▸ hkind) (fun w hw => ?_) h
    rw [resolves_stored ho he hkey hx hy, Batch.resolved, sameLabels, hlabels] at hw
    simpa using hw
  · rintro h r rfl hr
    obtain ⟨y, hy⟩ := n.exists_snapshot hkey kind
    have hyk : y.gvr ≠ r.applicationKind := ResourceInfo.gvr_ofObject hy ▸ hkind
    by_cases hlabels : y.labels = x.labels
    · refine .of_resolves hr hyk ((resolves_stored ho he hkey hx hy y).mpr ?_) (h y hy hlabels)
      simp [Batch.resolved, sameLabels, hlabels]
    · refine .of_resolves hr hxk ((resolves_stored ho he hkey hx hy x).mpr ?_) (.refl x)
      simp [Batch.resolved, sameLabels, Ne.symm hlabels]

/-- A deletion covers the ancestors of the cached version exactly if the version it carries is
selected alike. -/
theorem covers_removed_iff {gvr : GroupVersionResource} {d : ClusterObject}
    (hkind : kind.gvr ≠ gvr) (he : e.event = .delete d) (hkey : d.key? = some key)
    (hx : ResourceInfo.ofObject kind o = .ok x) :
    (∀ r : Resolver, r.applicationKind = gvr → r.Proper → c.CoversFormer r kind e x) ↔
      ∀ y, ResourceInfo.ofObject kind d = .ok y → SelectedLike x y := by
  have hxk : x.gvr ≠ gvr := ResourceInfo.gvr_ofObject hx ▸ hkind
  constructor
  · intro h y hy
    exact selectedLike_of_covers hxk (ResourceInfo.gvr_ofObject hy ▸ hkind)
      (fun w => (resolves_removed he hkey hy w).mp) h
  · rintro h r rfl hr
    obtain ⟨y, hy⟩ := d.exists_snapshot hkey kind
    exact .of_resolves hr (ResourceInfo.gvr_ofObject hy ▸ hkind)
      ((resolves_removed he hkey hy y).mpr rfl) (h y hy)

/-- **When no former ancestor is missed.**  Take any cache that events have filled, and an event
that replaces or removes one of its objects.  Its batches hold every transitive ancestor of the
cached version, over every list of applications, exactly if the event is faithful to that version:
always where a listing prunes it or its labels change, and otherwise if the version that is
resolved instead is selected alike. -/
theorem former_ancestors_covered_iff {kind : KindDescriptor} {gvr : GroupVersionResource}
    (hkind : kind.gvr ≠ gvr) (es : List ScopedEvent) (e : ScopedEvent) {key : String}
    {o : ClusterObject} (ho : (({} : WatchCache).applyAll es).1.objects.get? key = some o)
    (hd : (({} : WatchCache).applyAll es).1.Displaces e key) :
    ∃ x, ResourceInfo.ofObject kind o = .ok x ∧
      ((∀ r : Resolver, r.applicationKind = gvr → r.Proper →
        (({} : WatchCache).applyAll es).1.CoversFormer r kind e x) ↔ Faithful kind x e.event) := by
  have hkeyed := keyed_empty.applyAll es
  generalize (({} : WatchCache).applyAll es).1 = c at ho hd hkeyed ⊢
  obtain ⟨x, hx⟩ := o.exists_snapshot (hkeyed key o ho) kind
  have hxk : x.gvr ≠ gvr := ResourceInfo.gvr_ofObject hx ▸ hkind
  refine ⟨x, hx, ?_⟩
  rcases displaces_cases ho hd with ⟨n, he, hkey⟩ | ⟨d, he, hkey⟩ | ⟨he, hgone⟩
  · have h := covers_stored_iff hkind ho he hkey hx
    rcases he with he | he <;> rw [he] <;> exact h
  · have h := covers_removed_iff (c := c) hkind he hkey hx
    rw [he]
    exact h
  · rw [he]
    refine iff_of_true (fun r hr hproper => ?_) trivial
    exact .of_resolves hproper (hr ▸ hxk) (resolves_pruned ho he hgone hx) (.refl x)

/-- The kind of the sample objects. -/
def deployments : KindDescriptor := ⟨⟨"apps", "v1", "deployments"⟩, "Deployment", true⟩

/-- A deployment that names its type and has one label. -/
def sampleDeployment (types : Option TypeNames) (app : String) : ClusterObject where
  types := types
  metadata := {
    name := some "web"
    «namespace» := some "default"
    labels := some { entries := [("app", app)], ascending := List.pairwise_singleton _ _ } }

/-- An application of the deployments that are labelled `app: web`. -/
def sampleOwner : Application where
  resource := {
    gvr := ⟨"app.k8s.io", "v1beta1", "applications"⟩
    kind := "Application"
    «namespace» := "default"
    name := "shop" }
  componentKinds := [⟨"apps", "Deployment"⟩]
  matchLabels := { entries := [("app", "web")], ascending := List.pairwise_singleton _ _ }

/-- The cached version of the sample deployment. -/
def sampleCached : ClusterObject := sampleDeployment (some ⟨"apps/v1", "Deployment"⟩) "web"

/-- A deletion that carries the cached version without its type covers the application. -/
theorem former_ancestors_covered_untyped :
    ∃ x, ResourceInfo.ofObject deployments sampleCached = .ok x ∧
      (({} : WatchCache).applyAll [⟨"", .apply sampleCached⟩]).1.CoversFormer
        (Resolver.lone sampleOwner) deployments ⟨"", .delete (sampleDeployment none "web")⟩ x := by
  obtain ⟨x, hx, hiff⟩ := @former_ancestors_covered_iff deployments
    ⟨"app.k8s.io", "v1beta1", "applications"⟩ (by decide) [⟨"", .apply sampleCached⟩]
    ⟨"", .delete (sampleDeployment none "web")⟩ "default/web" sampleCached rfl (.inl rfl)
  refine ⟨x, hx, hiff.mpr ?_ _ rfl (Resolver.lone_proper _)⟩
  intro y hy
  cases hx
  cases hy
  exact ⟨rfl, .inr rfl, fun _ => rfl⟩

/-- An application that selects the former version and is in no batch is missed. -/
theorem not_coversFormer (hx : a.hasComponent {} x = true)
    (hmiss : ∀ b ∈ c.batchesOf (Resolver.lone a) kind e, b.applications.contains a.key = false) :
    ¬ c.CoversFormer (Resolver.lone a) kind e x := by
  intro hcovers
  obtain ⟨b, hb, hin⟩ := hcovers a.resource (.single ⟨a, List.mem_singleton_self _, hx, rfl⟩)
  exact absurd hin (by rw [show a.resource.key = a.key from rfl, hmiss b hb]; simp)

/-- An update that keeps the labels but names another kind, and a deletion that carries other
labels, both miss the application of the cached version. -/
theorem former_ancestor_missed :
    let c := (({} : WatchCache).applyAll [⟨"", .apply sampleCached⟩]).1
    let update : ScopedEvent := ⟨"", .apply (sampleDeployment (some ⟨"apps/v1", "Rollout"⟩) "web")⟩
    let deletion : ScopedEvent := ⟨"", .delete (sampleDeployment none "api")⟩
    deployments.gvr ≠ (Resolver.lone sampleOwner).applicationKind ∧
      (Resolver.lone sampleOwner).Proper ∧ c.objects.get? "default/web" = some sampleCached ∧
      c.Displaces update "default/web" ∧ c.Displaces deletion "default/web" ∧
      ∃ x, ResourceInfo.ofObject deployments sampleCached = .ok x ∧
        ¬ c.CoversFormer (Resolver.lone sampleOwner) deployments update x ∧
        ¬ c.CoversFormer (Resolver.lone sampleOwner) deployments deletion x := by
  intro c update deletion
  refine ⟨by decide, Resolver.lone_proper _, rfl, .inl rfl, .inl rfl, _, rfl, ?_, ?_⟩
  · exact not_coversFormer (by decide) (by decide)
  · exact not_coversFormer (by decide) (by decide)

end WatchCache

end AppWatch
