/-
# Both snapshots of an update

An update shows one resource twice, and the applications above the old snapshot need not be those
above the new one.  The batch has to hold both.

* **A resource that is no application.**  Its old snapshot is resolved only if the labels have
  changed.  Nothing is lost by that: of such a resource the walk sees the kind name, the namespace
  and the values of the labels (`SelectedLike`), and nothing else of it makes a difference higher
  up.  A walk from the old snapshot would have found what the one from the new snapshot finds
  (`Batch.ofResourceChange_updated`).
* **An application.**  Both snapshots are resolved, each from an empty collection.  The application
  is the root of both walks.  The list may have a third snapshot of it, and a cycle may lead a walk
  back to it, but either walk leaves it by the labels of its own root only
  (`Batch.ofApplicationChange_updated`).

Off the keys of their roots two walks find entries of one list, so where both find something under a
key they have found the same, and what is merged of them is the union
(`Resolver.get?_merge_ancestorsOf`).
-/
import AppWatch.Proofs.Contents
import AppWatch.Proofs.FormerAncestors

namespace AppWatch

/-! ## 1. What two walks find together -/

/-- To merge the same entries once more changes nothing. -/
theorem SortedMap.merge_merge_self {κ α : Type} [Ord κ] [Std.TransOrd κ] [Std.LawfulEqOrd κ]
    (m n : SortedMap κ α) : (m.merge n).merge n = m.merge n := by
  rw [merge_assoc, merge_self]

namespace Resolver

variable {r : Resolver} {x y v : ResourceInfo} {k : ResourceKey}

/-- Off the key of its root a walk finds the entries of the list that are above the root. -/
theorem get?_ancestorsOf_of_ne (hr : r.Proper) (hk : x.gvr = r.applicationKind → k ≠ x.key) :
    (r.ancestorsOf x).get? k = some v ↔
      ∃ a ∈ r.applications, k = a.key ∧ v = a.resource ∧ r.Above .empty x a.resource := by
  rw [get?_ancestorsOf_iff hr]
  constructor
  · rintro (⟨hgvr, he, -⟩ | ⟨-, rfl, habove⟩)
    · exact absurd he (hk hgvr)
    · obtain ⟨y, a, ha, -, rfl⟩ := habove.isComponentOf
      exact ⟨a, ha, rfl, rfl, habove⟩
  · rintro ⟨a, -, rfl, rfl, habove⟩
    refine .inr ⟨fun he => hk ?_ he, rfl, habove⟩
    exact (congrArg ResourceKey.gvr he.symm).trans (habove.gvr_eq hr)

/-- **Off the keys of their roots two walks are merged to the union of what they find.** -/
theorem get?_merge_ancestorsOf (hr : r.Proper) (hx : x.gvr = r.applicationKind → k ≠ x.key)
    (hy : y.gvr = r.applicationKind → k ≠ y.key) :
    ((r.ancestorsOf x).merge (r.ancestorsOf y)).get? k = some v ↔
      ∃ a ∈ r.applications, k = a.key ∧ v = a.resource ∧
        (r.Above .empty x a.resource ∨ r.Above .empty y a.resource) := by
  rw [SortedMap.get?_merge, Option.or_eq_some_iff, get?_ancestorsOf_of_ne hr hx]
  constructor
  · rintro (h | ⟨-, a, ha, hk, hv, habove⟩)
    · obtain ⟨a, ha, hk, hv, habove⟩ := (get?_ancestorsOf_of_ne hr hy).mp h
      exact ⟨a, ha, hk, hv, .inr habove⟩
    · exact ⟨a, ha, hk, hv, .inl habove⟩
  · rintro ⟨a, ha, hk, hv, habove | habove⟩
    · cases hboth : (r.ancestorsOf y).get? k with
      | none => exact .inr ⟨rfl, a, ha, hk, hv, habove⟩
      | some w =>
        -- both walks have found the entry that the list has under the key
        obtain ⟨b, hb, hkb, hw, -⟩ := (get?_ancestorsOf_of_ne hr hy).mp hboth
        rw [hv, hw, hr.eq_of_key_eq hb ha (hkb.symm.trans hk)]
        exact .inl rfl
    · exact .inl ((get?_ancestorsOf_of_ne hr hy).mpr ⟨a, ha, hk, hv, habove⟩)

/-- **Snapshots that are selected alike have the same ancestors.** -/
theorem ancestorsOf_eq_of_selectedLike (hr : r.Proper) (hx : x.gvr ≠ r.applicationKind)
    (hy : y.gvr ≠ r.applicationKind) (h : SelectedLike x y) (h' : SelectedLike y x) :
    r.ancestorsOf x = r.ancestorsOf y := by
  have habove : ∀ z, r.Above .empty x z ↔ r.Above .empty y z := fun z => by
    rw [above_empty_iff (hr.entry_eq_of_ne hx), above_empty_iff (hr.entry_eq_of_ne hy)]
    exact ⟨transGen_of_selectedLike hr hy h, transGen_of_selectedLike hr hx h'⟩
  refine SortedMap.ext_get? fun k => Option.ext fun v => ?_
  rw [get?_ancestorsOf_of_ne hr fun hgvr => absurd hgvr hx,
    get?_ancestorsOf_of_ne hr fun hgvr => absurd hgvr hy]
  simp only [habove]

end Resolver

namespace Batch

variable {r : Resolver} {old new : ResourceInfo}

/-- What the batch has when both snapshots are resolved. -/
theorem applications_addApplications_empty (found found' : FoundApplications) :
    ((empty.addApplications found).addApplications found').applications = found.merge found' :=
  congrArg (SortedMap.merge · found') (SortedMap.empty_merge found)

/-! ## 2. A resource that is no application -/

/-- The batch of an update for which both snapshots are resolved, whatever their labels. -/
def ofBoth (r : Resolver) (old new : ResourceInfo) : Batch :=
  ((empty.addApplications (r.ancestorsOf old)).addApplications (r.ancestorsOf new)).addResource new

/-- **The old snapshot may be passed over while the labels are the same.**  The batch of an update
to a resource that keeps its identity and kind name is the one for which both snapshots are
resolved; so its applications are the entries of the list that contain the one or the other. -/
theorem ofResourceChange_updated (hr : r.Proper) (hgvr : old.gvr ≠ r.applicationKind)
    (hkey : old.key = new.key) (hkind : old.kind = new.kind) :
    ofResourceChange r (.updated old new) = ofBoth r old new ∧
      ∀ k v, (ofResourceChange r (.updated old new)).applications.get? k = some v ↔
        ∃ a ∈ r.applications, k = a.key ∧ v = a.resource ∧
          (Relation.TransGen r.IsComponentOf old a.resource ∨
            Relation.TransGen r.IsComponentOf new a.resource) := by
  have hsame : old.gvr = new.gvr := congrArg ResourceKey.gvr hkey
  have hnew : new.gvr ≠ r.applicationKind := hsame ▸ hgvr
  have hns : old.«namespace» = new.«namespace» := congrArg ResourceKey.«namespace» hkey
  have hboth : ofResourceChange r (.updated old new) = ofBoth r old new := by
    unfold ofResourceChange
    by_cases hlabels : old.labels = new.labels
    · have hlike : SelectedLike old new := ⟨hkind.symm, .inr hns.symm, fun _ => by rw [hlabels]⟩
      have hlike' : SelectedLike new old := ⟨hkind, .inr hns, fun _ => by rw [hlabels]⟩
      have hanc := Resolver.ancestorsOf_eq_of_selectedLike hr hgvr hnew hlike hlike'
      simp only [sameLabels, hlabels, decide_true, if_true, ofBoth, hanc, addApplications,
        SortedMap.merge_merge_self]
    · simp [sameLabels, hlabels, ofBoth]
  refine ⟨hboth, fun k v => ?_⟩
  have hmerge : (ofBoth r old new).applications =
      (r.ancestorsOf old).merge (r.ancestorsOf new) := applications_addApplications_empty _ _
  rw [hboth, hmerge, Resolver.get?_merge_ancestorsOf hr (fun h => absurd h hgvr)
    fun h => absurd h hnew]
  simp only [Resolver.above_empty_iff (hr.entry_eq_of_ne hgvr),
    Resolver.above_empty_iff (hr.entry_eq_of_ne hnew)]

/-- An application of the deployments that have no label `part-of`. -/
def sampleStrays : Application where
  resource := {
    gvr := ⟨"app.k8s.io", "v1beta1", "applications"⟩
    kind := "Application"
    «namespace» := "default"
    name := "strays" }
  componentKinds := [⟨"apps", "Deployment"⟩]
  matchExpressions := [⟨"part-of", .absent, []⟩]

/-- A deployment without labels. -/
def sampleStray : ResourceInfo where
  gvr := ⟨"apps", "v1", "deployments"⟩
  kind := "Deployment"
  «namespace» := "default"
  name := "web"

/-- Neither version of the deployment has a label set, so the old one is passed over; its
application is in the batch all the same. -/
theorem ofResourceChange_updated_unlabelled :
    let r := Resolver.lone sampleStrays
    let newer := { sampleStray with metadata := .bool true }
    r.Proper ∧ sampleStray.gvr ≠ r.applicationKind ∧ sampleStray.key = newer.key ∧
      sampleStray.kind = newer.kind ∧
      ofResourceChange r (.updated sampleStray newer) = ofBoth r sampleStray newer ∧
      (ofResourceChange r (.updated sampleStray newer)).applications.get? sampleStrays.key =
        some sampleStrays.resource := by
  intro r newer
  have hproper : r.Proper := Resolver.lone_proper sampleStrays
  have hgvr : sampleStray.gvr ≠ r.applicationKind := by decide
  have hkey : sampleStray.key = newer.key := rfl
  obtain ⟨hboth, hentries⟩ := ofResourceChange_updated hproper hgvr hkey rfl
  have hstep : r.IsComponentOf sampleStray sampleStrays.resource :=
    ⟨sampleStrays, List.mem_singleton_self _, by decide, rfl⟩
  exact ⟨hproper, hgvr, hkey, rfl, hboth, (hentries _ _).mpr
    ⟨sampleStrays, List.mem_singleton_self _, rfl, rfl, .inl (.single hstep)⟩⟩

/-! ## 3. An application -/

/-- **Both parent sets are covered.**  The applications of the batch of an update to an application
are the application itself, in its new snapshot, and under their own entries of the list all that
are above the old snapshot or above the new one, where a walk that comes back to the application
goes on by the labels of its own root only.  There is no other resource in the batch. -/
theorem ofApplicationChange_updated (hr : r.Proper) (hgvr : old.gvr = r.applicationKind)
    (hkey : old.key = new.key) :
    let b := ofApplicationChange r (.updated old new)
    (∀ k, b.applications.contains k = true ↔ k = new.key ∨ ∃ a ∈ r.applications, k = a.key ∧
      (r.Above .empty old a.resource ∨ r.Above .empty new a.resource)) ∧
    b.applications.get? new.key = some new ∧
    (∀ a ∈ r.applications, a.key ≠ new.key → b.applications.contains a.key = true →
      b.applications.get? a.key = some a.resource) ∧
    b.resources = .empty := by
  intro b
  have hsame : old.gvr = new.gvr := congrArg ResourceKey.gvr hkey
  have hlatest : (Change.updated old new).latest.gvr = r.applicationKind := hsame ▸ hgvr
  have hmerge : b.applications = (r.ancestorsOf old).merge (r.ancestorsOf new) :=
    applications_addApplications_empty _ _
  have hown : b.applications.get? new.key = some new := get?_ofApplicationChange hr hlatest
  have hother : ∀ {k v}, k ≠ new.key → (b.applications.get? k = some v ↔
      ∃ a ∈ r.applications, k = a.key ∧ v = a.resource ∧
        (r.Above .empty old a.resource ∨ r.Above .empty new a.resource)) := by
    intro k v hk
    rw [hmerge, Resolver.get?_merge_ancestorsOf hr (fun _ => hkey ▸ hk) fun _ => hk]
  refine ⟨fun k => ?_, hown, fun a ha hne hin => ?_, resources_ofApplicationChange _ _⟩
  · rw [SortedMap.contains, Option.isSome_iff_exists]
    by_cases hk : k = new.key
    · exact iff_of_true ⟨new, hk ▸ hown⟩ (.inl hk)
    · simp only [hother hk, hk, false_or]
      constructor
      · rintro ⟨v, a, ha, hka, -, habove⟩
        exact ⟨a, ha, hka, habove⟩
      · rintro ⟨a, ha, hka, habove⟩
        exact ⟨_, a, ha, hka, rfl, habove⟩
  · obtain ⟨v, hv⟩ := Option.isSome_iff_exists.mp hin
    obtain ⟨a', ha', hka, rfl, -⟩ := (hother hne).mp hv
    rw [hv, hr.eq_of_key_eq ha' ha hka.symm]

/-- The shop is in the list as it was when it belonged to the plaza; the mall is a component of the
shop, and the shop may be one of the mall. -/
def sampleStale : Resolver where
  applicationKind := ⟨"app.k8s.io", "v1beta1", "applications"⟩
  applications := [Resolver.sampleApplication "shop" "plaza" "shop",
    Resolver.sampleApplication "mall" "shop" "mall",
    Resolver.sampleApplication "arcade" "city" "arcade",
    Resolver.sampleApplication "plaza" "city" "plaza"]
  filter := {}

/-- When the shop moves from the mall to the arcade, both are in the batch.  The walk from the old
snapshot comes back to the shop, and still the plaza is above neither snapshot. -/
theorem ofApplicationChange_updated_moving :
    let old := (Resolver.sampleApplication "shop" "mall" "shop").resource
    let new := (Resolver.sampleApplication "shop" "arcade" "shop").resource
    let mall := Resolver.sampleApplication "mall" "shop" "mall"
    let arcade := Resolver.sampleApplication "arcade" "city" "arcade"
    let b := ofApplicationChange sampleStale (.updated old new)
    sampleStale.Proper ∧ old.gvr = sampleStale.applicationKind ∧ old.key = new.key ∧
      b.applications.get? new.key = some new ∧
      b.applications.get? mall.key = some mall.resource ∧
      b.applications.contains arcade.key = true ∧
      ¬ ∃ a ∈ sampleStale.applications,
        (Resolver.sampleApplication "plaza" "city" "plaza").key = a.key ∧
          (sampleStale.Above .empty old a.resource ∨ sampleStale.Above .empty new a.resource) := by
  intro old new mall arcade b
  have hproper : sampleStale.Proper := ⟨by decide, by decide⟩
  have hgvr : old.gvr = sampleStale.applicationKind := rfl
  have hkey : old.key = new.key := rfl
  obtain ⟨hkeys, hown, hentries, -⟩ := ofApplicationChange_updated hproper hgvr hkey
  have hmall : sampleStale.Above .empty old mall.resource :=
    .single ⟨⟨mall, by decide, by decide, rfl⟩, rfl, fun _ => rfl⟩
  have harcade : sampleStale.Above .empty new arcade.resource :=
    .single ⟨⟨arcade, by decide, by decide, rfl⟩, rfl, fun _ => rfl⟩
  refine ⟨hproper, hgvr, hkey, hown, ?_,
    (hkeys _).mpr (.inr ⟨arcade, by decide, rfl, .inr harcade⟩), fun hplaza => ?_⟩
  · exact hentries mall (by decide) (by decide)
      ((hkeys _).mpr (.inr ⟨mall, by decide, rfl, .inl hmall⟩))
  · exact absurd ((hkeys _).mpr (.inr hplaza)) (by decide +kernel)

end Batch

end AppWatch
