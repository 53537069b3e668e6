/-
# The applications in a cache

`Registry.snapshot` parses whatever is cached for the application kind.  As every object is cached
under its own key, the parsed list is a proper one: no two of its applications have one identity
(`snapshot_proper`).  So what is known of the ancestor walk over proper lists holds for every
resolver that the engine makes.
-/
import AppWatch.Proofs.Ancestors
import AppWatch.Proofs.Batches
import AppWatch.Proofs.Cache
import AppWatch.Watch.Registry

namespace AppWatch

namespace Application

variable {kind : KindDescriptor} {namespacesKey : String} {o : ClusterObject} {a : Application}

/-- An application carries the snapshot of the object from which it is parsed. -/
theorem resource_ofObject (h : ofObject kind namespacesKey o = .ok a) :
    ResourceInfo.ofObject kind o = .ok a.resource := by
  obtain ⟨x, hx, h⟩ := exists_of_bind_eq_ok h
  split at h
  · exact absurd h (by simp)
  · split at h
    · exact absurd h (by simp)
    · cases h
      exact hx

/-- The identity of an application determines the key of its object. -/
theorem key?_of_ofObject (h : ofObject kind namespacesKey o = .ok a) :
    o.key? = some a.key.objectKey :=
  ResourceInfo.key?_of_ofObject (resource_ofObject h)

end Application

namespace Registry

variable {r : Registry} {gvr : GroupVersionResource} {key : String} {o : ClusterObject}
  {a : Application}

/-- The object that is cached for a kind under a key. -/
def cached (r : Registry) (gvr : GroupVersionResource) (key : String) : Option ClusterObject :=
  (r.watcher? gvr).bind fun w => w.cache.objects.get? key

theorem mem_objects : o ∈ r.objects gvr ↔ ∃ key, r.cached gvr key = some o := by
  unfold objects cached
  cases r.watcher? gvr with
  | none => simp
  | some w => simp [Watcher.objects, SortedMap.values, SortedMap.get?_eq_some_iff]

/-- The parsed applications are those whose objects parse, in the order of the objects. -/
theorem parseApplications_eq (r : Registry) (os : List ClusterObject) :
    (r.parseApplications os).1 = os.filterMap fun o =>
      (Application.ofObject r.applicationKind r.namespacesKey o).toOption := by
  induction os with
  | nil => rfl
  | cons o os ih =>
    simp only [parseApplications, List.filterMap_cons]
    cases Application.ofObject r.applicationKind r.namespacesKey o with
    | error f => exact ih
    | ok a => exact congrArg (a :: ·) ih

theorem mem_snapshot : a ∈ r.snapshot.1 ↔
    ∃ key o, r.cached r.applicationKind.gvr key = some o ∧
      Application.ofObject r.applicationKind r.namespacesKey o = .ok a := by
  simp only [snapshot, parseApplications_eq, List.mem_filterMap, mem_objects,
    toOption_eq_some_iff]
  constructor
  · rintro ⟨o, ⟨key, ho⟩, ha⟩
    exact ⟨key, o, ho, ha⟩
  · rintro ⟨key, o, ho, ha⟩
    exact ⟨o, ⟨key, ho⟩, ha⟩

/-- The objects of a cache whose objects stand under their own keys have different keys. -/
theorem pairwise_key?_objects (hkeyed : ∀ w, r.watcher? gvr = some w → w.cache.Keyed) :
    (r.objects gvr).Pairwise fun o o' => o.key? ≠ o'.key? := by
  unfold objects
  cases hw : r.watcher? gvr with
  | none => exact List.Pairwise.nil
  | some w =>
    refine List.pairwise_map.mpr (List.Pairwise.imp_of_mem ?_ w.cache.objects.ascending)
    intro e e' he he' hlt heq
    rw [hkeyed w hw _ _ (SortedMap.get?_eq_some_iff.mpr he),
      hkeyed w hw _ _ (SortedMap.get?_eq_some_iff.mpr he')] at heq
    rw [Option.some.inj heq] at hlt
    simp at hlt

/-- **A resolver over a snapshot is proper.** -/
theorem snapshot_proper (hkeyed : ∀ w, r.watcher? r.applicationKind.gvr = some w → w.cache.Keyed) :
    (r.resolver r.snapshot.1).Proper where
  kind a ha := by
    obtain ⟨key, o, -, hparsed⟩ := mem_snapshot.mp ha
    exact ResourceInfo.gvr_ofObject (Application.resource_ofObject hparsed)
  distinct := by
    refine List.pairwise_map.mpr ?_
    change List.Pairwise _ (r.parseApplications _).1
    rw [parseApplications_eq]
    refine List.Pairwise.filterMap _ ?_ (pairwise_key?_objects hkeyed)
    intro o o' hne a ha a' ha' heq
    have hkey := Application.key?_of_ofObject (toOption_eq_some_iff.mp ha)
    have hkey' := Application.key?_of_ofObject (toOption_eq_some_iff.mp ha')
    exact hne (hkey.trans (heq ▸ hkey'.symm))

/-- The entry of a list with the identity of a cached object is parsed from that object. -/
theorem resource_eq_of_mem_snapshot {x : ResourceInfo}
    (hkeyed : ∀ w, r.watcher? r.applicationKind.gvr = some w → w.cache.Keyed)
    (ho : r.cached r.applicationKind.gvr key = some o)
    (hx : ResourceInfo.ofObject r.applicationKind o = .ok x) (ha : a ∈ r.snapshot.1)
    (hk : a.key = x.key) : a.resource = x := by
  obtain ⟨key', o', ho', hparsed⟩ := mem_snapshot.mp ha
  obtain ⟨w, hw, hget⟩ := Option.bind_eq_some_iff.mp ho
  obtain ⟨w', hw', hget'⟩ := Option.bind_eq_some_iff.mp ho'
  obtain rfl : w = w' := Option.some.inj (hw.symm.trans hw')
  have hres := Application.resource_ofObject hparsed
  have hsame : some key = some key' := by
    rw [← hkeyed w hw _ _ hget, ← hkeyed w hw _ _ hget', ResourceInfo.key?_of_ofObject hx,
      Application.key?_of_ofObject hparsed]
    exact congrArg (fun k : ResourceKey => some k.objectKey) hk.symm
  rw [Option.some.inj hsame, hget'] at hget
  rw [Option.some.inj hget, hx] at hres
  exact (Except.ok.inj hres).symm

end Registry

end AppWatch
