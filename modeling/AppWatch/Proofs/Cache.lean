/-
# What a watch event does to a cache

An event stores an object, removes one, prunes a whole scope, or leaves the cached objects alone.
`Effect` says for each of the four which changes the event makes, and `effect_apply` that there is
no fifth.  Everything else about the cache of a kind follows from the four cases:

* an object is cached under its own key only (`Keyed.applyAll`);
* whatever is cached after an event and was not before is the latest snapshot of the one change
  the event makes (`get?_apply`);
* the changes of an event stand when it is applied: the cache holds the version that each of them
  brings (`stands_apply`), and a handler is given that one (`Stands.latestChange_eq`).
-/
import AppWatch.Resource
import AppWatch.Watch.Cache

namespace AppWatch

/-! ## 1. Objects and their snapshots -/

/-- The key under which a resource is cached among those of its kind. -/
def ResourceKey.objectKey (k : ResourceKey) : String :=
  if k.«namespace» = "" then k.name else k.«namespace» ++ "/" ++ k.name

variable {kind : KindDescriptor} {o : ClusterObject} {x : ResourceInfo}

/-- An object with a key has a snapshot. -/
theorem ClusterObject.exists_snapshot {key : String} (h : o.key? = some key)
    (kind : KindDescriptor) : ∃ x, ResourceInfo.ofObject kind o = .ok x := by
  obtain ⟨name, hn, -⟩ := Option.map_eq_some_iff.mp h
  exact ⟨_, by rw [ResourceInfo.ofObject, hn]⟩

namespace ResourceInfo

/-- A snapshot is of the kind it was taken for. -/
theorem gvr_ofObject (h : ofObject kind o = .ok x) : x.gvr = kind.gvr := by
  unfold ofObject at h
  split at h
  · exact absurd h (by simp)
  · rw [← Except.ok.inj h]

/-- The identity of a snapshot determines the key of the object. -/
theorem key?_of_ofObject (h : ofObject kind o = .ok x) : o.key? = some x.key.objectKey := by
  unfold ofObject at h
  split at h
  · exact absurd h (by simp)
  · next name hn =>
    rw [← Except.ok.inj h]
    simp only [ClusterObject.key?, hn, Option.map_some, ResourceKey.objectKey, key]
    cases o.metadata.«namespace» <;> rfl

end ResourceInfo

/-- The version of its object that a change brings; a deletion brings none. -/
def ResourceEvent.version? (e : ResourceEvent) : Option ClusterObject :=
  match e.change with
  | .added o | .updated _ o => some o
  | .deleted _ => none

namespace WatchCache

/-! ## 2. The effect of one event -/

/-- Every object is cached under its own key. -/
def Keyed (c : WatchCache) : Prop :=
  ∀ key o, c.objects.get? key = some o → o.key? = some key

/-- The change that storing an object under a key makes. -/
def changeTo (c : WatchCache) (key : String) (o : ClusterObject) : Change ClusterObject :=
  match c.objects.get? key with
  | none => .added o
  | some old => .updated old o

/-- What becomes of the cached objects at an event of a scope, and the changes it makes. -/
inductive Effect (c : WatchCache) (scope : String) :
    WatchEvent → SortedMap String ClusterObject → List ResourceEvent → Prop where
  /-- The object is stored under its key. -/
  | stored {e : WatchEvent} {o : ClusterObject} {key : String}
      (he : e = .apply o ∨ e = .initApply o) (hkey : o.key? = some key) :
      Effect c scope e (c.objects.insert key o) [⟨key, c.changeTo key o⟩]
  /-- Whatever is cached under the key of the object is removed. -/
  | removed {o : ClusterObject} {key : String} (hkey : o.key? = some key) :
      Effect c scope (.delete o) (c.objects.erase key) [⟨key, .deleted o⟩]
  /-- The objects of the scope that were not announced are removed. -/
  | pruned {announced : SortedSet String} (hopen : c.listings.get? scope = some announced) :
      Effect c scope .initDone (c.objects.filter fun key o => !isStale scope announced key o)
        ((c.objects.filter (isStale scope announced)).entries.map fun (key, o) => ⟨key, .deleted o⟩)
  /-- The event opens a listing, closes none, or carries an object without a name. -/
  | passed {e : WatchEvent} (hnone : e.object?.bind ClusterObject.key? = none) :
      Effect c scope e c.objects []

/-- **The four effects are all there is.** -/
theorem effect_apply (c : WatchCache) (scope : String) (e : WatchEvent) :
    Effect c scope e (c.apply scope e).1.objects (c.apply scope e).2 := by
  cases e with
  | init => exact .passed rfl
  | initApply o =>
    cases hkey : o.key? with
    | none =>
      simp only [apply, hkey]
      exact .passed hkey
    | some key =>
      simp only [apply, hkey]
      exact .stored (.inr rfl) hkey
  | initDone =>
    cases hopen : c.listings.get? scope with
    | none =>
      simp only [apply, closeListing, hopen]
      exact .passed rfl
    | some announced =>
      simp only [apply, closeListing, hopen]
      exact .pruned hopen
  | apply o =>
    cases hkey : o.key? with
    | none =>
      simp only [apply, hkey]
      exact .passed hkey
    | some key =>
      simp only [apply, hkey]
      exact .stored (.inl rfl) hkey
  | delete o =>
    cases hkey : o.key? with
    | none =>
      simp only [apply, hkey]
      exact .passed hkey
    | some key =>
      simp only [apply, hkey]
      exact .removed hkey

variable {c : WatchCache} {scope key : String} {e : WatchEvent}

/-- Whatever is cached after an event was cached before, or the event has stored it and made one
change. -/
theorem get?_apply (h : (c.apply scope e).1.objects.get? key = some o) :
    c.objects.get? key = some o ∨
      o.key? = some key ∧ (c.apply scope e).2 = [⟨key, c.changeTo key o⟩] := by
  have heff := effect_apply c scope e
  generalize (c.apply scope e).1.objects = objects at h heff
  generalize (c.apply scope e).2 = changes at heff
  cases heff with
  | stored _ hkey =>
    rw [SortedMap.get?_insert] at h
    split at h
    · next he =>
      cases he
      cases h
      exact .inr ⟨hkey, rfl⟩
    · exact .inl h
  | removed _ =>
    rw [SortedMap.get?_erase] at h
    split at h
    · exact absurd h (by simp)
    · exact .inl h
  | pruned _ => exact .inl (SortedMap.get?_filter_eq_some.mp h).1
  | passed _ => exact .inl h

/-! ## 3. Along a run of events -/

theorem keyed_empty : Keyed {} := fun _ _ h => absurd h (by simp)

theorem Keyed.apply (hc : c.Keyed) (scope : String) (e : WatchEvent) :
    (c.apply scope e).1.Keyed := fun key o h => by
  rcases get?_apply h with hold | ⟨hkey, -⟩
  · exact hc key o hold
  · exact hkey

theorem Keyed.applyAll (hc : c.Keyed) (es : List ScopedEvent) : (c.applyAll es).1.Keyed := by
  induction es generalizing c with
  | nil => exact hc
  | cons e es ih => exact ih (hc.apply e.scope e.event)

/-! ## 4. Changes that stand -/

theorem version?_changeTo (c : WatchCache) (key : String) (o : ClusterObject) :
    ResourceEvent.version? ⟨key, c.changeTo key o⟩ = some o := by
  unfold changeTo
  cases c.objects.get? key <;> rfl

/-- The version that a change brings is the one that is cached. -/
def Stands (c : WatchCache) (change : ResourceEvent) : Prop :=
  ∀ o, change.version? = some o → c.objects.get? change.key = some o

variable {change : ResourceEvent}

/-- A change that stands is handled as it was logged. -/
theorem Stands.latestChange_eq (h : c.Stands change) : c.latestChange change = change.change := by
  unfold latestChange
  cases hchange : change.change with
  | added o =>
    have hversion : change.version? = some o := by rw [ResourceEvent.version?, hchange]
    simp only [h o hversion]
  | updated old o =>
    have hversion : change.version? = some o := by rw [ResourceEvent.version?, hchange]
    simp only [h o hversion]
  | deleted o => rfl

/-- **The changes of an event all stand when it is applied.**  The worker applies its next event
only after the changes of this one are handled, so this is what each handler call sees. -/
theorem stands_apply (h : change ∈ (c.apply scope e).2) : (c.apply scope e).1.Stands change := by
  intro version hversion
  have heff := effect_apply c scope e
  generalize (c.apply scope e).1.objects = objects at heff ⊢
  generalize (c.apply scope e).2 = changes at h heff
  cases heff with
  | @stored _ o key _ _ =>
    cases List.mem_singleton.mp h
    rw [version?_changeTo] at hversion
    cases hversion
    exact SortedMap.get?_insert_self ..
  | removed _ =>
    cases List.mem_singleton.mp h
    cases hversion
  | pruned _ =>
    obtain ⟨entry, -, rfl⟩ := List.mem_map.mp h
    cases hversion
  | passed _ => exact absurd h (by simp)

end WatchCache

end AppWatch
