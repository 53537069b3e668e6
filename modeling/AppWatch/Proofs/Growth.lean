/-
# Registries grow

While the engine runs without being stopped its registry gains watchers, scopes and permitted
namespaces, and loses nothing.  What matters about a watcher besides its scopes is its core: the
kind, the cache and what the worker is doing.  `Registry.Extends` says that one registry has come
from another with every core as it was, except for new watchers, which start from an empty cache
and with an idle worker.  Everything a party does between two waits is such a growth, apart from
the event that a worker takes.
-/
import AppWatch.Watch.System

namespace AppWatch

/-! ## 1. Cores -/

/-- What a watcher is, apart from the scopes it reads. -/
structure Core where
  kind : KindDescriptor
  cache : WatchCache
  worker : Worker

/-- The core of a watcher. -/
def Watcher.core (w : Watcher) : Core := ⟨w.kind, w.cache, w.worker⟩

/-- The kind and the cache. -/
def Core.body (c : Core) : KindDescriptor × WatchCache := (c.kind, c.cache)

/-- The core of a new watcher. -/
def Core.fresh (kind : KindDescriptor) : Core := ⟨kind, {}, .idle⟩

namespace Registry

variable {r r' r'' : Registry} {gvr : GroupVersionResource} {w : Watcher} {c : Core}

/-- The core of the watcher of a kind. -/
def core? (r : Registry) (gvr : GroupVersionResource) : Option Core :=
  (r.watcher? gvr).map Watcher.core

theorem core?_of_watcher? (h : r.watcher? gvr = some w) : r.core? gvr = some w.core := by
  rw [core?, h]
  rfl

theorem exists_watcher_of_core? (h : r.core? gvr = some c) :
    ∃ w, r.watcher? gvr = some w ∧ w.core = c :=
  Option.map_eq_some_iff.mp h

/-- The cached objects of a kind are those in its core. -/
theorem objects_eq (r : Registry) (gvr : GroupVersionResource) :
    r.objects gvr = match r.core? gvr with
      | none => []
      | some c => c.cache.objects.values := by
  unfold objects core?
  cases r.watcher? gvr <;> rfl

/-! ## 2. Growth -/

/-- Two registries have been configured alike. -/
structure SameSettings (r r' : Registry) : Prop where
  applicationKind : r'.applicationKind = r.applicationKind
  namespacesKey : r'.namespacesKey = r.namespacesKey
  global : r'.filter.global = r.filter.global

/-- A registry has grown from another: every core is as it was, or that of a new watcher. -/
structure Extends (r r' : Registry) : Prop extends r.SameSettings r' where
  core : ∀ gvr, r'.core? gvr = r.core? gvr ∨
    r.core? gvr = none ∧ ∃ kind : KindDescriptor, kind.gvr = gvr ∧
      r'.core? gvr = some (.fresh kind)

theorem SameSettings.refl (r : Registry) : r.SameSettings r := ⟨rfl, rfl, rfl⟩

theorem SameSettings.symm (h : r.SameSettings r') : r'.SameSettings r :=
  ⟨h.applicationKind.symm, h.namespacesKey.symm, h.global.symm⟩

theorem SameSettings.trans (h : r.SameSettings r') (h' : r'.SameSettings r'') :
    r.SameSettings r'' :=
  ⟨h'.applicationKind.trans h.applicationKind, h'.namespacesKey.trans h.namespacesKey,
    h'.global.trans h.global⟩

theorem Extends.refl (r : Registry) : r.Extends r := ⟨.refl r, fun _ => .inl rfl⟩

theorem Extends.trans (h : r.Extends r') (h' : r'.Extends r'') : r.Extends r'' := by
  refine ⟨h.toSameSettings.trans h'.toSameSettings, fun gvr => ?_⟩
  rcases h.core gvr with he | ⟨hnone, kind, hk, hnew⟩
  · rcases h'.core gvr with he' | ⟨hnone', hnew'⟩
    · exact .inl (he'.trans he)
    · exact .inr ⟨he ▸ hnone', hnew'⟩
  · rcases h'.core gvr with he' | ⟨hnone', -⟩
    · exact .inr ⟨hnone, kind, hk, he'.trans hnew⟩
    · rw [hnew] at hnone'
      exact absurd hnone' (by simp)

/-- A core that is there stays as it is. -/
theorem Extends.core?_eq_some (h : r.Extends r') (hc : r.core? gvr = some c) :
    r'.core? gvr = some c := by
  rcases h.core gvr with he | ⟨hnone, -⟩
  · exact he.trans hc
  · rw [hc] at hnone
    exact absurd hnone (by simp)

/-- A registry continues another: kinds and caches are as they were, whatever the workers have
done, and new watchers start from an empty cache. -/
structure Continues (r r' : Registry) : Prop extends r.SameSettings r' where
  body : ∀ gvr, (r'.core? gvr).map Core.body = (r.core? gvr).map Core.body ∨
    r.core? gvr = none ∧ ∃ kind : KindDescriptor, kind.gvr = gvr ∧
      (r'.core? gvr).map Core.body = some (kind, {})

/-- Growth, and then whatever leaves kinds and caches alone. -/
theorem Extends.continues (h : r.Extends r') (hsettings : r'.SameSettings r'')
    (hbody : ∀ gvr, (r''.core? gvr).map Core.body = (r'.core? gvr).map Core.body) :
    r.Continues r'' := by
  refine ⟨h.toSameSettings.trans hsettings, fun gvr => ?_⟩
  rw [hbody]
  rcases h.core gvr with he | ⟨hnone, kind, hk, hnew⟩
  · exact .inl (congrArg _ he)
  · exact .inr ⟨hnone, kind, hk, congrArg _ hnew⟩

/-- Where a core is from. -/
theorem Continues.core_cases {c' : Core} (h : r.Continues r') (hc' : r'.core? gvr = some c') :
    (∃ c, r.core? gvr = some c ∧ c.kind = c'.kind ∧ c.cache = c'.cache) ∨
      (r.core? gvr = none ∧ c'.kind.gvr = gvr ∧ c'.cache = {}) := by
  rcases h.body gvr with he | ⟨hnone, kind, hk, hnew⟩
  · rw [hc'] at he
    obtain ⟨c, hc, hb⟩ := Option.map_eq_some_iff.mp he.symm
    obtain ⟨hkind, hcache⟩ := Prod.mk.inj hb
    exact .inl ⟨c, hc, hkind, hcache⟩
  · rw [hc'] at hnew
    obtain ⟨hkind, hcache⟩ := Prod.mk.inj (Option.some.inj hnew)
    exact .inr ⟨hnone, hkind ▸ hk, hcache⟩

/-- A kind that is watched stays watched as the same kind. -/
theorem Continues.exists_core (h : r.Continues r') (hc : r.core? gvr = some c) :
    ∃ c', r'.core? gvr = some c' ∧ c'.kind = c.kind ∧ c'.cache = c.cache := by
  rcases h.body gvr with he | ⟨hnone, -⟩
  · rw [hc] at he
    obtain ⟨c', hc', hb⟩ := Option.map_eq_some_iff.mp he
    exact ⟨c', hc', Prod.mk.inj hb⟩
  · rw [hc] at hnone
    exact absurd hnone (by simp)

theorem watcher?_insert (r : Registry) (gvr : GroupVersionResource) (w : Watcher)
    (g : GroupVersionResource) : { r with watchers := r.watchers.insert gvr w }.watcher? g =
      if g = gvr then some w else r.watcher? g :=
  SortedMap.get?_insert r.watchers gvr g w

theorem core?_insert (r : Registry) (gvr : GroupVersionResource) (w : Watcher)
    (g : GroupVersionResource) : { r with watchers := r.watchers.insert gvr w }.core? g =
      if g = gvr then some w.core else r.core? g := by
  rw [core?, watcher?_insert]
  split <;> rfl

theorem watcher?_stopWatcher (r : Registry) (gvr g : GroupVersionResource) :
    (r.stopWatcher gvr).watcher? g =
      if g = gvr then (r.watcher? gvr).map Watcher.stop else r.watcher? g :=
  SortedMap.get?_modify ..

theorem core?_stopWatcher (r : Registry) (gvr g : GroupVersionResource) :
    (r.stopWatcher gvr).core? g =
      if g = gvr then (r.core? gvr).map fun c => { c with worker := .dead } else r.core? g := by
  unfold core?
  rw [watcher?_stopWatcher]
  split
  · rw [Option.map_map, Option.map_map]
    rfl
  · rfl

/-- Changing a watcher outside its core is growth. -/
theorem extends_insert {w' : Watcher} (hw : r.watcher? gvr = some w) (hcore : w'.core = w.core) :
    r.Extends { r with watchers := r.watchers.insert gvr w' } := by
  refine ⟨⟨rfl, rfl, rfl⟩, fun g => .inl ?_⟩
  rw [core?_insert]
  split
  · next h => rw [h, core?_of_watcher? hw, hcore]
  · rfl

/-! ## 3. What makes a registry grow -/

theorem core_openScope (w : Watcher) (scope : String) : (w.openScope scope).core = w.core := by
  unfold Watcher.openScope
  split <;> rfl

theorem core_openScopes (w : Watcher) (scopes : List String) :
    (openScopes w scopes).1.core = w.core := by
  induction scopes generalizing w with
  | nil => rfl
  | cons scope rest ih => exact (ih (w.openScope scope)).trans (core_openScope w scope)

/-- To watch a kind in further scopes is growth. -/
theorem extends_openWatches (r : Registry) (kind : KindDescriptor) (scopes : List String) :
    r.Extends (r.openWatches kind scopes).1 := by
  cases hw : r.watcher? kind.gvr with
  | some w =>
    simp only [openWatches, hw, Option.getD_some]
    exact extends_insert hw (core_openScopes w scopes)
  | none =>
    simp only [openWatches, hw, Option.getD_none]
    refine ⟨⟨rfl, rfl, rfl⟩, fun g => ?_⟩
    rw [core?_insert]
    split
    · next h =>
      refine .inr ⟨by rw [h, core?, hw]; rfl, kind, h.symm, ?_⟩
      rw [core_openScopes]
      rfl
    · exact .inl rfl

theorem global_permit (f : NamespaceFilter) (gvr : GroupVersionResource) (ns : String) :
    (f.permit gvr ns).2.global = f.global := by
  unfold NamespaceFilter.permit
  split <;> rfl

theorem global_permitEach (f : NamespaceFilter) (gvr : GroupVersionResource) (l : List String) :
    (f.permitEach gvr l).global = f.global := by
  induction l generalizing f with
  | nil => rfl
  | cons ns rest ih => exact (ih _).trans (global_permit f gvr ns)

/-- To permit namespaces is growth. -/
theorem extends_filter {f : NamespaceFilter} (h : f.global = r.filter.global) :
    r.Extends { r with filter := f } := ⟨⟨rfl, rfl, h⟩, fun _ => .inl rfl⟩

theorem extends_permitFor (r : Registry) (a : Application) (kind : KindDescriptor) :
    r.Extends (r.permitFor a kind) := by
  unfold permitFor
  split
  · exact extends_filter (global_permitEach _ _ _)
  · exact .refl r

end Registry

end AppWatch
