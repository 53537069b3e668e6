/-
# Chains of components through the caches

A cached object is contained in an application through a chain of cached applications, each a
direct component of the next.  `Registry.Chain` lists the objects on the way with the places where
they are cached.  A chain speaks of versions: it can be compared with the caches of an earlier or
later moment (`Holds`), which a statement about the ancestors of a moment cannot.

At the moment at which all its versions are cached a chain is the same as transitive containment
over the parsed applications (`Chain.transGen`, `exists_chain`), and so a walk from its lower end
finds its upper one (`contains_of_chain`).
-/
import AppWatch.Proofs.Growth
import AppWatch.Proofs.Snapshot

namespace AppWatch

/-- A version of an object and the place where it is cached. -/
structure Point where
  gvr : GroupVersionResource
  key : String
  object : ClusterObject

/-- Membership looks at the global namespaces of a filter only. -/
theorem Application.hasComponent_congr (a : Application) {f f' : NamespaceFilter}
    (h : f'.global = f.global) (x : ResourceInfo) : a.hasComponent f' x = a.hasComponent f x := by
  simp only [hasComponent, drawsFrom, NamespaceFilter.isPermitted, NamespaceFilter.permitsAll, h]

namespace Registry

variable {r r' : Registry} {p : Point} {points links : List Point} {x z : ResourceInfo}
  {gvr : GroupVersionResource} {key : String}

/-! ## 1. Versions in the caches -/

theorem cached_eq (r : Registry) (gvr : GroupVersionResource) (key : String) :
    r.cached gvr key = (r.core? gvr).bind fun c => c.cache.objects.get? key := by
  unfold cached core?
  cases r.watcher? gvr <;> rfl

/-- Where no event is taken the cached objects stay as they are. -/
theorem Continues.cached_eq (h : r.Continues r') (gvr : GroupVersionResource) (key : String) :
    r'.cached gvr key = r.cached gvr key := by
  rw [Registry.cached_eq, Registry.cached_eq]
  cases hc' : r'.core? gvr with
  | none =>
    cases hc : r.core? gvr with
    | none => rfl
    | some c =>
      obtain ⟨c', hsome, -⟩ := h.exists_core hc
      rw [hc'] at hsome
      exact absurd hsome (by simp)
  | some c' =>
    rcases h.core_cases hc' with ⟨c, hc, -, hcache⟩ | ⟨hnone, -, hcache⟩
    · rw [hc, Option.bind_some, Option.bind_some, hcache]
    · rw [hnone, Option.bind_some, hcache]
      rfl

/-- The caches hold the given versions. -/
def Holds (r : Registry) (points : List Point) : Prop :=
  ∀ p ∈ points, r.cached p.gvr p.key = some p.object

theorem Holds.congr (h : r.Holds points)
    (hcached : ∀ p ∈ points, r'.cached p.gvr p.key = r.cached p.gvr p.key) : r'.Holds points :=
  fun p hp => (hcached p hp).trans (h p hp)

theorem Holds.exists_core (h : r.Holds points) (hp : p ∈ points) :
    ∃ c, r.core? p.gvr = some c ∧ c.cache.objects.get? p.key = some p.object := by
  have hc := h p hp
  rw [cached_eq] at hc
  exact Option.bind_eq_some_iff.mp hc

/-! ## 2. Chains -/

/-- A way up from a resource through cached applications, lowest first. -/
inductive Chain (r : Registry) : ResourceInfo → List Point → ResourceInfo → Prop where
  /-- The way is at its end. -/
  | top (x : ResourceInfo) : Chain r x [] x
  /-- The resource is a component of the application at the next point. -/
  | up {x z : ResourceInfo} {p : Point} {links : List Point} {a : Application}
      (hgvr : p.gvr = r.applicationKind.gvr)
      (hparsed : Application.ofObject r.applicationKind r.namespacesKey p.object = .ok a)
      (hcomponent : a.hasComponent r.filter x = true) (rest : Chain r a.resource links z) :
      Chain r x (p :: links) z

/-- A chain depends on the versions and the settings only. -/
theorem Chain.congr (h : r.SameSettings r') (hchain : r.Chain x links z) :
    r'.Chain x links z := by
  induction hchain with
  | top x => exact .top x
  | up hgvr hparsed hcomponent _ ih =>
    refine .up (hgvr.trans (congrArg KindDescriptor.gvr h.applicationKind.symm)) ?_ ?_ ih
    · rw [h.applicationKind, h.namespacesKey]
      exact hparsed
    · rw [Application.hasComponent_congr _ h.global]
      exact hcomponent

/-- What lies above the application at a point of a chain. -/
theorem Chain.suffix (hchain : r.Chain x links z) (hp : p ∈ links) :
    ∃ a links', p.gvr = r.applicationKind.gvr ∧
      Application.ofObject r.applicationKind r.namespacesKey p.object = .ok a ∧
      r.Chain a.resource links' z ∧ links' ⊆ links := by
  induction hchain with
  | top x => exact absurd hp (by simp)
  | up hgvr hparsed _ rest ih =>
    rcases List.mem_cons.mp hp with rfl | hp
    · exact ⟨_, _, hgvr, hparsed, rest, List.subset_cons_self _ _⟩
    · obtain ⟨a, links', hgvr', hparsed', hrest, hsub⟩ := ih hp
      exact ⟨a, links', hgvr', hparsed', hrest,
        List.Subset.trans hsub (List.subset_cons_self _ _)⟩

/-- The application at a cached point is in the snapshot. -/
theorem mem_snapshot_of_holds {a : Application} (hholds : r.Holds points) (hp : p ∈ points)
    (hgvr : p.gvr = r.applicationKind.gvr)
    (hparsed : Application.ofObject r.applicationKind r.namespacesKey p.object = .ok a) :
    a ∈ r.snapshot.1 :=
  mem_snapshot.mpr ⟨p.key, p.object, hgvr ▸ hholds p hp, hparsed⟩

/-- **A cached chain is transitive containment**, unless it is at its end. -/
theorem Chain.transGen (hchain : r.Chain x links z) (hholds : r.Holds links) (hne : links ≠ []) :
    Relation.TransGen (r.resolver r.snapshot.1).IsComponentOf x z := by
  induction hchain with
  | top x => exact absurd rfl hne
  | @up x z p links a hgvr hparsed hcomponent rest ih =>
    have hstep : (r.resolver r.snapshot.1).IsComponentOf x a.resource :=
      ⟨a, mem_snapshot_of_holds hholds List.mem_cons_self hgvr hparsed, hcomponent, rfl⟩
    cases links with
    | nil =>
      cases rest
      exact .single hstep
    | cons q links =>
      have hrest := ih (fun p hp => hholds p (List.mem_cons_of_mem _ hp)) (by simp)
      exact Relation.TransGen.head hstep hrest

/-- Transitive containment over the cached applications runs along a chain. -/
theorem exists_chain (h : Relation.TransGen (r.resolver r.snapshot.1).IsComponentOf x z) :
    ∃ links, links ≠ [] ∧ r.Holds links ∧ r.Chain x links z := by
  have hpoint : ∀ {x z}, (r.resolver r.snapshot.1).IsComponentOf x z →
      ∃ (p : Point) (a : Application), r.cached p.gvr p.key = some p.object ∧
        p.gvr = r.applicationKind.gvr ∧
        Application.ofObject r.applicationKind r.namespacesKey p.object = .ok a ∧
        a.hasComponent r.filter x = true ∧ a.resource = z := by
    rintro x z ⟨a, ha, hcomponent, hz⟩
    obtain ⟨key, o, ho, hparsed⟩ := mem_snapshot.mp ha
    exact ⟨⟨r.applicationKind.gvr, key, o⟩, a, ho, rfl, hparsed, hcomponent, hz⟩
  induction h using Relation.TransGen.head_induction_on with
  | single hstep =>
    obtain ⟨p, a, hcached, hgvr, hparsed, hcomponent, rfl⟩ := hpoint hstep
    refine ⟨[p], by simp, fun q hq => ?_, .up hgvr hparsed hcomponent (.top _)⟩
    rw [List.mem_singleton.mp hq]
    exact hcached
  | head hstep _ ih =>
    obtain ⟨p, a, hcached, hgvr, hparsed, hcomponent, rfl⟩ := hpoint hstep
    obtain ⟨links, -, hholds, hchain⟩ := ih
    refine ⟨p :: links, by simp, fun q hq => ?_, .up hgvr hparsed hcomponent hchain⟩
    rcases List.mem_cons.mp hq with rfl | hq
    · exact hcached
    · exact hholds q hq

/-! ## 3. The walk from a cached object -/

/-- What all the caches of a registry have: each is that of its kind, and its objects stand under
their own keys. -/
def Sound (r : Registry) : Prop :=
  ∀ gvr c, r.core? gvr = some c → c.kind.gvr = gvr ∧ c.cache.Keyed

/-- The watcher of the application kind is of the configured kind. -/
def IsConfigured (r : Registry) : Prop :=
  ∀ c, r.core? r.applicationKind.gvr = some c → c.kind = r.applicationKind

theorem Sound.continues (hr : r.Sound) (h : r.Continues r') : r'.Sound := by
  intro gvr c' hc'
  rcases h.core_cases hc' with ⟨c, hc, hkind, hcache⟩ | ⟨-, hgvr, hcache⟩
  · obtain ⟨hgvr, hkeyed⟩ := hr gvr c hc
    exact ⟨hkind ▸ hgvr, hcache ▸ hkeyed⟩
  · exact ⟨hgvr, hcache ▸ WatchCache.keyed_empty⟩

/-- What is configured right now was so before. -/
theorem IsConfigured.of_continues (hr : r'.IsConfigured) (h : r.Continues r') :
    r.IsConfigured := by
  intro c hc
  obtain ⟨c', hc', hkind, -⟩ := h.exists_core hc
  rw [← hkind, ← h.applicationKind]
  exact hr c' (h.applicationKind ▸ hc')

/-- The application kind is watched, as the kind that is configured. -/
def IsStarted (r : Registry) : Prop :=
  ∃ c, r.core? r.applicationKind.gvr = some c ∧ c.kind = r.applicationKind

theorem IsStarted.isConfigured (h : r.IsStarted) : r.IsConfigured := by
  obtain ⟨c, hc, hkind⟩ := h
  intro c' hc'
  cases hc.symm.trans hc'
  exact hkind

/-- To watch the application kind for the first time starts it. -/
theorem isStarted_openWatches (hnone : r.watcher? r.applicationKind.gvr = none)
    (scopes : List String) : (r.openWatches r.applicationKind scopes).1.IsStarted := by
  refine ⟨.fresh r.applicationKind, ?_, rfl⟩
  simp only [openWatches, hnone, Option.getD_none]
  rw [core?_insert, if_pos rfl, core_openScopes]
  rfl

theorem IsStarted.continues (hr : r.IsStarted) (h : r.Continues r') : r'.IsStarted := by
  obtain ⟨c, hc, hkind⟩ := hr
  obtain ⟨c', hc', hk, -⟩ := h.exists_core hc
  refine ⟨c', h.applicationKind ▸ hc', ?_⟩
  rw [hk, hkind, h.applicationKind]

theorem Sound.keyed {w : Watcher} (h : r.Sound) (hw : r.watcher? gvr = some w) : w.cache.Keyed :=
  (h gvr w.core (core?_of_watcher? hw)).2

/-- From a cached object a chain leads up to an application; if the chain is empty, the object is
itself of the application kind. -/
def Leads (r : Registry) (p : Point) (links : List Point) (z : ResourceInfo) : Prop :=
  ∃ c x, r.core? p.gvr = some c ∧ ResourceInfo.ofObject c.kind p.object = .ok x ∧
    r.Chain x links z ∧ (links ≠ [] ∨ p.gvr = r.applicationKind.gvr)

/-- A chain that leads up from a point did so before, as long as the kind of the point was watched
already. -/
theorem Leads.congr (hsettings : r.SameSettings r') (h : r'.Leads p links z)
    (hkind : ∀ c', r'.core? p.gvr = some c' → ∃ c, r.core? p.gvr = some c ∧ c.kind = c'.kind) :
    r.Leads p links z := by
  obtain ⟨c', x, hc', hx, hchain, hends⟩ := h
  obtain ⟨c, hc, hk⟩ := hkind c' hc'
  refine ⟨c, x, hc, hk ▸ hx, hchain.congr hsettings.symm, hends.imp_right fun hgvr => ?_⟩
  rw [hgvr, hsettings.applicationKind]

/-- A cached chain was cached already where no event has been taken since. -/
theorem Continues.before (h : r.Continues r') (hholds : r'.Holds (p :: links))
    (hleads : r'.Leads p links z) : r.Holds (p :: links) ∧ r.Leads p links z := by
  have hbefore : r.Holds (p :: links) :=
    hholds.congr fun q _ => (h.cached_eq q.gvr q.key).symm
  refine ⟨hbefore, hleads.congr h.toSameSettings fun c' hc' => ?_⟩
  obtain ⟨c, hc, -⟩ := hbefore.exists_core List.mem_cons_self
  obtain ⟨c₁, hc₁, hkind, -⟩ := h.exists_core hc
  exact ⟨c, hc, by rw [← hkind, Option.some.inj (hc₁.symm.trans hc')]⟩

/-- Every point of a chain leads on to its upper end. -/
theorem Leads.suffix {q : Point} (hconfigured : r.IsConfigured) (h : r.Leads p links z)
    (hholds : r.Holds (p :: links)) (hq : q ∈ p :: links) :
    ∃ links', r.Leads q links' z ∧ links' ⊆ links := by
  rcases List.mem_cons.mp hq with rfl | hlink
  · exact ⟨links, h, List.Subset.refl _⟩
  · obtain ⟨c, x, -, -, hchain, -⟩ := h
    obtain ⟨a, links', hgvr, hparsed, hrest, hsub⟩ := hchain.suffix hlink
    obtain ⟨c', hc', -⟩ := hholds.exists_core hq
    have hkind : c'.kind = r.applicationKind := hconfigured c' (hgvr ▸ hc')
    refine ⟨links', ⟨c', a.resource, hc', ?_, hrest, .inr hgvr⟩, hsub⟩
    rw [hkind]
    exact Application.resource_ofObject hparsed

/-- **A walk finds the upper end of a cached chain.** -/
theorem contains_of_chain {c : Core} (hsound : r.Sound) (hconfigured : r.IsConfigured)
    (hholds : r.Holds (p :: links)) (hc : r.core? p.gvr = some c)
    (hx : ResourceInfo.ofObject c.kind p.object = .ok x) (hchain : r.Chain x links z)
    (hends : links ≠ [] ∨ p.gvr = r.applicationKind.gvr) :
    ((r.resolver r.snapshot.1).ancestorsOf x).contains z.key = true := by
  have hkeyed : ∀ w, r.watcher? r.applicationKind.gvr = some w → w.cache.Keyed :=
    fun w hw => hsound.keyed hw
  have hproper := snapshot_proper hkeyed
  have hgvr : x.gvr = p.gvr := (ResourceInfo.gvr_ofObject hx).trans (hsound p.gvr c hc).1
  rw [Resolver.contains_ancestorsOf hproper]
  by_cases hne : links = []
  · subst hne
    cases hchain
    exact .inl ⟨hgvr.trans (hends.resolve_left fun h => h rfl), rfl⟩
  · refine .inr ⟨z, (Resolver.above_empty_iff ?_).mpr (hchain.transGen ?_ hne), rfl⟩
    · -- the list's entry for the object, if there is one, is this very snapshot
      intro a ha hk
      have happ : x.gvr = r.applicationKind.gvr :=
        (congrArg ResourceKey.gvr hk).symm.trans (hproper.kind a ha)
      have hp : p.gvr = r.applicationKind.gvr := hgvr.symm.trans happ
      rw [hconfigured c (hp ▸ hc)] at hx
      exact resource_eq_of_mem_snapshot hkeyed (hp ▸ hholds p List.mem_cons_self) hx ha hk
    · exact fun q hq => hholds q (List.mem_cons_of_mem _ hq)

end Registry

end AppWatch
