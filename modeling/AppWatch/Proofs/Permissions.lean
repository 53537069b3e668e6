/-
# Permissions and watches are never taken back

A namespace that was permitted for a kind stays permitted, and a scope that is watched stays
watched, as long as nothing is stopped.  So the scopes in which a kind should be watched only
become more (`Registry.Widens`), whoever acts and for whatever reason.

What one application wants watched of a kind are the scopes of the kind once the application's own
namespaces are permitted (`Registry.wanted`).  They include whatever was permitted for the kind on
account of other applications.
-/
import AppWatch.Proofs.Openings

namespace AppWatch

/-! ## 1. Permitted namespaces -/

namespace NamespaceFilter

variable {f : NamespaceFilter} {k k' : GroupVersionResource} {ns n : String}

theorem mem_permittedNamespaces {f : NamespaceFilter} :
    n ∈ f.permittedNamespaces k ↔ (f.setFor k).contains n = true :=
  SortedMap.contains_iff_mem_keys.symm

/-- A request permits its own namespace for its own kind, if it is granted at all. -/
theorem mem_permittedNamespaces_permit :
    n ∈ (f.permit k ns).2.permittedNamespaces k' ↔
      n ∈ f.permittedNamespaces k' ∨ k' = k ∧ n = ns ∧ f.grants ns = true := by
  unfold permit
  split
  · next hgrants =>
    rw [mem_permittedNamespaces, mem_permittedNamespaces]
    by_cases hk : k' = k
    · have hset : ({ f with perKind := f.perKind.insert k ((f.setFor k).add ns) } :
          NamespaceFilter).setFor k = (f.setFor k).add ns := by
        rw [setFor, SortedMap.get?_insert_self, Option.getD_some]
      rw [hk, hset, SortedSet.contains_add_iff]
      simp only [hgrants, true_and, and_true]
      exact or_comm
    · have hset : ({ f with perKind := f.perKind.insert k ((f.setFor k).add ns) } :
          NamespaceFilter).setFor k' = f.setFor k' := by
        rw [setFor, SortedMap.get?_insert_of_ne _ hk]
        rfl
      rw [hset]
      simp [hk]
  · next hgrants => simp [hgrants]

theorem grants_permit (f : NamespaceFilter) (k : GroupVersionResource) (ns n : String) :
    (f.permit k ns).2.grants n = f.grants n := by
  simp only [grants, isPermitted, permitsAll, Registry.global_permit]

/-- Several requests permit the granted ones among their namespaces. -/
theorem mem_permittedNamespaces_permitEach {l : List String} :
    n ∈ (f.permitEach k l).permittedNamespaces k' ↔
      n ∈ f.permittedNamespaces k' ∨ k' = k ∧ n ∈ l ∧ f.grants n = true := by
  induction l generalizing f with
  | nil => simp [permitEach]
  | cons ns l ih =>
    have hrest := ih (f := (f.permit k ns).2)
    rw [mem_permittedNamespaces_permit, grants_permit] at hrest
    have hcons : f.permitEach k (ns :: l) = (f.permit k ns).2.permitEach k l := rfl
    rw [hcons, hrest, List.mem_cons]
    constructor
    · rintro ((hbefore | ⟨hk, rfl, hgrants⟩) | ⟨hk, hl, hgrants⟩)
      · exact .inl hbefore
      · exact .inr ⟨hk, .inl rfl, hgrants⟩
      · exact .inr ⟨hk, .inr hl, hgrants⟩
    · rintro (hbefore | ⟨hk, rfl | hl, hgrants⟩)
      · exact .inl (.inl hbefore)
      · exact .inl (.inr ⟨hk, rfl, hgrants⟩)
      · exact .inr ⟨hk, hl, hgrants⟩

theorem grants_congr {f' : NamespaceFilter} (h : f'.global = f.global) (n : String) :
    f'.grants n = f.grants n := by
  simp only [grants, isPermitted, permitsAll, h]

end NamespaceFilter

/-! ## 2. Wanted scopes -/

namespace Registry

variable {r r' r'' : Registry} {a : Application} {k kind : KindDescriptor} {scope : String}

/-- The scopes in which a kind should be watched once the namespaces of an application are
permitted for it. -/
def wanted (r : Registry) (a : Application) (kind : KindDescriptor) : List String :=
  (r.permitFor a kind).scopesFor kind

/-- Only through the namespaces permitted for a kind do the scopes of a registry change. -/
theorem scopesFor_cases (h : r.SameSettings r') (kind : KindDescriptor) :
    r'.scopesFor kind = r.scopesFor kind ∨ kind.namespaced = true ∧
      r.scopesFor kind = r.filter.permittedNamespaces kind.gvr ∧
      r'.scopesFor kind = r'.filter.permittedNamespaces kind.gvr := by
  cases hns : kind.namespaced with
  | false => simp [scopesFor, hns]
  | true =>
    have happ : r'.isApplicationKind kind = r.isApplicationKind kind := by
      simp only [isApplicationKind, h.applicationKind]
    cases hk : r.isApplicationKind kind with
    | true =>
      have hglobal := h.global
      refine .inl ?_
      unfold scopesFor NamespaceFilter.permitsAll NamespaceFilter.globalNamespaces
      rw [happ, hk, hglobal, if_pos rfl, if_pos rfl]
    | false => exact .inr ⟨rfl, by simp [scopesFor, hns, hk], by simp [scopesFor, hns, happ, hk]⟩

/-- The scopes that are new are those that are not watched. -/
theorem mem_newScopes : scope ∈ r.newScopes kind ↔
    scope ∈ r.scopesFor kind ∧ r.isWatched (kind.gvr, scope) = false := by
  unfold newScopes isWatched
  cases r.watcher? kind.gvr with
  | none => simp
  | some w => simp

theorem filter_permitFor (r : Registry) (a : Application) (kind : KindDescriptor) :
    (r.permitFor a kind).filter = r.filter.permitEach kind.gvr (a.namespacesFor kind) := by
  rw [permitFor_eq]
  rfl

theorem isWatched_permitFor (r : Registry) (a : Application) (kind : KindDescriptor)
    (x : GroupVersionResource × String) : (r.permitFor a kind).isWatched x = r.isWatched x := by
  rw [permitFor_eq]
  rfl

/-- What is permitted for one kind on account of an application adds nothing to what the
application wants of another: for the same kind it is the same. -/
theorem mem_wanted_of_permitFor (h : scope ∈ (r.permitFor a k).wanted a kind) :
    scope ∈ r.wanted a kind := by
  have hsettings : (r.permitFor a kind).SameSettings ((r.permitFor a k).permitFor a kind) :=
    (extends_permitFor r a kind).toSameSettings.symm.trans
      ((extends_permitFor r a k).trans (extends_permitFor _ a kind)).toSameSettings
  unfold wanted at h ⊢
  rcases scopesFor_cases hsettings kind with he | ⟨hns, hbefore, hafter⟩
  · rw [he] at h
    exact h
  · rw [hafter, filter_permitFor, filter_permitFor,
      NamespaceFilter.mem_permittedNamespaces_permitEach,
      NamespaceFilter.mem_permittedNamespaces_permitEach,
      NamespaceFilter.grants_congr (global_permitEach _ _ _)] at h
    rw [hbefore, filter_permitFor, NamespaceFilter.mem_permittedNamespaces_permitEach]
    rcases h with (hpermitted | ⟨hgvr, hown, hgrants⟩) | hown
    · exact .inl hpermitted
    · refine .inr ⟨rfl, ?_, hgrants⟩
      unfold Application.namespacesFor at hown ⊢
      split at hown
      · rw [if_pos hns]
        exact hown
      · cases hown
    · exact .inr hown

/-! ## 3. Wider registries -/

/-- A registry permits and watches at least what another does, with the same settings. -/
structure Widens (r r' : Registry) : Prop extends r.SameSettings r' where
  permitted : ∀ {gvr n}, n ∈ r.filter.permittedNamespaces gvr →
    n ∈ r'.filter.permittedNamespaces gvr
  watched : ∀ {x}, r.isWatched x = true → r'.isWatched x = true

theorem Widens.refl (r : Registry) : r.Widens r := ⟨.refl r, id, id⟩

theorem Widens.trans (h : r.Widens r') (h' : r'.Widens r'') : r.Widens r'' :=
  ⟨h.toSameSettings.trans h'.toSameSettings, fun hn => h'.permitted (h.permitted hn),
    fun hx => h'.watched (h.watched hx)⟩

/-- A wider registry watches a kind in at least the same scopes. -/
theorem Widens.mem_scopesFor (h : r.Widens r') (hscope : scope ∈ r.scopesFor kind) :
    scope ∈ r'.scopesFor kind := by
  rcases scopesFor_cases h.toSameSettings kind with he | ⟨-, hbefore, hafter⟩
  · rw [he]
    exact hscope
  · rw [hafter]
    rw [hbefore] at hscope
    exact h.permitted hscope

theorem SameWatches.widens (h : r.SameWatches r') : r.Widens r' :=
  ⟨h.toSameSettings, fun hn => by rw [h.filter]; exact hn, fun hx => (h.isWatched_eq _).trans hx⟩

/-- A watcher has readers for the scopes that are opened and for those it had. -/
theorem hasScope_openScopes (w : Watcher) (scopes : List String) (scope : String) :
    (openScopes w scopes).1.hasScope scope = true ↔ scope ∈ scopes ∨ w.hasScope scope = true := by
  rw [Watcher.hasScope, SortedMap.contains, get?_readers_openScopes, Option.isSome_or,
    Bool.or_eq_true, or_comm]
  refine or_congr_left ?_
  by_cases h : scope ∈ scopes <;> simp [h]

/-- What is watched once some scopes of a kind are opened. -/
theorem isWatched_openWatches (r : Registry) (kind : KindDescriptor) (scopes : List String)
    (x : GroupVersionResource × String) : (r.openWatches kind scopes).1.isWatched x = true ↔
      x.1 = kind.gvr ∧ x.2 ∈ scopes ∨ r.isWatched x = true := by
  unfold isWatched
  rw [watcher?_openWatches]
  by_cases hx : x.1 = kind.gvr
  · rw [if_pos hx, hx, Option.any_some, hasScope_openScopes]
    cases r.watcher? kind.gvr with
    | none => simp [Watcher.hasScope, SortedMap.contains]
    | some w => simp
  · rw [if_neg hx]
    simp [hx]

theorem widens_grow (r : Registry) (g : Growth) : r.Widens (r.grow g).1 := by
  refine ⟨(r.extends_grow g).toSameSettings, fun {gvr n} hn => ?_, fun {x} hx => ?_⟩
  · cases g with
    | permit k namespaces =>
      exact NamespaceFilter.mem_permittedNamespaces_permitEach.mpr (.inl hn)
    | watch kind scopes => exact hn
  · cases g with
    | permit k namespaces => exact hx
    | watch kind scopes => exact (r.isWatched_openWatches kind scopes x).mpr (.inr hx)

theorem widens_growAll (r : Registry) (gs : List Growth) : r.Widens (r.growAll gs).1 := by
  induction gs generalizing r with
  | nil => exact .refl r
  | cons g gs ih => exact (r.widens_grow g).trans (ih _)

theorem widens_permitFor (r : Registry) (a : Application) (kind : KindDescriptor) :
    r.Widens (r.permitFor a kind) := by
  rw [permitFor_eq]
  exact r.widens_grow _

/-- A wider registry wants at least the same. -/
theorem Widens.mem_wanted (h : r.Widens r') (hscope : scope ∈ r.wanted a kind) :
    scope ∈ r'.wanted a kind := by
  have hwide : (r.permitFor a kind).Widens (r'.permitFor a kind) := by
    refine ⟨?_, fun {gvr n} hn => ?_, fun {x} hx => ?_⟩
    · exact (r.widens_permitFor a kind).toSameSettings.symm.trans
        (h.trans (r'.widens_permitFor a kind)).toSameSettings
    · rw [filter_permitFor, NamespaceFilter.mem_permittedNamespaces_permitEach] at hn ⊢
      rw [NamespaceFilter.grants_congr h.global]
      exact hn.imp_left h.permitted
    · rw [isWatched_permitFor] at hx ⊢
      exact h.watched hx
  exact hwide.mem_scopesFor hscope

/-- Without further permissions nothing more is wanted. -/
theorem wanted_congr (h : r.SameSettings r') (hfilter : r'.filter = r.filter) :
    r'.wanted a kind = r.wanted a kind := by
  have hpermitted : (r.permitFor a kind).SameSettings (r'.permitFor a kind) :=
    (r.widens_permitFor a kind).toSameSettings.symm.trans
      (h.trans (r'.widens_permitFor a kind).toSameSettings)
  unfold wanted
  rcases scopesFor_cases hpermitted kind with he | ⟨-, hbefore, hafter⟩
  · exact he
  · rw [hbefore, hafter, filter_permitFor, filter_permitFor, hfilter]

/-- Growth on account of an application adds nothing to what the application wants. -/
theorem mem_wanted_of_growAll {gs : List Growth}
    (hgs : ∀ g ∈ gs, (∃ k : KindDescriptor, g = .permit k.gvr (a.namespacesFor k)) ∨
      ∃ k scopes, g = .watch k scopes)
    (h : scope ∈ (r.growAll gs).1.wanted a kind) : scope ∈ r.wanted a kind := by
  induction gs generalizing r with
  | nil => exact h
  | cons g gs ih =>
    obtain ⟨hg, hrest⟩ := List.forall_mem_cons.mp hgs
    have hfirst := ih hrest h
    rcases hg with ⟨k, rfl⟩ | ⟨k, scopes, rfl⟩
    · rw [← permitFor_eq] at hfirst
      exact mem_wanted_of_permitFor hfirst
    · rw [wanted_congr (r.widens_grow (.watch k scopes)).toSameSettings rfl] at hfirst
      exact hfirst

end Registry

namespace System

variable {s s' : System} {action : Action} {notes : List Note}

/-- **A step only widens the registry.** -/
theorem Step.widens (h : Step s action s' notes) : s.registry.Widens s'.registry :=
  (s.registry.widens_growAll _).trans h.grown.1.widens

end System

end AppWatch
