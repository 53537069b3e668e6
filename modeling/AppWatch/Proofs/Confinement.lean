/-
# Component kinds are watched where applications ask for it

When the engine is driven by its start and by applications alone, every watch of a component kind is
accounted for by an application of the past: one that declares the kind and draws components of it
from the namespace, which the global list permits.  Failures and retries do not matter, for a
permission outlives the call it was made for; nor do stops, since whoever was having scopes checked
at a stop was told of the kind before it.
-/
import AppWatch.Proofs.Isolation
import AppWatch.Proofs.Provenance

namespace AppWatch

namespace System

/-- From outside a run is driven by its start, which has the application kind watched, and by
applications only: no other kind is told and no namespace permitted. -/
def IsDriven (applicationKind : KindDescriptor) (actions : List Action) : Prop :=
  ∀ x ∈ actions, (∀ gvr n, x ≠ .permit gvr n) ∧
    ∀ id kind, x = .call id (.addToWatch kind) → kind = applicationKind

variable {s₀ s : System} {actions past : List Action} {notes : List Note} {a : Application}
  {k kind : KindDescriptor} {gvr : GroupVersionResource} {n : String}

theorem AgreesOnKinds.mono (h : AgreesOnKinds actions) (hsub : past ⊆ actions) :
    AgreesOnKinds past :=
  fun x hx y hy => h x (hsub hx) y (hsub hy)

/-- Kinds of one name that were told are the same. -/
theorem AgreesOnKinds.eq_of_sourced (h : AgreesOnKinds actions) (hk : s₀.Sourced actions k)
    (hkind : s₀.Sourced actions kind) (hgvr : k.gvr = kind.gvr) : k = kind := by
  obtain ⟨x, hx, htold⟩ := hk.told
  obtain ⟨y, hy, htold'⟩ := hkind.told
  exact h x hx y hy k kind htold htold' hgvr

/-- In a driven run a kind other than the application kind was found for an application. -/
theorem Sourced.exists_finds (h : s₀.Sourced actions kind)
    (hdriven : IsDriven s₀.registry.applicationKind actions)
    (hkind : kind.gvr ≠ s₀.registry.applicationKind.gvr) : ∃ a, s₀.Finds actions a kind := by
  rcases h with ⟨id, hmem⟩ | hfinds
  · exact absurd (congrArg KindDescriptor.gvr ((hdriven _ hmem).2 id kind rfl)) hkind
  · exact hfinds

/-- In a driven run a namespace was drawn for an application. -/
theorem Drawn.exists_finds (h : s₀.Drawn actions gvr n)
    (hdriven : IsDriven s₀.registry.applicationKind actions) :
    ∃ a kind, s₀.Finds actions a kind ∧ kind.gvr = gvr ∧ n ∈ a.namespacesFor kind := by
  rcases h with hmem | hfinds
  · exact absurd rfl ((hdriven _ hmem).1 gvr n)
  · exact hfinds

/-- **Component kinds are confined to what applications ask for.**  In every run that is driven by
the start and by applications: a watch of a kind with namespaces that is not the application kind is
asked for in a namespace, not in all of them, which the global list permits and from which an
application draws components for which discovery had found the kind; and every watched kind but the
application kind was found for an application that declares it. -/
theorem component_watches_confined (applicationKind : KindDescriptor) (namespacesKey : String)
    (namespaces : List String) (capacity window now : Nat)
    (hrun : (fresh applicationKind namespacesKey namespaces capacity window now).run actions =
      some (s, notes))
    (hdriven : IsDriven applicationKind actions) (hagree : AgreesOnKinds actions) :
    (∀ before action after s₁ notes₁ s₂ notes₂, actions = before ++ action :: after →
      (fresh applicationKind namespacesKey namespaces capacity window now).run before =
        some (s₁, notes₁) → s₁.step action = some (s₂, notes₂) →
      ∀ kind scope, (kind, scope) ∈ Note.watches notes₂ → kind.namespaced = true →
        kind.gvr ≠ applicationKind.gvr →
          scope ≠ "" ∧ (NamespaceFilter.ofList namespaces).isPermitted scope = true ∧
            ∃ a, (fresh applicationKind namespacesKey namespaces capacity window now).Finds
                before a kind ∧
              scope ∈ a.«namespace» :: SortedSet.toList a.componentNamespaces) ∧
      ∀ gvr w, s.registry.watcher? gvr = some w → gvr ≠ applicationKind.gvr →
        w.kind.gvr = gvr ∧ ∃ a,
          (fresh applicationKind namespacesKey namespaces capacity window now).Finds actions a
            w.kind := by
  have hfresh := traced_fresh applicationKind namespacesKey namespaces capacity window now
  constructor
  · intro before action after s₁ notes₁ s₂ notes₂ hsplit hbefore hstep kind scope hmem hns hkind
    have hpast := subset_of_split hsplit
    have hdriven' : IsDriven applicationKind before := fun x hx =>
      hdriven x (hpast (List.mem_append_left _ hx))
    have hagree' := hagree.mono hpast
    have htraced := hfresh.run_of hbefore
    obtain ⟨k, hgvr, hallowed, hsourced, hsourced'⟩ := htraced.watched hstep hmem
    obtain rfl := hagree'.eq_of_sourced hsourced hsourced' hgvr
    have hother : (fresh applicationKind namespacesKey namespaces capacity window
        now).registry.isApplicationKind kind = false := decide_eq_false hkind
    cases hallowed with
    | clusterWide hcluster =>
      rw [hns] at hcluster
      cases hcluster
    | everywhere _ happ =>
      rw [hother] at happ
      cases happ
    | listed _ happ =>
      rw [hother] at happ
      cases happ
    | drawn _ _ hgrants hdrawn =>
      obtain ⟨hne, hpermitted⟩ := Bool.and_eq_true_iff.mp hgrants
      obtain ⟨a, k, hfinds, hgvr, hscope⟩ := hdrawn.exists_finds hdriven'
      obtain rfl := hagree'.eq_of_sourced (.inr ⟨a, hfinds.snoc action⟩) hsourced hgvr
      rw [Application.namespacesFor, if_pos hns] at hscope
      exact ⟨bne_iff_ne.mp hne, hpermitted, a, hfinds, hscope⟩
  · intro gvr w hw hgvr
    obtain ⟨rfl, hsourced⟩ := (hfresh.run_of hrun).watches gvr w hw
    exact ⟨rfl, hsourced.exists_finds hdriven hgvr⟩

/-- The kind of applications. -/
def sampleApplicationKind : KindDescriptor :=
  ⟨⟨"app.k8s.io", "v1beta1", "applications"⟩, "Application", true⟩

/-- The engine where two namespaces may be watched. -/
def sampleRestricted : System :=
  fresh sampleApplicationKind "namespaces" ["blue", "green"] 64 0 0

/-- After the start the call for an application fails; everything is stopped, and the call is made
again. -/
def sampleRetry : List Action :=
  [.call 0 (.addToWatch sampleApplicationKind),
    .call 1 (.watchComponents (sampleApplicationIn "blue")),
    .discovered (.caller 1) (.ok (some sampleServices)),
    .checked (.caller 1) (.error sampleForbidden), .stop,
    .call 2 (.watchComponents (sampleApplicationIn "blue")),
    .discovered (.caller 2) (.ok (some sampleServices))]

/-- The watch that the second call asks for is accounted for by the application. -/
theorem component_watches_confined_retry :
    ∃ s₁ notes₁ s₂ notes₂, sampleRestricted.run sampleRetry = some (s₁, notes₁) ∧
      s₁.step (.checked (.caller 2) (.ok ())) = some (s₂, notes₂) ∧
      (sampleServices, "blue") ∈ Note.watches notes₂ ∧
      (NamespaceFilter.ofList ["blue", "green"]).isPermitted "blue" = true ∧
      ∃ a, sampleRestricted.Finds sampleRetry a sampleServices ∧
        "blue" ∈ a.«namespace» :: SortedSet.toList a.componentNamespaces := by
  have hend : ((sampleRestricted.run sampleRetry).any fun r =>
      (r.1.step (.checked (.caller 2) (.ok ()))).any fun t =>
        (sampleServices, "blue") ∈ Note.watches t.2) = true := by decide
  obtain ⟨⟨s₁, notes₁⟩, hbefore, hend⟩ := (Option.any_eq_true _ _).mp hend
  obtain ⟨⟨s₂, notes₂⟩, hstep, hmem⟩ := (Option.any_eq_true _ _).mp hend
  have hmem : (sampleServices, "blue") ∈ Note.watches notes₂ := of_decide_eq_true hmem
  have hdriven : IsDriven sampleApplicationKind
      (sampleRetry ++ [.checked (.caller 2) (.ok ())]) := by
    simp [IsDriven, sampleRetry, eq_comm]
  have htold : ∀ x ∈ sampleRetry ++ [.checked (.caller 2) (.ok ())], ∀ k, x.told? = some k →
      k = sampleApplicationKind ∨ k = sampleServices := by
    simp [sampleRetry, Action.told?, eq_comm]
  have hagree : AgreesOnKinds (sampleRetry ++ [.checked (.caller 2) (.ok ())]) :=
    fun x hx y hy k l hk hl hgvr => by
      have hne : sampleApplicationKind.gvr ≠ sampleServices.gvr := by decide
      rcases htold x hx k hk with rfl | rfl <;> rcases htold y hy l hl with rfl | rfl
      · rfl
      · exact absurd hgvr hne
      · exact absurd hgvr.symm hne
      · rfl
  obtain ⟨hwatches, -⟩ := component_watches_confined sampleApplicationKind "namespaces"
    ["blue", "green"] 64 0 0 (run_append hbefore (run_one hstep)) hdriven hagree
  obtain ⟨-, hpermitted, hfinds⟩ := hwatches sampleRetry _ [] s₁ notes₁ s₂ notes₂ rfl hbefore
    hstep sampleServices "blue" hmem rfl (by decide)
  exact ⟨s₁, notes₁, s₂, notes₂, hbefore, hstep, hmem, hpermitted, hfinds⟩

end System

end AppWatch
