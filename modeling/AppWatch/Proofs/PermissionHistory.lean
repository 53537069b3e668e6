/-
# What is permitted is told by the requests

A filter starts from a global list and answers requests to permit a namespace for a kind.  Nothing
but the global list and the requests themselves decides what it permits in the end: neither their
order, nor how often one is repeated, nor what else was asked.

* `mem_permittedNamespaces_granted`: the permitted namespaces are those that were asked for and that
  the global list admits.
* `Tidy.ext`: these decide the table.  A set is put into it only together with a namespace, so the
  table does not even hold that a kind was asked about in vain.
-/
import AppWatch.Proofs.Permissions
import AppWatch.Proofs.Restriction

namespace AppWatch

/-! ## 1. Requests -/

/-- A request to permit a namespace for a kind. -/
structure PermitRequest where
  kind : GroupVersionResource
  ns : String

/-- Sets with the same members are equal. -/
theorem SortedSet.ext_contains {κ : Type} [Ord κ] [Std.TransOrd κ] [Std.LawfulEqOrd κ]
    {s s' : SortedSet κ} (h : ∀ k, s.contains k = true ↔ s'.contains k = true) : s = s' := by
  refine SortedMap.ext_get? fun k => Option.ext fun u => ?_
  have hsome : ∀ t : SortedSet κ, t.get? k = some u ↔ t.contains k = true := by
    intro t
    cases ht : t.get? k <;> simp [SortedMap.contains, ht]
  rw [hsome, hsome]
  exact h k

namespace NamespaceFilter

/-- A namespace with a name can be permitted if the global list is empty or holds it. -/
def Admits (global : List String) (n : String) : Prop := n ≠ "" ∧ (global = [] ∨ n ∈ global)

/-- The filter after some requests. -/
def permitAll (f : NamespaceFilter) (requests : List PermitRequest) : NamespaceFilter :=
  requests.foldl (fun f r => (f.permit r.kind r.ns).2) f

/-- The filter of a global list after some requests. -/
def granted (global : List String) (requests : List PermitRequest) : NamespaceFilter :=
  (ofList global).permitAll requests

variable {f f' : NamespaceFilter} {k : GroupVersionResource} {n : String} {global : List String}
  {requests : List PermitRequest}

theorem global_permitAll (f : NamespaceFilter) (requests : List PermitRequest) :
    (f.permitAll requests).global = f.global := by
  induction requests generalizing f with
  | nil => rfl
  | cons r rest ih => exact (ih _).trans (Registry.global_permit f r.kind r.ns)

/-- The global list of a filter grants what it admits. -/
theorem grants_ofList (global : List String) (n : String) :
    (ofList global).grants n = true ↔ Admits global n := by
  have hpermitted : (ofList global).isPermitted n = true ↔ global = [] ∨ n ∈ global := by
    by_cases hempty : global = []
    · subst hempty
      simp [isPermitted, permitsAll, ofList, SortedSet.ofList, SortedMap.isEmpty, SortedMap.empty]
    · have hmem : (ofList global).global.contains n = true ↔ n ∈ global :=
        SortedSet.contains_ofList_iff
      simp [isPermitted, System.permitsAll_ofList hempty, hmem, hempty]
  unfold grants Admits
  rw [Bool.and_eq_true, hpermitted, bne_iff_ne]

theorem grants_granted (global : List String) (requests : List PermitRequest) (n : String) :
    (granted global requests).grants n = true ↔ Admits global n := by
  rw [granted, grants_congr (global_permitAll _ requests), grants_ofList]

/-- **Requests permit what they ask for**, as far as it is granted at all. -/
theorem mem_permittedNamespaces_permitAll :
    n ∈ (f.permitAll requests).permittedNamespaces k ↔
      n ∈ f.permittedNamespaces k ∨ f.grants n = true ∧ ⟨k, n⟩ ∈ requests := by
  induction requests generalizing f with
  | nil => simp [permitAll]
  | cons r rest ih =>
    have hcons : f.permitAll (r :: rest) = (f.permit r.kind r.ns).2.permitAll rest := rfl
    have hhead : (⟨k, n⟩ : PermitRequest) = r ↔ k = r.kind ∧ n = r.ns := by
      cases r
      simp
    rw [hcons, ih, mem_permittedNamespaces_permit, grants_permit, List.mem_cons, hhead]
    constructor
    · rintro ((hbefore | ⟨hk, hn, hgrants⟩) | ⟨hgrants, hrest⟩)
      · exact .inl hbefore
      · exact .inr ⟨hn ▸ hgrants, .inl ⟨hk, hn⟩⟩
      · exact .inr ⟨hgrants, .inr hrest⟩
    · rintro (hbefore | ⟨hgrants, ⟨hk, hn⟩ | hrest⟩)
      · exact .inl (.inl hbefore)
      · exact .inl (.inr ⟨hk, hn, hn ▸ hgrants⟩)
      · exact .inr ⟨hgrants, hrest⟩

theorem mem_permittedNamespaces_granted :
    n ∈ (granted global requests).permittedNamespaces k ↔
      Admits global n ∧ ⟨k, n⟩ ∈ requests := by
  have hnone : n ∉ (ofList global).permittedNamespaces k := List.not_mem_nil
  rw [granted, mem_permittedNamespaces_permitAll, grants_ofList]
  simp [hnone]

/-- The answer to a request says whether it permits something new. -/
theorem answer_permit (f : NamespaceFilter) (k : GroupVersionResource) (n : String) :
    (f.permit k n).1 = true ↔ f.grants n = true ∧ n ∉ f.permittedNamespaces k := by
  have hmem : f.isPermittedFor k n = true ↔ n ∈ f.permittedNamespaces k :=
    mem_permittedNamespaces.symm
  unfold permit
  split
  · next hgrants => simp [hgrants, ← hmem]
  · next hgrants => simp [hgrants]

/-- The permitted namespaces ascend, so none occurs twice. -/
theorem pairwise_permittedNamespaces (f : NamespaceFilter) (k : GroupVersionResource) :
    (f.permittedNamespaces k).Pairwise (· < ·) := by
  have hascending : (f.permittedNamespaces k).Pairwise (compare · · = .lt) :=
    List.pairwise_map.mpr (f.setFor k).ascending
  exact hascending.imp fun h => compareOfLessAndEq_eq_lt.mp h

/-! ## 2. The table -/

/-- Only kinds for which a namespace is permitted are in the table. -/
def Tidy (f : NamespaceFilter) : Prop :=
  ∀ k s, f.perKind.get? k = some s → ∃ n, s.contains n = true

theorem tidy_ofList (global : List String) : (ofList global).Tidy := by
  intro k s hs
  cases hs

theorem Tidy.permit (h : f.Tidy) (k : GroupVersionResource) (n : String) :
    (f.permit k n).2.Tidy := by
  intro k' s hs
  unfold NamespaceFilter.permit at hs
  split at hs
  · rw [SortedMap.get?_insert] at hs
    split at hs
    · obtain rfl := Option.some.inj hs
      exact ⟨n, SortedSet.contains_add_iff.mpr (.inl rfl)⟩
    · exact h k' s hs
  · exact h k' s hs

theorem Tidy.permitAll (h : f.Tidy) (requests : List PermitRequest) :
    (f.permitAll requests).Tidy := by
  induction requests generalizing f with
  | nil => exact h
  | cons r rest ih => exact ih (h.permit r.kind r.ns)

theorem tidy_granted (global : List String) (requests : List PermitRequest) :
    (granted global requests).Tidy :=
  (tidy_ofList global).permitAll requests

/-- In a tidy table the set of a kind, if it has one, is that of its permitted namespaces. -/
theorem Tidy.get?_perKind (h : f.Tidy) (k : GroupVersionResource) :
    f.perKind.get? k =
      if f.permittedNamespaces k = [] then none else some (f.setFor k) := by
  cases hs : f.perKind.get? k with
  | none =>
    have hset : f.setFor k = .empty := by rw [setFor, hs, Option.getD_none]
    simp [permittedNamespaces, hset, SortedMap.keys, SortedMap.empty]
  | some s =>
    have hset : f.setFor k = s := by rw [setFor, hs, Option.getD_some]
    obtain ⟨n, hn⟩ := h k s hs
    have hmem : n ∈ f.permittedNamespaces k := mem_permittedNamespaces.mpr (hset ▸ hn)
    rw [if_neg (List.ne_nil_of_mem hmem), hset]

/-- Tidy tables that permit the same for a kind hold the same for it. -/
theorem Tidy.get?_perKind_eq (h : f.Tidy) (h' : f'.Tidy)
    (hmem : ∀ n, n ∈ f.permittedNamespaces k ↔ n ∈ f'.permittedNamespaces k) :
    f.perKind.get? k = f'.perKind.get? k := by
  have hset : f.setFor k = f'.setFor k := by
    refine SortedSet.ext_contains fun n => ?_
    rw [← mem_permittedNamespaces, ← mem_permittedNamespaces]
    exact hmem n
  rw [h.get?_perKind, h'.get?_perKind, permittedNamespaces, permittedNamespaces, hset]

/-- **A tidy table is decided by what is permitted.** -/
theorem Tidy.ext (h : f.Tidy) (h' : f'.Tidy) (hglobal : f.global = f'.global)
    (hmem : ∀ k n, n ∈ f.permittedNamespaces k ↔ n ∈ f'.permittedNamespaces k) : f = f' := by
  have htable : f.perKind = f'.perKind :=
    SortedMap.ext_get? fun k => h.get?_perKind_eq h' (hmem k)
  cases f
  cases f'
  cases hglobal
  cases htable
  rfl

/-! ## 3. Permissions and their requests -/

/-- **Permissions are exactly their history.**  After any requests to the filter of a global list:

* a request is answered with yes exactly if the list admits its namespace and it was not made
  before;
* a namespace is permitted for a kind exactly if the list admits it and it was asked for, and the
  permitted namespaces of a kind are listed in ascending order, each once;
* without the requests for other kinds, the table would hold the same for a kind, and a further
  request for it would be answered in the same way;
* the table is the same after any other requests, as long as the admissible ones among them are the
  same, in whatever order and however often. -/
theorem permissions_exact (global : List String) (requests : List PermitRequest) :
    (∀ k n, ((granted global requests).permit k n).1 = true ↔
      Admits global n ∧ ⟨k, n⟩ ∉ requests) ∧
    (∀ k n, (granted global requests).isPermittedFor k n = true ↔
      Admits global n ∧ ⟨k, n⟩ ∈ requests) ∧
    (∀ k, (∀ n, n ∈ (granted global requests).permittedNamespaces k ↔
        Admits global n ∧ ⟨k, n⟩ ∈ requests) ∧
      ((granted global requests).permittedNamespaces k).Pairwise (· < ·)) ∧
    (∀ k,
      (granted global (requests.filter fun r => r.kind = k)).perKind.get? k =
          (granted global requests).perKind.get? k ∧
        ∀ n, ((granted global (requests.filter fun r => r.kind = k)).permit k n).1 =
          ((granted global requests).permit k n).1) ∧
    ∀ requests' : List PermitRequest,
      (∀ r : PermitRequest, Admits global r.ns → (r ∈ requests' ↔ r ∈ requests)) →
        granted global requests' = granted global requests := by
  have hanswer : ∀ (requests : List PermitRequest) k n,
      ((granted global requests).permit k n).1 = true ↔
        Admits global n ∧ ⟨k, n⟩ ∉ requests := by
    intro requests k n
    rw [answer_permit, grants_granted, mem_permittedNamespaces_granted]
    constructor
    · rintro ⟨hn, hnew⟩
      exact ⟨hn, fun hmade => hnew ⟨hn, hmade⟩⟩
    · rintro ⟨hn, hnew⟩
      exact ⟨hn, fun hmade => hnew hmade.2⟩
  refine ⟨hanswer requests, fun k n => ?_, fun k => ⟨fun n => mem_permittedNamespaces_granted,
    pairwise_permittedNamespaces _ k⟩, fun k => ⟨?_, fun n => ?_⟩, fun requests' hsame => ?_⟩
  · exact mem_permittedNamespaces.symm.trans mem_permittedNamespaces_granted
  · refine (tidy_granted _ _).get?_perKind_eq (tidy_granted _ _) fun n => ?_
    rw [mem_permittedNamespaces_granted, mem_permittedNamespaces_granted]
    simp
  · rw [Bool.eq_iff_iff, hanswer, hanswer]
    simp
  · refine (tidy_granted _ _).ext (tidy_granted _ _) ?_ fun k n => ?_
    · exact (global_permitAll _ _).trans (global_permitAll _ _).symm
    · rw [mem_permittedNamespaces_granted, mem_permittedNamespaces_granted]
      exact and_congr_right fun hn => hsame ⟨k, n⟩ hn

/-- Requests for two kinds under a global list: one is made twice, one has no name and one asks for
what is not on the list. -/
def sampleRequests : List PermitRequest :=
  let deployments : GroupVersionResource := ⟨"apps", "v1", "deployments"⟩
  [⟨deployments, "prod"⟩, ⟨⟨"", "v1", "services"⟩, "prod"⟩, ⟨deployments, ""⟩,
    ⟨deployments, "blue"⟩, ⟨deployments, "kube-system"⟩, ⟨deployments, "prod"⟩]

/-- After the sample the admissible requests, each made once and in another order, lead to the same
table. -/
theorem permissions_exact_reordered :
    granted ["blue", "prod"] [⟨⟨"", "v1", "services"⟩, "prod"⟩,
      ⟨⟨"apps", "v1", "deployments"⟩, "blue"⟩, ⟨⟨"apps", "v1", "deployments"⟩, "prod"⟩] =
        granted ["blue", "prod"] sampleRequests ∧
      (granted ["blue", "prod"] sampleRequests).permittedNamespaces
        ⟨"apps", "v1", "deployments"⟩ = ["blue", "prod"] := by
  refine ⟨(permissions_exact _ sampleRequests).2.2.2.2 _ ?_, by decide⟩
  rintro ⟨k, n⟩ ⟨hname, hlisted⟩
  have hn : n = "blue" ∨ n = "prod" := by simpa using hlisted
  rcases hn with rfl | rfl <;> simp [sampleRequests, or_comm, or_left_comm]

end NamespaceFilter

end AppWatch
