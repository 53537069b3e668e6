/-
# What is in a batch is where it belongs

A batch has two maps, and which of them an entry goes into is decided three times: by the handler
that a kind has, by the kind that a snapshot was stamped with when it was taken, and by the test of
the walk that collects only what is of the application kind.  The three agree (`Batch.IsDivided`):
the walk finds applications and nothing else, and a resource is added by the handler of the other
kinds only.

From the builders on nothing can bring the two maps together.  A merge takes each map by itself
(`Batch.IsDivided.merge`), the processor only merges, and the calls that it makes of a window are
the entries of what it has merged (`Pipeline.WellFormed.step`).
-/
import AppWatch.Proofs.Recompute
import AppWatch.Proofs.Shipments
import AppWatch.Proofs.Versions

namespace AppWatch

/-! ## 1. Well-formed batches -/

theorem SortedMap.isEmpty_iff {κ α : Type} [Ord κ] [Std.TransOrd κ] [Std.LawfulEqOrd κ]
    {m : SortedMap κ α} : m.isEmpty = true ↔ ∀ k, m.get? k = none := by
  constructor
  · intro h k
    rw [get?, List.isEmpty_iff.mp h]
    rfl
  · intro h
    refine List.isEmpty_iff.mpr (List.eq_nil_iff_forall_not_mem.mpr fun e he => ?_)
    exact absurd ((h e.1).symm.trans (get?_eq_some_iff.mpr he)) (by simp)

namespace Batch

/-- Every entry stands under the identity that it has; the applications are of the application kind
and the resources are not. -/
structure IsDivided (app : GroupVersionResource) (b : Batch) : Prop where
  applications : ∀ k x, b.applications.get? k = some x → x.key = k ∧ k.gvr = app
  resources : ∀ k x, b.resources.get? k = some x → x.key = k ∧ k.gvr ≠ app

/-- A batch that has entries, each where it belongs. -/
structure WellFormed (app : GroupVersionResource) (b : Batch) : Prop extends b.IsDivided app where
  nonempty : b.isEmpty = false

variable {app : GroupVersionResource} {b c : Batch} {k : ResourceKey} {r : Resolver}
  {change : Change ResourceInfo} {x : ResourceInfo}

/-- No key is on both sides. -/
theorem IsDivided.disjoint (h : b.IsDivided app) (happ : b.applications.contains k = true) :
    b.resources.contains k = false := by
  obtain ⟨x, hx⟩ := Option.isSome_iff_exists.mp happ
  cases hy : b.resources.get? k with
  | none => rw [SortedMap.contains, hy, Option.isSome_none]
  | some y => exact absurd (h.applications k x hx).2 (h.resources k y hy).2

/-- An entry of a merged batch is one of the two. -/
theorem IsDivided.merge (hb : b.IsDivided app) (hc : c.IsDivided app) :
    (b.merge c).IsDivided app := by
  refine ⟨fun k x h => ?_, fun k x h => ?_⟩
  · rw [Batch.merge, SortedMap.get?_merge] at h
    rcases Option.or_eq_some_iff.mp h with h | ⟨-, h⟩
    · exact hc.applications k x h
    · exact hb.applications k x h
  · rw [Batch.merge, SortedMap.get?_merge] at h
    rcases Option.or_eq_some_iff.mp h with h | ⟨-, h⟩
    · exact hc.resources k x h
    · exact hb.resources k x h

theorem isEmpty_iff : b.isEmpty = true ↔
    (∀ k, b.applications.get? k = none) ∧ ∀ k, b.resources.get? k = none := by
  rw [isEmpty, Bool.and_eq_true, SortedMap.isEmpty_iff, SortedMap.isEmpty_iff]

/-- A merge has what the first batch has. -/
theorem isEmpty_merge (hb : b.isEmpty = false) : (b.merge c).isEmpty = false := by
  refine Bool.eq_false_iff.mpr fun hempty => ?_
  obtain ⟨happs, hresources⟩ := isEmpty_iff.mp hempty
  have hall : b.isEmpty = true := by
    refine isEmpty_iff.mpr ⟨fun k => ?_, fun k => ?_⟩
    · have h := happs k
      rw [merge, SortedMap.get?_merge] at h
      exact (Option.or_eq_none_iff.mp h).2
    · have h := hresources k
      rw [merge, SortedMap.get?_merge] at h
      exact (Option.or_eq_none_iff.mp h).2
  rw [hb] at hall
  exact absurd hall (by simp)

theorem WellFormed.merge (hb : b.WellFormed app) (hc : c.WellFormed app) :
    (b.merge c).WellFormed app :=
  ⟨hb.toIsDivided.merge hc.toIsDivided, isEmpty_merge hb.nonempty⟩

/-! ## 2. What the builders put in -/

/-- Whichever way a batch was built, its applications are of the application kind. -/
theorem IsOf.gvr_of_get? (h : b.IsOf r change) (hr : r.Proper)
    (hx : b.applications.get? k = some x) : x.key = k ∧ k.gvr = r.applicationKind := by
  obtain ⟨y, hy⟩ : ∃ y, (r.ancestorsOf y).get? k = some x := by
    rcases h.get?_cases hx with hlatest | ⟨-, y, -, hy⟩
    · exact ⟨_, hlatest⟩
    · exact ⟨y, hy⟩
  obtain ⟨rfl, hgvr⟩ := Resolver.get?_ancestorsOf hr hy
  refine ⟨rfl, ?_⟩
  rcases hgvr with ⟨hgvr, rfl⟩ | ⟨a, ha, rfl⟩
  · exact hgvr
  · exact hr.kind a ha

theorem resources_ofApplicationChange (r : Resolver) (change : Change ResourceInfo) :
    (ofApplicationChange r change).resources = .empty := by
  cases change <;> rfl

/-- The batch of a change to a resource has the resource, unless it is gone. -/
theorem resources_ofResourceChange (r : Resolver) (change : Change ResourceInfo) :
    (ofResourceChange r change).resources =
      if change.isDeletion then .empty
      else SortedMap.empty.insert change.latest.key change.latest := by
  cases change with
  | added new => rfl
  | deleted old => rfl
  | updated old new =>
    simp only [ofResourceChange, addResource, addApplications]
    split <;> rfl

/-- The batch of a change to an application has the application, as it is after the change. -/
theorem get?_ofApplicationChange (hr : r.Proper) (hgvr : change.latest.gvr = r.applicationKind) :
    (ofApplicationChange r change).applications.get? change.latest.key = some change.latest := by
  have hown : (r.ancestorsOf change.latest).get? change.latest.key = some change.latest :=
    (Resolver.get?_ancestorsOf_iff hr).mpr (.inl ⟨hgvr, rfl, rfl⟩)
  obtain ⟨before, hmerge, -⟩ := IsOf.exists_merge (b := ofApplicationChange r change) (.inr rfl)
  rw [hmerge, SortedMap.get?_merge, hown, Option.some_or]

theorem divided_ofApplicationChange (hr : r.Proper) :
    (ofApplicationChange r change).IsDivided r.applicationKind := by
  refine ⟨fun k x h => IsOf.gvr_of_get? (.inr rfl) hr h, fun k x h => ?_⟩
  rw [resources_ofApplicationChange] at h
  exact absurd h (by simp)

theorem divided_ofResourceChange (hr : r.Proper) (hgvr : change.latest.gvr ≠ r.applicationKind) :
    (ofResourceChange r change).IsDivided r.applicationKind := by
  refine ⟨fun k x h => IsOf.gvr_of_get? (.inl rfl) hr h, fun k x h => ?_⟩
  rw [resources_ofResourceChange] at h
  split at h
  · exact absurd h (by simp)
  · rw [SortedMap.get?_insert] at h
    split at h
    · next hk =>
      cases h
      exact ⟨hk.symm, hk ▸ hgvr⟩
    · exact absurd h (by simp)

end Batch

/-! ## 3. The window of the processor -/

/-- A callback is for what the window has under the identity it names. -/
def StatusCall.IsProper (app : GroupVersionResource) : StatusCall → Prop
  | .componentChanged key resource => resource.key = key ∧ key.gvr ≠ app
  | .calculateStatus key application => application.key = key ∧ key.gvr = app

/-- What a window has collected is well-formed, and its calls are proper. -/
def Phase.WellFormed (app : GroupVersionResource) : Phase → Prop
  | .collecting pending _ => pending.WellFormed app
  | .calling calls _ | .awaiting _ calls _ => ∀ c ∈ calls, c.IsProper app
  | .idle | .stopped => True

/-- **The calls of a divided batch are proper.** -/
theorem Batch.IsDivided.isProper_calls {app : GroupVersionResource} {b : Batch}
    (h : b.IsDivided app) : ∀ c ∈ b.calls, c.IsProper app := by
  intro c hc
  rcases List.mem_append.mp hc with hc | hc
  · obtain ⟨⟨k, x⟩, he, rfl⟩ := List.mem_map.mp hc
    exact h.resources k x (SortedMap.get?_eq_some_iff.mpr he)
  · obtain ⟨⟨k, x⟩, he, rfl⟩ := List.mem_map.mp hc
    exact h.applications k x (SortedMap.get?_eq_some_iff.mpr he)

namespace Pipeline

variable {ι : Type} {app : GroupVersionResource} {p p' : Pipeline ι}

/-- Every batch on its way to the processor is well-formed, and so is the window. -/
structure WellFormed (app : GroupVersionResource) (p : Pipeline ι) : Prop where
  line : ∀ b ∈ p.queue.line, b.WellFormed app
  phase : p.phase.WellFormed app

theorem wellFormed_fresh (app : GroupVersionResource) (ι : Type) (capacity window now : Nat) :
    (fresh ι capacity window now).WellFormed app :=
  ⟨fun _ hb => absurd hb (List.not_mem_nil), trivial⟩

/-- **A step of the processor keeps everything where it belongs.** -/
theorem WellFormed.step (h : p.WellFormed app) {duration : StatusCall → Nat}
    {call : Option TimedCall} (hs : p.step duration = some (p', call)) :
    p'.WellFormed app ∧ ∀ c ∈ call, c.call.IsProper app := by
  obtain ⟨hline, hphase⟩ := h
  unfold Pipeline.step at hs
  split at hs
  · split at hs
    · next b q hr =>
      cases hs
      rw [line_of_receive hr] at hline
      obtain ⟨hb, hrest⟩ := List.forall_mem_cons.mp hline
      exact ⟨⟨hrest, hb⟩, by simp⟩
    · cases hs
      exact ⟨⟨hline, trivial⟩, by simp⟩
    · cases hs
  · next pending deadline hp =>
    rw [hp] at hphase
    have hcalls := Batch.IsDivided.isProper_calls (b := pending) hphase.toIsDivided
    split at hs
    · next b q hr =>
      cases hs
      rw [line_of_receive hr] at hline
      obtain ⟨hb, hrest⟩ := List.forall_mem_cons.mp hline
      exact ⟨⟨hrest, Batch.WellFormed.merge hphase hb⟩, by simp⟩
    · cases hs
      exact ⟨⟨hline, hcalls⟩, by simp⟩
    · split at hs
      · cases hs
        exact ⟨⟨hline, hcalls⟩, by simp⟩
      · cases hs
  · next final hp =>
    cases hs
    refine ⟨⟨hline, ?_⟩, by simp⟩
    cases final <;> trivial
  · next c cs final hp =>
    rw [hp] at hphase
    obtain ⟨hc, hrest⟩ := List.forall_mem_cons.mp hphase
    cases hs
    refine ⟨⟨hline, ?_⟩, fun d hd => ?_⟩
    · dsimp only
      split <;> exact hrest
    · cases hd
      exact hc
  · next returns cs final hp =>
    rw [hp] at hphase
    split at hs
    · cases hs
      exact ⟨⟨hline, hphase⟩, by simp⟩
    · cases hs
  · cases hs

end Pipeline

end AppWatch
