/-
# What a batch holds

The applications of a batch are the ancestors of the snapshots that were resolved for it: for an
application all snapshots of the change, for any other resource those that `Batch.resolved` lists.
The latest snapshot is always among them (`Batch.IsOf.contains`).
-/
import AppWatch.Batch

namespace AppWatch

/-- A sequence that succeeds has succeeded at its first part. -/
theorem exists_of_bind_eq_ok {α β ε : Type} {x : Except ε α} {f : α → Except ε β} {b : β}
    (h : (x >>= f) = .ok b) : ∃ a, x = .ok a ∧ f a = .ok b := by
  cases x with
  | error e => exact absurd h (by simp [bind, Except.bind])
  | ok a => exact ⟨a, rfl, h⟩

theorem toOption_eq_some_iff {α ε : Type} {x : Except ε α} {a : α} :
    x.toOption = some a ↔ x = .ok a := by
  cases x <;> simp [Except.toOption]

/-- The snapshot of the latest object is the latest snapshot. -/
theorem Change.latest_mapM? {α β ε : Type} {f : α → Except ε β} {c : Change α} {c' : Change β}
    (h : c.mapM? f = .ok c') : f c.latest = .ok c'.latest := by
  cases c with
  | added new =>
    obtain ⟨n, hn, hc⟩ := exists_of_bind_eq_ok h
    cases hc
    exact hn
  | updated old new =>
    obtain ⟨o, -, hc⟩ := exists_of_bind_eq_ok h
    obtain ⟨n, hn, hc⟩ := exists_of_bind_eq_ok hc
    cases hc
    exact hn
  | deleted old =>
    obtain ⟨o, ho, hc⟩ := exists_of_bind_eq_ok h
    cases hc
    exact ho

namespace Batch

variable {r : Resolver} {change : Change ResourceInfo} {b : Batch} {k : ResourceKey}

/-- The snapshots whose ancestors go into the batch of a change. -/
def resolved : Change ResourceInfo → List ResourceInfo
  | .added new => [new]
  | .updated old new => if sameLabels old.labels new.labels then [new] else [old, new]
  | .deleted old => [old]

theorem contains_addApplications {found : FoundApplications} :
    (b.addApplications found).applications.contains k = true ↔
      b.applications.contains k = true ∨ found.contains k = true := by
  rw [addApplications, SortedMap.contains_merge]

theorem contains_ofResourceChange :
    (ofResourceChange r change).applications.contains k = true ↔
      ∃ x ∈ resolved change, (r.ancestorsOf x).contains k = true := by
  have hempty : empty.applications.contains k = false := rfl
  cases change with
  | added new => simp [ofResourceChange, resolved, addResource, contains_addApplications, hempty]
  | deleted old => simp [ofResourceChange, resolved, contains_addApplications, hempty]
  | updated old new =>
    simp only [ofResourceChange, resolved]
    split <;> simp [addResource, contains_addApplications, hempty]

theorem contains_ofApplicationChange :
    (ofApplicationChange r change).applications.contains k = true ↔
      ∃ x ∈ change.snapshots, (r.ancestorsOf x).contains k = true := by
  have hempty : empty.applications.contains k = false := rfl
  cases change with
  | added new => simp [ofApplicationChange, Change.snapshots, contains_addApplications, hempty]
  | deleted old => simp [ofApplicationChange, Change.snapshots, contains_addApplications, hempty]
  | updated old new =>
    simp [ofApplicationChange, Change.snapshots, contains_addApplications, hempty]

/-- A batch is that of a change over the applications of a resolver. -/
def IsOf (r : Resolver) (change : Change ResourceInfo) (b : Batch) : Prop :=
  b = ofResourceChange r change ∨ b = ofApplicationChange r change

/-- Whichever way a batch was built, the ancestors of the latest snapshot are in it. -/
theorem IsOf.contains (h : b.IsOf r change)
    (hk : (r.ancestorsOf change.latest).contains k = true) : b.applications.contains k = true := by
  rcases h with rfl | rfl
  · refine contains_ofResourceChange.mpr ⟨change.latest, ?_, hk⟩
    cases change with
    | added new => exact List.mem_singleton_self _
    | deleted old => exact List.mem_singleton_self _
    | updated old new =>
      simp only [resolved, Change.latest]
      split <;> simp
  · refine contains_ofApplicationChange.mpr ⟨change.latest, ?_, hk⟩
    cases change <;> simp [Change.latest, Change.snapshots]

/-- A batch that holds an application is not empty. -/
theorem isEmpty_eq_false (hk : b.applications.contains k = true) : b.isEmpty = false := by
  obtain ⟨⟨entries, _⟩, _⟩ := b
  cases entries with
  | nil => exact absurd hk (by simp [SortedMap.contains, SortedMap.get?, Entries.lookup])
  | cons e es => rfl

end Batch

end AppWatch
