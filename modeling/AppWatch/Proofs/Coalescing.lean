/-
# Coalescing does not depend on how batches are grouped

A batch is sent for each change, and the processor merges what it takes within one window.  Where a
window ends is a matter of time: of the deadline, of the callbacks of the window before, of the room
in the queue.  So the groups in which batches are merged are as good as arbitrary.

Merging is associative with the empty batch as its unit, so `Batch.coalesce` of a list may be
computed group by group (`Batch.coalesce_map_coalesce`).  It is not commutative, because the later
snapshot wins; but where two batches agree on the keys of both their order does not matter either
(`Batch.merge_comm_iff`).

What the processor holds for a window and the calls it makes for it are those of the coalesced batch
(`Ledger.Balanced.pending_eq`, `isDispatch_iff`).  So the windows of a run tell together what the
accepted batches tell, wherever the deadlines have cut them (`Ledger.Balanced.coalesce_windows`).
-/
import AppWatch.Proofs.Windows
import Mathlib.Data.List.Induction

namespace AppWatch

namespace Batch

/-! ## 1. The laws of merging -/

theorem empty_merge (b : Batch) : empty.merge b = b := by
  obtain ⟨applications, resources⟩ := b
  exact congrArg₂ Batch.mk (SortedMap.empty_merge applications) (SortedMap.empty_merge resources)

theorem merge_empty (b : Batch) : b.merge empty = b := by
  obtain ⟨applications, resources⟩ := b
  exact congrArg₂ Batch.mk (SortedMap.merge_empty applications) (SortedMap.merge_empty resources)

theorem merge_assoc (b c d : Batch) : (b.merge c).merge d = b.merge (c.merge d) := by
  simp only [merge, SortedMap.merge_assoc]

theorem merge_self (b : Batch) : b.merge b = b := by
  simp only [merge, SortedMap.merge_self]

instance : Std.Associative merge := ⟨merge_assoc⟩

/-- Whether two batches have the same snapshot under every key of both. -/
def Agrees (b c : Batch) : Prop :=
  b.applications.Agrees c.applications ∧ b.resources.Agrees c.resources

/-- Batches that agree can be merged in either order, and no others. -/
theorem merge_comm_iff {b c : Batch} : b.merge c = c.merge b ↔ b.Agrees c := by
  simp only [merge, mk.injEq, SortedMap.merge_comm_iff, Agrees]

/-! ## 2. Merging many -/

/-- Merges batches one after the other, in order. -/
def coalesce (bs : List Batch) : Batch := bs.foldl merge empty

/-- Going on from a batch is to merge it with what comes of the rest. -/
theorem foldl_merge (b : Batch) (bs : List Batch) : bs.foldl merge b = b.merge (coalesce bs) := by
  calc bs.foldl merge b
      = bs.foldl merge (b.merge empty) := by rw [merge_empty]
    _ = b.merge (coalesce bs) := List.foldl_assoc

theorem coalesce_append (bs cs : List Batch) :
    coalesce (bs ++ cs) = (coalesce bs).merge (coalesce cs) := by
  rw [coalesce, List.foldl_append]
  exact foldl_merge _ cs

/-- **Groups may be merged first.** -/
theorem coalesce_map_coalesce (groups : List (List Batch)) :
    coalesce (groups.map coalesce) = coalesce groups.flatten := by
  calc coalesce (groups.map coalesce)
      = groups.foldl (fun b group => b.merge (coalesce group)) empty := List.foldl_map
    _ = groups.foldl (fun b group => group.foldl merge b) empty := by simp only [foldl_merge]
    _ = coalesce groups.flatten := List.foldl_flatten.symm

/-- Nothing is owed for no batches. -/
theorem summary_nil (field : Batch → SortedMap ResourceKey ResourceInfo) :
    Summary field [] [] where
  ascending := List.Pairwise.nil
  mem_iff k v := by simp [LastMention]
  occurs k := by simp

/-- What is coalesced has each key of the batches, with the snapshot of the last that has it. -/
theorem summary_coalesce {field : Batch → SortedMap ResourceKey ResourceInfo}
    (hempty : field empty = .empty)
    (hmerge : ∀ b c, field (b.merge c) = (field b).merge (field c)) (bs : List Batch) :
    Summary field bs (field (coalesce bs)).entries := by
  induction bs using List.reverseRecOn with
  | nil =>
    rw [show field (coalesce []) = .empty from hempty]
    exact summary_nil field
  | append_singleton bs b ih =>
    rw [coalesce, List.foldl_concat, hmerge]
    exact ih.merge b

theorem summary_applications (bs : List Batch) :
    Summary applications bs (coalesce bs).applications.entries :=
  summary_coalesce rfl (fun _ _ => rfl) bs

theorem summary_resources (bs : List Batch) :
    Summary resources bs (coalesce bs).resources.entries :=
  summary_coalesce rfl (fun _ _ => rfl) bs

end Batch

/-! ## 3. The batch of a window -/

section Window

variable {field : Batch → SortedMap ResourceKey ResourceInfo} {w : List Batch}
  {es es' : List (ResourceKey × ResourceInfo)}

/-- A window is owed one list of entries. -/
theorem Summary.unique (h : Summary field w es) (h' : Summary field w es') : es = es' :=
  Entries.eq_of_mem_iff h.ascending h'.ascending fun (k, v) =>
    (h.mem_iff k v).trans (h'.mem_iff k v).symm

/-- Maps with the entries that a window is owed are one map. -/
theorem Summary.unique_map {m m' : SortedMap ResourceKey ResourceInfo}
    (h : Summary field w m.entries) (h' : Summary field w m'.entries) : m = m' := by
  obtain ⟨entries, _⟩ := m
  obtain rfl := h.unique h'
  rfl

/-- **A window is owed the calls of its coalesced batch.** -/
theorem isDispatch_iff {calls : List StatusCall} :
    IsDispatch w calls ↔ calls = (Batch.coalesce w).calls := by
  constructor
  · rintro ⟨resources, applications, hr, ha, rfl⟩
    rw [hr.unique (Batch.summary_resources w), ha.unique (Batch.summary_applications w),
      Batch.calls]
  · rintro rfl
    exact isDispatch_calls (Batch.summary_resources w) (Batch.summary_applications w)

end Window

namespace Ledger

variable {ι : Type} {p : Pipeline ι} {l : Ledger}

theorem balanced_fresh (ι : Type) (capacity window now : Nat) :
    Balanced (Pipeline.fresh ι capacity window now) {} :=
  ⟨rfl, by simp, rfl, fun he => absurd he (by simp [Pipeline.fresh, HasEnded])⟩

/-- What the processor holds for the open window. -/
theorem Balanced.pending_eq {pending : Batch} {deadline : Nat} (h : Balanced p l)
    (hphase : p.phase = .collecting pending deadline) :
    pending = Batch.coalesce l.current.batches := by
  have hst := h.standing
  rw [hphase] at hst
  obtain ⟨-, -, hr, ha⟩ := hst
  obtain ⟨applications, resources⟩ := pending
  exact congrArg₂ Batch.mk (ha.unique_map (Batch.summary_applications _))
    (hr.unique_map (Batch.summary_resources _))

/-- **Wherever the windows are cut, they come to what the accepted batches come to.** -/
theorem Balanced.coalesce_windows (h : Balanced p l) :
    Batch.coalesce ((l.past ++ [l.current]).map (fun w => Batch.coalesce w.batches) ++
      p.queue.items) = Batch.coalesce l.accepted := by
  have hwindows : (l.past ++ [l.current]).map (fun w => Batch.coalesce w.batches) =
      ((l.past ++ [l.current]).map Window.batches).map Batch.coalesce :=
    (List.map_map (f := Window.batches) (g := Batch.coalesce)).symm
  rw [← h.conserved, Batch.coalesce_append, hwindows, Batch.coalesce_map_coalesce,
    ← Batch.coalesce_append]
  simp [List.flatMap]

end Ledger

/-! ## 4. Grouping -/

namespace Batch

/-- **Coalescing is independent of grouping.**  Merging is a monoid with the empty batch.  Cut a
list of batches into groups in any way: to merge each group and then the results is to merge all of
them.  The outcome has the keys that occur in the batches, applications and other resources apart,
each with the snapshot of the last batch that has it.  To merge a batch into itself changes nothing,
and two batches can be merged in either order exactly if they agree on the keys of both.

So it is with the windows of the processor, in every run with whatever senders, times and deadlines:
the calls of a past window are those of its batches merged, an open window holds its batches merged,
and all windows merged, with what still waits in the queue, are the accepted batches merged. -/
theorem grouping_immaterial :
    (∀ b : Batch, empty.merge b = b ∧ b.merge empty = b) ∧
      (∀ b c d : Batch, (b.merge c).merge d = b.merge (c.merge d)) ∧
      (∀ groups : List (List Batch), coalesce (groups.map coalesce) = coalesce groups.flatten) ∧
      (∀ bs, Summary applications bs (coalesce bs).applications.entries ∧
        Summary resources bs (coalesce bs).resources.entries) ∧
      (∀ b : Batch, b.merge b = b) ∧
      (∀ b c : Batch, b.merge c = c.merge b ↔ b.Agrees c) ∧
      ∀ (ι : Type) [DecidableEq ι] (capacity window now : Nat) (acts : List (Pipeline.Act ι))
        (p : Pipeline ι) (l : Ledger),
        (Pipeline.fresh ι capacity window now).run {} acts = some (p, l) →
          (∀ w ∈ l.past, w.calls = (coalesce w.batches).calls) ∧
          (∀ pending deadline, p.phase = .collecting pending deadline →
            pending = coalesce l.current.batches) ∧
          coalesce ((l.past ++ [l.current]).map (fun w => coalesce w.batches) ++ p.queue.items) =
            coalesce l.accepted := by
  refine ⟨fun b => ⟨empty_merge b, merge_empty b⟩, merge_assoc, coalesce_map_coalesce,
    fun bs => ⟨summary_applications bs, summary_resources bs⟩, merge_self,
    fun b c => merge_comm_iff, ?_⟩
  intro ι _ capacity window now acts p l hrun
  have hb : Ledger.Balanced p l := (Ledger.balanced_fresh ι capacity window now).run acts hrun
  exact ⟨fun w hw => isDispatch_iff.mp (hb.past w hw).2, fun _ _ => hb.pending_eq,
    hb.coalesce_windows⟩

/-- The application of `sampleBatch`, with other labels. -/
def sampleRelabelled : Batch where
  applications := {
    entries := [(⟨{}, "default", "shop"⟩,
      { «namespace» := "default", name := "shop", labels := some .empty })]
    ascending := List.pairwise_singleton _ _ }

/-- Without a window to wait in, an application and its update go into windows of their own.  Merged
they are what one window with both would have been: the update. -/
theorem grouping_immaterial_two_windows :
    let acts : List (Pipeline.Act Nat) :=
      [.send 0 (Pipeline.sampleBatch "shop"), .process 0, .process 0, .process 0, .process 0,
        .send 0 sampleRelabelled, .process 0, .process 0, .process 0, .process 0]
    ∃ p l, (Pipeline.fresh Nat 1 0 0).run {} acts = some (p, l) ∧
      l.past.map Window.batches = [[Pipeline.sampleBatch "shop"], [sampleRelabelled]] ∧
      coalesce ((l.past ++ [l.current]).map (fun w => coalesce w.batches) ++ p.queue.items) =
        coalesce l.accepted ∧
      coalesce l.accepted = sampleRelabelled := by
  intro acts
  refine ⟨_, _, rfl, rfl, ?_, by decide⟩
  exact (grouping_immaterial.2.2.2.2.2.2 Nat 1 0 0 acts _ _ rfl).2.2

end Batch

end AppWatch
