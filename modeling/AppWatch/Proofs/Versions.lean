/-
# Snapshots that follow the log

A batch carries snapshots of applications, and the log of the application kind says which versions
there have been.  This module compares the two.  A version is current if the log has no later change
to an object of the same identity (`ResourceEvent.IsCurrent`); a list of snapshots of one
application is in order if each can be dated by a change that it shows and the dates never go back
(`ResourceEvent.InOrder`).  A snapshot of a current version may always be added at the end
(`InOrder.snoc`), because no snapshot of the same application can have a later date.

Two facts connect this with the engine.

* **What is cached is current, and so is what is reported.**  An event that a worker takes keeps the
  cached versions current, and each change it makes stands in the log it has become part of
  (`WatchCache.current_apply`).
* **A batch shows only what is current.**  Whatever walk has found a snapshot, it was the snapshot
  of a cached application or of the change itself (`Registry.current_of_mention`).  In an update the
  old version is walked first, so under the identity of the new one the batch has the new one.
-/
import AppWatch.Proofs.ChangeLog
import AppWatch.Proofs.Snapshot

namespace AppWatch

/-! ## 1. Which object a snapshot shows -/

/-- The identity of an object among those of a kind; objects without a name have none. -/
def ClusterObject.identity? (o : ClusterObject) (gvr : GroupVersionResource) :
    Option ResourceKey :=
  o.metadata.name.map fun name => ⟨gvr, o.metadata.«namespace».getD "", name⟩

/-- A snapshot was taken of this version of an object. -/
def ResourceInfo.Shows (x : ResourceInfo) (gvr : GroupVersionResource) (o : ClusterObject) : Prop :=
  ∃ kind : KindDescriptor, kind.gvr = gvr ∧ ResourceInfo.ofObject kind o = .ok x

variable {gvr : GroupVersionResource} {o o' : ClusterObject} {x : ResourceInfo}

theorem ResourceInfo.Shows.identity? (h : x.Shows gvr o) : o.identity? gvr = some x.key := by
  obtain ⟨kind, rfl, h⟩ := h
  unfold ofObject at h
  split at h
  · exact absurd h (by simp)
  · next name hn =>
    rw [← Except.ok.inj h, ClusterObject.identity?, hn]
    rfl

/-- The identity of an object determines its key. -/
theorem ClusterObject.key?_eq_identity? (o : ClusterObject) (gvr : GroupVersionResource) :
    o.key? = (o.identity? gvr).map ResourceKey.objectKey := by
  unfold key? identity?
  rw [Option.map_map]
  refine congrArg (o.metadata.name.map ·) (funext fun name => ?_)
  cases o.metadata.«namespace» <;> rfl

theorem ClusterObject.identity?_ne (h : o.key? ≠ o'.key?) : o.identity? gvr ≠ o'.identity? gvr := by
  intro he
  rw [o.key?_eq_identity? gvr, o'.key?_eq_identity? gvr, he] at h
  exact h rfl

/-- Each snapshot of a converted change was taken of a version of the change. -/
theorem Change.exists_of_mem_mapM? {α β ε : Type} {f : α → Except ε β} {c : Change α}
    {c' : Change β} (h : c.mapM? f = .ok c') {y : β} (hy : y ∈ c'.snapshots) :
    ∃ x ∈ c.snapshots, f x = .ok y := by
  cases c with
  | added new =>
    obtain ⟨n, hn, hc⟩ := exists_of_bind_eq_ok h
    cases hc
    exact ⟨new, List.mem_singleton_self _, List.mem_singleton.mp hy ▸ hn⟩
  | updated old new =>
    obtain ⟨o, ho, hc⟩ := exists_of_bind_eq_ok h
    obtain ⟨n, hn, hc⟩ := exists_of_bind_eq_ok hc
    cases hc
    rcases List.mem_cons.mp hy with rfl | hy
    · exact ⟨old, List.mem_cons_self, ho⟩
    · exact ⟨new, List.mem_cons_of_mem _ List.mem_cons_self, List.mem_singleton.mp hy ▸ hn⟩
  | deleted old =>
    obtain ⟨o, ho, hc⟩ := exists_of_bind_eq_ok h
    cases hc
    exact ⟨old, List.mem_singleton_self _, List.mem_singleton.mp hy ▸ ho⟩

/-! ## 2. Dates in a log -/

namespace ResourceEvent

/-- A log has left an object in this version: no later change is to an object of the same identity.
A deletion leaves the version that it takes away. -/
def IsCurrent (gvr : GroupVersionResource) (log : List ResourceEvent) (o : ClusterObject) : Prop :=
  ∃ (date : Nat) (e : ResourceEvent), log[date]? = some e ∧ e.change.latest = o ∧
    ∀ later d, date < later → log[later]? = some d →
      d.change.latest.identity? gvr ≠ o.identity? gvr

/-- Snapshots of one application follow a log: each can be dated by a change that it shows, and the
dates never go back. -/
def InOrder (gvr : GroupVersionResource) (log : List ResourceEvent) (k : ResourceKey)
    (snapshots : List ResourceInfo) : Prop :=
  ∃ dated : List (Nat × ResourceInfo), dated.map (·.2) = snapshots ∧
    dated.Pairwise (fun d d' => d.1 ≤ d'.1) ∧
    ∀ d ∈ dated, d.2.key = k ∧ ∃ e, log[d.1]? = some e ∧ d.2.Shows gvr e.change.latest

/-- What a change reports stands in a log: its latest version is current, and so is every other
version that is not of the same object. -/
structure Recorded (gvr : GroupVersionResource) (log : List ResourceEvent)
    (change : Change ClusterObject) : Prop where
  latest : IsCurrent gvr log change.latest
  others : ∀ o ∈ change.snapshots,
    o.identity? gvr = change.latest.identity? gvr ∨ IsCurrent gvr log o

variable {log more : List ResourceEvent} {k : ResourceKey} {vs vs' : List ResourceInfo}

/-- What is current stays so until the object changes. -/
theorem IsCurrent.append (h : IsCurrent gvr log o)
    (hmore : ∀ d ∈ more, d.change.latest.identity? gvr ≠ o.identity? gvr) :
    IsCurrent gvr (log ++ more) o := by
  obtain ⟨date, e, he, ho, hlater⟩ := h
  have hlt : date < log.length := (List.getElem?_eq_some_iff.mp he).1
  refine ⟨date, e, (List.getElem?_append_left hlt).trans he, ho, fun later d hl hd => ?_⟩
  rw [List.getElem?_append] at hd
  split at hd
  · exact hlater later d hl hd
  · exact hmore d (List.mem_of_getElem? hd)

/-- The last change to an object leaves its latest version current. -/
theorem isCurrent_of_split {before after : List ResourceEvent} {e : ResourceEvent}
    (hafter : ∀ d ∈ after, d.change.latest.identity? gvr ≠ e.change.latest.identity? gvr) :
    IsCurrent gvr (before ++ e :: after) e.change.latest := by
  refine ⟨before.length, e, ?_, rfl, fun later d hl hd => hafter d ?_⟩
  · rw [List.getElem?_append_right (Nat.le_refl _), Nat.sub_self]
    rfl
  · rw [List.getElem?_append_right (Nat.le_of_lt hl), List.getElem?_cons,
      if_neg (Nat.sub_ne_zero_of_lt hl)] at hd
    exact List.mem_of_getElem? hd

/-- No two versions of one object are current. -/
theorem IsCurrent.eq (h : IsCurrent gvr log o) (h' : IsCurrent gvr log o')
    (hid : o.identity? gvr = o'.identity? gvr) : o = o' := by
  obtain ⟨date, e, he, rfl, hlater⟩ := h
  obtain ⟨date', e', he', rfl, hlater'⟩ := h'
  rcases Nat.lt_trichotomy date date' with hlt | rfl | hlt
  · exact absurd hid.symm (hlater date' e' hlt he')
  · rw [Option.some.inj (he.symm.trans he')]
  · exact absurd hid (hlater' date e hlt he)

theorem inOrder_nil (gvr : GroupVersionResource) (log : List ResourceEvent) (k : ResourceKey) :
    InOrder gvr log k [] :=
  ⟨[], rfl, List.Pairwise.nil, fun _ h => absurd h (by simp)⟩

/-- What is left of snapshots in order is in order. -/
theorem InOrder.sublist (h : InOrder gvr log k vs) (hsub : vs'.Sublist vs) :
    InOrder gvr log k vs' := by
  obtain ⟨dated, rfl, hdates, hshow⟩ := h
  obtain ⟨dated', hsub', rfl⟩ := List.sublist_map_iff.mp hsub
  exact ⟨dated', rfl, hdates.sublist hsub', fun d hd => hshow d (hsub'.subset hd)⟩

/-- A longer log dates what the shorter one does. -/
theorem InOrder.log_append (h : InOrder gvr log k vs) (more : List ResourceEvent) :
    InOrder gvr (log ++ more) k vs := by
  obtain ⟨dated, hvs, hdates, hshow⟩ := h
  refine ⟨dated, hvs, hdates, fun d hd => ?_⟩
  obtain ⟨hkey, e, he, hshows⟩ := hshow d hd
  have hlt : d.1 < log.length := (List.getElem?_eq_some_iff.mp he).1
  exact ⟨hkey, e, (List.getElem?_append_left hlt).trans he, hshows⟩

/-- **A snapshot of a current version comes after all others.** -/
theorem InOrder.snoc (h : InOrder gvr log k vs) (hx : x.Shows gvr o) (hkey : x.key = k)
    (ho : IsCurrent gvr log o) : InOrder gvr log k (vs ++ [x]) := by
  obtain ⟨dated, rfl, hdates, hshow⟩ := h
  obtain ⟨date, e, he, rfl, hlater⟩ := ho
  refine ⟨dated ++ [(date, x)], by simp, ?_, ?_⟩
  · refine List.pairwise_append.mpr ⟨hdates, List.pairwise_singleton _ _, fun d hd d' hd' => ?_⟩
    rw [List.mem_singleton.mp hd']
    obtain ⟨hdkey, e', he', hshows⟩ := hshow d hd
    refine Nat.le_of_not_lt fun hlt => hlater d.1 e' hlt he' ?_
    rw [hshows.identity?, hx.identity?, hdkey, hkey]
  · intro d hd
    rcases List.mem_append.mp hd with hd | hd
    · exact hshow d hd
    · rw [List.mem_singleton.mp hd]
      exact ⟨hkey, e, he, hx⟩

end ResourceEvent

/-! ## 3. What an event leaves current -/

namespace WatchCache

open ResourceEvent

variable {c : WatchCache} {scope key : String} {e : WatchEvent} {d : ResourceEvent}
  {log : List ResourceEvent}

/-- The versions of a change have its key. -/
theorem key?_of_mem_snapshots (hc : c.Keyed) (hd : d ∈ (c.apply scope e).2)
    (ho : o ∈ d.change.snapshots) : o.key? = some d.key := by
  have heff := effect_apply c scope e
  generalize (c.apply scope e).1.objects = objects at heff
  generalize (c.apply scope e).2 = changes at hd heff
  cases heff with
  | @stored _ new key _ hkey =>
    cases List.mem_singleton.mp hd
    simp only [changeTo] at ho
    split at ho
    · exact List.mem_singleton.mp ho ▸ hkey
    · next old hold =>
      rcases List.mem_cons.mp ho with rfl | ho
      · exact hc _ _ hold
      · exact List.mem_singleton.mp ho ▸ hkey
  | removed hkey =>
    cases List.mem_singleton.mp hd
    exact List.mem_singleton.mp ho ▸ hkey
  | pruned _ =>
    obtain ⟨entry, hentry, rfl⟩ := List.mem_map.mp hd
    have hold := (SortedMap.get?_filter_eq_some.mp (SortedMap.get?_eq_some_iff.mpr hentry)).1
    exact List.mem_singleton.mp ho ▸ hc _ _ hold
  | passed _ => exact absurd hd (by simp)

theorem key?_latest (hc : c.Keyed) (hd : d ∈ (c.apply scope e).2) :
    d.change.latest.key? = some d.key := by
  refine key?_of_mem_snapshots hc hd ?_
  cases d.change <;> simp [Change.latest, Change.snapshots]

/-- An event changes no object twice. -/
theorem pairwise_key_ne (c : WatchCache) (scope : String) (e : WatchEvent) :
    (c.apply scope e).2.Pairwise fun d d' => d.key ≠ d'.key := by
  have heff := effect_apply c scope e
  generalize (c.apply scope e).1.objects = objects at heff
  generalize (c.apply scope e).2 = changes at heff ⊢
  cases heff with
  | stored _ _ => exact List.pairwise_singleton _ _
  | removed _ => exact List.pairwise_singleton _ _
  | @pruned announced _ =>
    refine List.pairwise_map.mpr (List.Pairwise.imp ?_
      (c.objects.filter (isStale scope announced)).ascending)
    intro entry entry' hlt heq
    have hkeys : entry.1 = entry'.1 := heq
    rw [hkeys] at hlt
    simp at hlt
  | passed _ => exact List.Pairwise.nil

/-- A version of a change that is not its latest was cached, and the change is the only one. -/
theorem cached_of_mem_snapshots (hd : d ∈ (c.apply scope e).2) (ho : o ∈ d.change.snapshots)
    (hne : o ≠ d.change.latest) :
    c.objects.get? d.key = some o ∧ (c.apply scope e).2 = [d] := by
  have heff := effect_apply c scope e
  generalize (c.apply scope e).1.objects = objects at heff
  generalize (c.apply scope e).2 = changes at hd heff ⊢
  cases heff with
  | @stored _ new key _ hkey =>
    cases List.mem_singleton.mp hd
    refine ⟨?_, rfl⟩
    simp only [changeTo] at ho hne
    split at ho
    · next hnone =>
      rw [hnone] at hne
      exact absurd (List.mem_singleton.mp ho) hne
    · next old hold =>
      rw [hold] at hne
      rcases List.mem_cons.mp ho with rfl | ho
      · exact hold
      · exact absurd (List.mem_singleton.mp ho) hne
  | removed _ =>
    cases List.mem_singleton.mp hd
    exact absurd (List.mem_singleton.mp ho) hne
  | pruned _ =>
    obtain ⟨entry, -, rfl⟩ := List.mem_map.mp hd
    exact absurd (List.mem_singleton.mp ho) hne
  | passed _ => exact absurd hd (by simp)

/-- Changes to other keys leave a version current. -/
theorem isCurrent_of_key_ne (hc : c.Keyed) (ho : IsCurrent gvr log o) (hkey : o.key? = some key)
    (hne : ∀ d ∈ (c.apply scope e).2, d.key ≠ key) :
    IsCurrent gvr (log ++ (c.apply scope e).2) o := by
  refine ho.append fun d hd => ClusterObject.identity?_ne ?_
  rw [key?_latest hc hd, hkey]
  exact fun he => hne d hd (Option.some.inj he)

/-- The latest version of a change is current once the change is in the log. -/
theorem isCurrent_latest (hc : c.Keyed) (hd : d ∈ (c.apply scope e).2) :
    IsCurrent gvr (log ++ (c.apply scope e).2) d.change.latest := by
  obtain ⟨before, after, hsplit⟩ := List.append_of_mem hd
  have hpairwise := pairwise_key_ne c scope e
  rw [hsplit] at hpairwise
  have hafter := (List.pairwise_cons.mp (List.pairwise_append.mp hpairwise).2.1).1
  rw [hsplit, ← List.append_assoc]
  refine isCurrent_of_split fun d' hd' => ClusterObject.identity?_ne ?_
  have hmem : d' ∈ (c.apply scope e).2 := by
    rw [hsplit]
    exact List.mem_append_right _ (List.mem_cons_of_mem _ hd')
  rw [key?_latest hc hd, key?_latest hc hmem]
  exact fun he => hafter d' hd' (Option.some.inj he).symm

/-- **An event leaves what is cached current, and what it reports stands.** -/
theorem current_apply (hc : c.Keyed)
    (hcached : ∀ key o, c.objects.get? key = some o → IsCurrent gvr log o) (scope : String)
    (e : WatchEvent) :
    (∀ key o, (c.apply scope e).1.objects.get? key = some o →
      IsCurrent gvr (log ++ (c.apply scope e).2) o) ∧
    ∀ d ∈ (c.apply scope e).2, Recorded gvr (log ++ (c.apply scope e).2) d.change := by
  constructor
  · intro key o ho
    rw [← replay_apply] at ho
    rcases exists_latest ho with ⟨hold, hsilent⟩ | ⟨before, d, after, hsplit, -, hversion, -⟩
    · exact isCurrent_of_key_ne hc (hcached key o hold) (hc key o hold) hsilent
    · have hd : d ∈ (c.apply scope e).2 := by
        rw [hsplit]
        exact List.mem_append_right _ List.mem_cons_self
      have hlatest : d.change.latest = o := by
        unfold version? at hversion
        cases hchange : d.change <;> rw [hchange] at hversion <;> cases hversion <;> rfl
      rw [← hlatest]
      exact isCurrent_latest hc hd
  · intro d hd
    refine ⟨isCurrent_latest hc hd, fun o ho => ?_⟩
    by_cases hne : o = d.change.latest
    · exact .inl (by rw [hne])
    · obtain ⟨hold, honly⟩ := cached_of_mem_snapshots hd ho hne
      by_cases hid : o.identity? gvr = d.change.latest.identity? gvr
      · exact .inl hid
      · right
        rw [honly]
        refine (hcached _ _ hold).append fun d' hd' => ?_
        rw [List.mem_singleton.mp hd']
        exact Ne.symm hid

end WatchCache

/-! ## 4. What a batch shows -/

variable {k : ResourceKey} {v : ResourceInfo}

/-- A walk finds the resource itself or an application of the list. -/
theorem Resolver.get?_ancestorsOf {r : Resolver} (hr : r.Proper)
    (h : (r.ancestorsOf x).get? k = some v) :
    v.key = k ∧ (x.gvr = r.applicationKind ∧ v = x ∨ ∃ a ∈ r.applications, a.resource = v) := by
  rcases (get?_ancestorsOf_iff hr).mp h with ⟨hx, hk, rfl⟩ | ⟨-, hk, habove⟩
  · exact ⟨hk.symm, .inl ⟨hx, rfl⟩⟩
  · obtain ⟨y, a, ha, -, rfl⟩ := habove.isComponentOf
    exact ⟨hk.symm, .inr ⟨a, ha, rfl⟩⟩

namespace Batch

variable {r : Resolver} {change : Change ResourceInfo} {b : Batch}

/-- Whichever way a batch was built, the walk from the latest snapshot was merged last. -/
theorem IsOf.exists_merge (h : b.IsOf r change) :
    ∃ before : FoundApplications, b.applications = before.merge (r.ancestorsOf change.latest) ∧
      ∀ k v, before.get? k = some v →
        ∃ x ∈ change.snapshots, (r.ancestorsOf x).get? k = some v := by
  have hnone : ∀ k v, (SortedMap.empty : FoundApplications).get? k = some v →
      ∃ x ∈ change.snapshots, (r.ancestorsOf x).get? k = some v :=
    fun k v h => absurd h (by simp)
  cases change with
  | added new => rcases h with rfl | rfl <;> exact ⟨_, rfl, hnone⟩
  | deleted old => rcases h with rfl | rfl <;> exact ⟨_, rfl, hnone⟩
  | updated old new =>
    have hold : ∀ k v, (empty.addApplications (r.ancestorsOf old)).applications.get? k = some v →
        ∃ x ∈ (Change.updated old new).snapshots, (r.ancestorsOf x).get? k = some v := by
      intro k v hv
      refine ⟨old, List.mem_cons_self, ?_⟩
      rw [addApplications, SortedMap.get?_merge] at hv
      simpa [empty] using hv
    rcases h with rfl | rfl
    · refine ⟨_, rfl, ?_⟩
      split
      · exact hnone
      · exact hold
    · exact ⟨_, rfl, hold⟩

/-- An entry of a batch was found by the walk from the latest snapshot; or that walk has not found
the key, and another one has. -/
theorem IsOf.get?_cases (h : b.IsOf r change) (hv : b.applications.get? k = some v) :
    (r.ancestorsOf change.latest).get? k = some v ∨
      (r.ancestorsOf change.latest).get? k = none ∧
        ∃ x ∈ change.snapshots, (r.ancestorsOf x).get? k = some v := by
  obtain ⟨before, hmerge, hbefore⟩ := h.exists_merge
  rw [hmerge, SortedMap.get?_merge] at hv
  cases hlatest : (r.ancestorsOf change.latest).get? k with
  | some w =>
    rw [hlatest, Option.some_or] at hv
    exact .inl hv
  | none =>
    rw [hlatest, Option.none_or] at hv
    exact .inr ⟨rfl, hbefore k v hv⟩

end Batch

namespace Registry

open ResourceEvent

variable {r : Registry} {log : List ResourceEvent} {kind : KindDescriptor}
  {change : Change ClusterObject} {parsed : Change ResourceInfo} {b : Batch}

/-- The latest snapshot of a change to an application is in the batch of the change. -/
theorem contains_own (hproper : (r.resolver r.snapshot.1).Proper)
    (hkind : kind.gvr = r.applicationKind.gvr)
    (hparsed : change.mapM? (ResourceInfo.ofObject kind) = .ok parsed)
    (hb : b.IsOf (r.resolver r.snapshot.1) parsed) :
    b.applications.contains parsed.latest.key = true := by
  refine hb.contains ((Resolver.contains_ancestorsOf hproper).mpr (.inl ⟨?_, rfl⟩))
  exact (ResourceInfo.gvr_ofObject (Change.latest_mapM? hparsed)).trans hkind

/-- **A batch shows only what is current**, if the cached applications are current and, for the
batch of a change to an application, the change stands. -/
theorem current_of_mention (hproper : (r.resolver r.snapshot.1).Proper)
    (hcached : ∀ key o, r.cached r.applicationKind.gvr key = some o →
      IsCurrent r.applicationKind.gvr log o)
    (hparsed : change.mapM? (ResourceInfo.ofObject kind) = .ok parsed)
    (hrecorded : kind.gvr = r.applicationKind.gvr → Recorded r.applicationKind.gvr log change)
    (hb : b.IsOf (r.resolver r.snapshot.1) parsed) (hv : b.applications.get? k = some v) :
    v.key = k ∧ ∃ o, v.Shows r.applicationKind.gvr o ∧ IsCurrent r.applicationKind.gvr log o := by
  -- whatever a walk finds in the list was parsed from a cached object
  have hlisted : ∀ a ∈ r.snapshot.1,
      ∃ o, a.resource.Shows r.applicationKind.gvr o ∧ IsCurrent r.applicationKind.gvr log o := by
    intro a ha
    obtain ⟨key, o, ho, hparsed⟩ := mem_snapshot.mp ha
    exact ⟨o, ⟨_, rfl, Application.resource_ofObject hparsed⟩, hcached key o ho⟩
  rcases hb.get?_cases hv with hfound | ⟨hnone, x, hx, hfound⟩
  · obtain ⟨hkey, ⟨hgvr, rfl⟩ | ⟨a, ha, rfl⟩⟩ := Resolver.get?_ancestorsOf hproper hfound
    · have hlatest := Change.latest_mapM? hparsed
      have hkind : kind.gvr = r.applicationKind.gvr :=
        (ResourceInfo.gvr_ofObject hlatest).symm.trans hgvr
      exact ⟨hkey, _, ⟨kind, hkind, hlatest⟩, (hrecorded hkind).latest⟩
    · exact ⟨hkey, hlisted a ha⟩
  · obtain ⟨hkey, ⟨hgvr, rfl⟩ | ⟨a, ha, rfl⟩⟩ := Resolver.get?_ancestorsOf hproper hfound
    · obtain ⟨o, ho, hshown⟩ := Change.exists_of_mem_mapM? hparsed hx
      have hkind : kind.gvr = r.applicationKind.gvr :=
        (ResourceInfo.gvr_ofObject hshown).symm.trans hgvr
      have hshows : v.Shows r.applicationKind.gvr o := ⟨kind, hkind, hshown⟩
      have hlatest : parsed.latest.Shows r.applicationKind.gvr change.latest :=
        ⟨kind, hkind, Change.latest_mapM? hparsed⟩
      refine ⟨hkey, o, hshows, ((hrecorded hkind).others o ho).resolve_left fun hid => ?_⟩
      -- the walk from the latest snapshot begins with that snapshot
      rw [hshows.identity?, hlatest.identity?, hkey] at hid
      have hlatestGvr := (ResourceInfo.gvr_ofObject (Change.latest_mapM? hparsed)).trans hkind
      have hown := (Resolver.contains_ancestorsOf hproper).mpr
        (.inl ⟨hlatestGvr, Option.some.inj hid⟩)
      rw [SortedMap.contains, hnone] at hown
      exact absurd hown (by simp)
    · exact ⟨hkey, hlisted a ha⟩

end Registry

end AppWatch
