/-
# The ancestor walk is exact

`Resolver.findAll` walks up along "is a component of" and carries one collection through the whole
walk, so a branch that is explored later sees what the earlier ones have collected.  This module
shows that the sharing costs nothing: the walk adds exactly the applications that lie above the
resource on some path outside the starting collection (`Resolver.Above`).

* **Nothing too much.**  What a branch adds lies above its own root, outside the collection it
  started from.  That collection has only grown since the walk began, so a path that avoids it
  avoids the starting collection too (`Above.below`).
* **Nothing too little.**  When a branch returns, everything it has added has all its parents in
  the collection (`Climbed.closed`).  A path from the root can therefore never leave the
  collection again.
* **The bound on the depth is never felt.**  A step up either ends at once or collects an
  application of the list that was not collected before, so the applications still to be collected
  (`uncollected`) bound the depth that is needed.

The root is special in one respect.  The snapshot from which the walk starts may differ from the
list's entry for the same application; the walk takes its steps from the snapshot, and comes back
to the application without looking at the entry.
-/
import AppWatch.Ancestors
import Mathlib.Data.List.Nodup
import Mathlib.Logic.Relation

namespace AppWatch

namespace Resolver

/-! ## 1. Steps up and the applications above a resource -/

/-- What a list of applications has when it stands for the contents of a cache: all are of the
application kind, and no two have one key. -/
structure Proper (r : Resolver) : Prop where
  kind : ∀ a ∈ r.applications, a.resource.gvr = r.applicationKind
  distinct : (r.applications.map Application.key).Nodup

/-- `z` is an application of the list, and `y` a direct component of it. -/
def IsComponentOf (r : Resolver) (y z : ResourceInfo) : Prop :=
  ∃ a ∈ r.applications, a.hasComponent r.filter y = true ∧ a.resource = z

/-- One step up on a walk from `x` that keeps out of a collection.  From the key of `x` only the
snapshot `x` itself takes steps. -/
def StepUp (r : Resolver) (avoided : FoundApplications) (x y z : ResourceInfo) : Prop :=
  r.IsComponentOf y z ∧ avoided.contains z.key = false ∧ (y.key = x.key → y = x)

/-- `z` is reached from `x` in one or more steps up that all keep out of a collection. -/
def Above (r : Resolver) (avoided : FoundApplications) (x z : ResourceInfo) : Prop :=
  Relation.TransGen (r.StepUp avoided x) x z

variable {r : Resolver} {x y z : ResourceInfo} {found found' : FoundApplications}

theorem mem_applicationsFor {a : Application} :
    a ∈ r.applicationsFor x ↔ a ∈ r.applications ∧ a.hasComponent r.filter x = true := by
  simp [applicationsFor]

theorem isDone_iff :
    r.isDone x found = true ↔ x.gvr = r.applicationKind ∧ found.contains x.key = true := by
  simp [isDone]

/-- An application is never its own component. -/
theorem IsComponentOf.key_ne (h : r.IsComponentOf y z) : z.key ≠ y.key := by
  obtain ⟨a, -, hc, rfl⟩ := h
  intro he
  have hs : a.resource.isSameResource y = true := ResourceInfo.isSameResource_iff.mpr he
  simp [Application.hasComponent, hs] at hc

/-- Whatever has components is of the application kind. -/
theorem IsComponentOf.gvr_eq (hr : r.Proper) (h : r.IsComponentOf y z) :
    z.gvr = r.applicationKind := by
  obtain ⟨a, ha, -, rfl⟩ := h
  exact hr.kind a ha

/-- In a proper list an application is known by its key. -/
theorem Proper.eq_of_key_eq (hr : r.Proper) {a b : Application} (ha : a ∈ r.applications)
    (hb : b ∈ r.applications) (h : a.key = b.key) : a = b :=
  List.inj_on_of_nodup_map hr.distinct ha hb h

theorem IsComponentOf.eq_of_key_eq (hr : r.Proper) {y' z' : ResourceInfo}
    (h : r.IsComponentOf y z) (h' : r.IsComponentOf y' z') (hk : z.key = z'.key) : z = z' := by
  obtain ⟨a, ha, -, rfl⟩ := h
  obtain ⟨b, hb, -, rfl⟩ := h'
  rw [hr.eq_of_key_eq ha hb hk]

/-- The last step on the way to an application above. -/
theorem Above.last (h : r.Above found x z) :
    ∃ y, (y = x ∨ r.Above found x y) ∧ r.StepUp found x y z := by
  cases h with
  | single hs => exact ⟨x, .inl rfl, hs⟩
  | tail hy hs => exact ⟨_, .inr hy, hs⟩

theorem Above.isComponentOf (h : r.Above found x z) : ∃ y, r.IsComponentOf y z := by
  obtain ⟨y, -, hs⟩ := h.last
  exact ⟨y, hs.1⟩

theorem Above.not_avoided (h : r.Above found x z) : found.contains z.key = false := by
  obtain ⟨y, -, hs⟩ := h.last
  exact hs.2.1

theorem Above.gvr_eq (hr : r.Proper) (h : r.Above found x z) : z.gvr = r.applicationKind := by
  obtain ⟨y, hy⟩ := h.isComponentOf
  exact hy.gvr_eq hr

/-- What a walk meets has another key than any resource that it keeps out of. -/
theorem Above.key_ne {p : ResourceInfo} (hr : r.Proper)
    (hown : x.gvr = r.applicationKind → found.contains x.key = true) (h : r.Above found p z) :
    z.key ≠ x.key := by
  intro he
  have hgvr : x.gvr = z.gvr := congrArg ResourceKey.gvr he.symm
  have hin := hown (hgvr.trans (h.gvr_eq hr))
  rw [← he, h.not_avoided] at hin
  exact absurd hin (by simp)

/-- **What lies above a parent lies above its component**, on paths that keep out of a smaller
collection, as long as the key of the component is kept out of as well. -/
theorem Above.below {p : ResourceInfo} (hr : r.Proper)
    (hmono : ∀ k, found'.contains k = false → found.contains k = false)
    (hown : x.gvr = r.applicationKind → found'.contains x.key = true)
    (hp : r.StepUp found x x p) (h : r.Above found' p z) : r.Above found x z := by
  induction h with
  | single hs =>
    refine Relation.TransGen.tail (.single hp) ⟨hs.1, hmono _ hs.2.1, ?_⟩
    exact fun he => absurd he hp.1.key_ne
  | tail hw hs ih =>
    refine Relation.TransGen.tail ih ⟨hs.1, hmono _ hs.2.1, ?_⟩
    exact fun he => absurd he (Above.key_ne hr hown hw)

/-! ## 2. What a walk has done -/

/-- A walk from `x` that has come from one collection to another.  Everything it has added, `x`
itself apart, has its parents in the collection. -/
structure Climbed (r : Resolver) (x : ResourceInfo) (found found' : FoundApplications) : Prop where
  keeps : ∀ {k v}, found.get? k = some v → found'.get? k = some v
  own : x.gvr = r.applicationKind → found'.get? x.key = some x
  closed : ∀ {k v z}, found'.get? k = some v → found.get? k = none → k ≠ x.key →
    r.IsComponentOf v z → found'.contains z.key = true
  sound : ∀ {k v}, found'.get? k = some v → found.get? k = some v ∨
    (x.gvr = r.applicationKind ∧ k = x.key ∧ v = x) ∨
    (k ≠ x.key ∧ k = v.key ∧ r.Above found x v)

/-- A finished walk: nothing has happened if the root was collected already; otherwise the parents
of the root are collected too. -/
def Walked (r : Resolver) (x : ResourceInfo) (found found' : FoundApplications) : Prop :=
  if r.isDone x found then found' = found
  else r.Climbed x found found' ∧ ∀ z, r.IsComponentOf x z → found'.contains z.key = true

theorem contains_of_get? {k : ResourceKey} {v : ResourceInfo} (h : found.get? k = some v) :
    found.contains k = true := by
  simp [SortedMap.contains, h]

theorem get?_eq_none_of_contains {k : ResourceKey} (h : found.contains k = false) :
    found.get? k = none := by
  simpa [SortedMap.contains] using h

theorem Climbed.contains (h : r.Climbed x found found') {k : ResourceKey}
    (hk : found.contains k = true) : found'.contains k = true := by
  obtain ⟨v, hv⟩ := Option.isSome_iff_exists.mp hk
  exact contains_of_get? (h.keeps hv)

theorem Climbed.not_contains (h : r.Climbed x found found') {k : ResourceKey}
    (hk : found'.contains k = false) : found.contains k = false := by
  refine Bool.eq_false_iff.mpr fun hin => ?_
  rw [h.contains hin] at hk
  exact absurd hk (by simp)

/-- Collecting the root begins a walk. -/
theorem climbed_collect (hd : r.isDone x found = false) :
    r.Climbed x found (r.collect x found) := by
  unfold collect
  split
  · rename_i hk
    have hnew : found.contains x.key = false := by
      simpa [isDone, hk] using hd
    refine ⟨?_, fun _ => SortedMap.get?_insert_self _ _ _, ?_, ?_⟩
    · intro k v hv
      have hne : k ≠ x.key := by
        rintro rfl
        rw [contains_of_get? hv] at hnew
        exact absurd hnew (by simp)
      rw [SortedMap.get?_insert_of_ne _ hne]
      exact hv
    · intro k v z hv hn hne _
      rw [SortedMap.get?_insert_of_ne _ hne, hn] at hv
      exact absurd hv (by simp)
    · intro k v hv
      rw [SortedMap.get?_insert] at hv
      split at hv
      · rename_i he
        exact .inr (.inl ⟨hk, he, (Option.some.inj hv).symm⟩)
      · exact .inl hv
  · rename_i hk
    refine ⟨fun hv => hv, fun h => absurd h hk, ?_, fun hv => .inl hv⟩
    intro k v z hv hn _ _
    rw [hn] at hv
    exact absurd hv (by simp)

/-- **A walk from a parent carries the walk on.**  What the branch adds lies above the parent, and
so above the root. -/
theorem Climbed.walked {mid : FoundApplications} (hr : r.Proper) (h : r.Climbed x found mid)
    (hp : r.IsComponentOf x z) (hw : r.Walked z mid found') :
    r.Climbed x found found' ∧ found'.contains z.key = true := by
  have hz : z.gvr = r.applicationKind := hp.gvr_eq hr
  unfold Walked at hw
  split at hw
  · rename_i hd
    subst hw
    exact ⟨h, (isDone_iff.mp hd).2⟩
  · rename_i hd
    obtain ⟨hc, hpar⟩ := hw
    have hzmid : mid.contains z.key = false := by
      simpa [isDone, hz] using hd
    have hzfound : found.contains z.key = false := h.not_contains hzmid
    have hstep : r.StepUp found x x z := ⟨hp, hzfound, fun _ => rfl⟩
    have hown : x.gvr = r.applicationKind → mid.contains x.key = true :=
      fun hx => contains_of_get? (h.own hx)
    refine ⟨⟨fun hv => hc.keeps (h.keeps hv), fun hx => hc.keeps (h.own hx), ?_, ?_⟩,
      contains_of_get? (hc.own hz)⟩
    · intro k v w hv hn hne hcomp
      cases hm : mid.get? k with
      | some v' =>
        have hv' : v' = v := Option.some.inj ((hc.keeps hm).symm.trans hv)
        subst hv'
        exact hc.contains (h.closed hm hn hne hcomp)
      | none =>
        by_cases hk : k = z.key
        · subst hk
          have hvz : z = v := Option.some.inj ((hc.own hz).symm.trans hv)
          subst hvz
          exact hpar w hcomp
        · exact hc.closed hv hm hk hcomp
    · intro k v hv
      rcases hc.sound hv with hm | ⟨-, rfl, rfl⟩ | ⟨-, hk, ha⟩
      · exact h.sound hm
      · exact .inr (.inr ⟨hp.key_ne, rfl, .single hstep⟩)
      · have hne : v.key ≠ x.key := Above.key_ne hr hown ha
        exact .inr (.inr ⟨hk ▸ hne, hk, ha.below hr (fun _ => h.not_contains) hown hstep⟩)

/-! ## 3. The depth that is needed -/

/-- How many applications of the list a collection lacks. -/
def uncollected (r : Resolver) (found : FoundApplications) : Nat :=
  (r.applications.filter fun a => !found.contains a.key).length

theorem uncollected_le_length : r.uncollected found ≤ r.applications.length :=
  List.length_filter_le _ _

theorem Climbed.filter_uncollected (h : r.Climbed x found found') :
    r.applications.filter (fun a => !found'.contains a.key) =
      (r.applications.filter fun a => !found.contains a.key).filter
        fun a => !found'.contains a.key := by
  rw [List.filter_filter]
  refine List.filter_congr fun a _ => ?_
  cases hc : found'.contains a.key with
  | true => simp
  | false => simp [h.not_contains hc]

/-- The longer the walk, the less is left to collect. -/
theorem Climbed.uncollected_le (h : r.Climbed x found found') :
    r.uncollected found' ≤ r.uncollected found := by
  unfold uncollected
  rw [h.filter_uncollected]
  exact List.length_filter_le _ _

/-- A walk that collects an application of the list leaves less to collect. -/
theorem Climbed.uncollected_lt (h : r.Climbed x found found') {a : Application}
    (ha : a ∈ r.applications) (hn : found.contains a.key = false)
    (hc : found'.contains a.key = true) : r.uncollected found' < r.uncollected found := by
  unfold uncollected
  rw [h.filter_uncollected]
  refine List.length_filter_lt_length_iff_exists.mpr ⟨a, ?_, by simp [hc]⟩
  exact List.mem_filter.mpr ⟨ha, by simp [hn]⟩

theorem Walked.contains (h : r.Walked x found found') {k : ResourceKey}
    (hk : found.contains k = true) : found'.contains k = true := by
  unfold Walked at h
  split at h
  · rw [h]
    exact hk
  · exact h.1.contains hk

theorem Walked.uncollected_le (h : r.Walked x found found') :
    r.uncollected found' ≤ r.uncollected found := by
  unfold Walked at h
  split at h
  · exact Nat.le_of_eq (congrArg r.uncollected h)
  · exact h.1.uncollected_le

/-- **The walks from the parents of `x`, one after the other,** carry the walk from `x` on and
leave all these parents collected. -/
theorem Climbed.foldl {depth : Nat} (hr : r.Proper)
    (hwalk : ∀ a ∈ r.applications, ∀ mid, r.uncollected mid ≤ depth →
      r.Walked a.resource mid (r.walk depth a.resource mid)) :
    ∀ (l : List Application) {mid : FoundApplications}, r.Climbed x found mid →
      r.uncollected mid ≤ depth → (∀ a ∈ l, a ∈ r.applicationsFor x) →
      ∃ last, l.foldl (fun f a => r.walk depth a.resource f) mid = last ∧
        r.Climbed x found last ∧ (∀ k, mid.contains k = true → last.contains k = true) ∧
        ∀ a ∈ l, last.contains a.key = true
  | [], mid, h, _, _ => ⟨mid, rfl, h, fun _ hk => hk, by simp⟩
  | a :: rest, mid, h, hle, hl => by
    obtain ⟨ha, hc⟩ := mem_applicationsFor.mp (hl a List.mem_cons_self)
    have hw := hwalk a ha mid hle
    obtain ⟨h', hin⟩ := h.walked hr ⟨a, ha, hc, rfl⟩ hw
    obtain ⟨last, hlast, hcl, hmono, hall⟩ := Climbed.foldl hr hwalk rest h'
      (Nat.le_trans hw.uncollected_le hle) (fun b hb => hl b (List.mem_cons_of_mem _ hb))
    refine ⟨last, hlast, hcl, fun k hk => hmono k (hw.contains hk), fun b hb => ?_⟩
    rcases List.mem_cons.mp hb with rfl | hb
    · exact hmono b.key hin
    · exact hall b hb

/-- **A walk that may go deep enough does its work.**  From an application of the list it needs as
many steps as there are applications to collect; from elsewhere, one step more. -/
theorem walked_walk (hr : r.Proper) :
    ∀ (depth : Nat) (x : ResourceInfo) (found : FoundApplications),
      (r.uncollected found < depth ∨
        (∃ a ∈ r.applications, a.resource = x) ∧ r.uncollected found ≤ depth) →
      r.Walked x found (r.walk depth x found)
  | depth, x, found, hdepth => by
    cases hd : r.isDone x found with
    | true => cases depth <;> simp [Walked, walk, hd]
    | false =>
      have h0 : r.Climbed x found (r.collect x found) := climbed_collect hd
      -- collecting an application of the list pays for the step
      have hle : r.uncollected (r.collect x found) < depth := by
        rcases hdepth with hlt | ⟨⟨a, ha, rfl⟩, hle⟩
        · exact Nat.lt_of_le_of_lt h0.uncollected_le hlt
        · have hk : a.resource.gvr = r.applicationKind := hr.kind a ha
          have hn : found.contains a.key = false := by
            simpa [isDone, hk, Application.key] using hd
          exact Nat.lt_of_lt_of_le
            (h0.uncollected_lt ha hn (contains_of_get? (h0.own hk))) hle
      cases depth with
      | zero => exact absurd hle (Nat.not_lt_zero _)
      | succ depth =>
        obtain ⟨last, hlast, hcl, -, hall⟩ := Climbed.foldl hr
          (fun a ha mid hm => walked_walk hr depth a.resource mid (.inr ⟨⟨a, ha, rfl⟩, hm⟩))
          (r.applicationsFor x) h0 (Nat.le_of_lt_succ hle) (fun a ha => ha)
        simp only [Walked, walk, hd, hlast, Bool.false_eq_true, ↓reduceIte]
        refine ⟨hcl, ?_⟩
        rintro z ⟨a, ha, hc, rfl⟩
        exact hall a (mem_applicationsFor.mpr ⟨ha, hc⟩)

/-- The depth that `findAll` allows for is enough. -/
theorem walked_findAll (hr : r.Proper) (x : ResourceInfo) (found : FoundApplications) :
    r.Walked x found (r.findAll x found) := by
  refine walked_walk hr r.depth x found (.inl ?_)
  calc r.uncollected found ≤ r.applications.length := uncollected_le_length
    _ < r.applications.length + 2 := by omega
    _ ≤ (r.applications.length + 2) * (r.applications.length + 2) :=
      Nat.le_mul_of_pos_left _ (by omega)

/-! ## 4. What the walk collects -/

/-- Whatever lies above the root of a finished walk is collected, under its own snapshot unless it
has the root's key. -/
theorem Climbed.get?_of_above (hr : r.Proper) (h : r.Climbed x found found')
    (hpar : ∀ z, r.IsComponentOf x z → found'.contains z.key = true) (ha : r.Above found x z) :
    found'.contains z.key = true ∧ (z.key ≠ x.key → found'.get? z.key = some z) := by
  -- a collected application that lies above is stored under its own snapshot
  have hval : ∀ {w}, r.Above found x w → found'.contains w.key = true → w.key ≠ x.key →
      found'.get? w.key = some w := by
    intro w hw hin hne
    obtain ⟨v, hv⟩ := Option.isSome_iff_exists.mp hin
    obtain ⟨y, hy⟩ := hw.isComponentOf
    rcases h.sound hv with hv' | ⟨-, he, -⟩ | ⟨-, hk, hv'⟩
    · rw [get?_eq_none_of_contains hw.not_avoided] at hv'
      exact absurd hv' (by simp)
    · exact absurd he hne
    · obtain ⟨y', hy'⟩ := hv'.isComponentOf
      rw [hv, hy'.eq_of_key_eq hr hy hk.symm]
  have hin : found'.contains z.key = true := by
    induction ha with
    | single hs => exact hpar _ hs.1
    | @tail y z hy hs ih =>
      by_cases hk : y.key = x.key
      · rw [hs.2.2 hk] at hs
        exact hpar _ hs.1
      · have hy' : r.Above found x y := hy
        exact h.closed (hval hy' ih hk) (get?_eq_none_of_contains hy'.not_avoided) hk hs.1
  exact ⟨hin, hval ha hin⟩

/-- Nothing is added when the root is collected already. -/
theorem findAll_of_isDone (hr : r.Proper) (hd : r.isDone x found = true) :
    r.findAll x found = found := by
  have h := walked_findAll hr x found
  simpa [Walked, hd] using h

/-- **Every entry of the result and where it comes from**: the starting collection, the root, or
an application above the root. -/
theorem get?_findAll (hr : r.Proper) (hd : r.isDone x found = false) {k : ResourceKey}
    {v : ResourceInfo} :
    (r.findAll x found).get? k = some v ↔
      found.get? k = some v ∨ (x.gvr = r.applicationKind ∧ k = x.key ∧ v = x) ∨
        (k ≠ x.key ∧ k = v.key ∧ r.Above found x v) := by
  have h := walked_findAll hr x found
  simp only [Walked, hd, Bool.false_eq_true, ↓reduceIte] at h
  obtain ⟨hc, hpar⟩ := h
  constructor
  · exact hc.sound
  · rintro (hv | ⟨hx, rfl, rfl⟩ | ⟨hne, rfl, ha⟩)
    · exact hc.keeps hv
    · exact hc.own hx
    · exact (hc.get?_of_above hr hpar ha).2 hne

/-- Every entry that the walk from an empty collection finds: the root, or an application above
it. -/
theorem get?_ancestorsOf_iff (hr : r.Proper) {k : ResourceKey} {v : ResourceInfo} :
    (r.ancestorsOf x).get? k = some v ↔
      (x.gvr = r.applicationKind ∧ k = x.key ∧ v = x) ∨
        (k ≠ x.key ∧ k = v.key ∧ r.Above .empty x v) := by
  have hd : r.isDone x .empty = false := by
    simp [isDone, SortedMap.contains]
  rw [ancestorsOf, get?_findAll hr hd, SortedMap.get?_empty]
  exact or_iff_right (by simp)

/-- The keys that the walk from an empty collection finds. -/
theorem contains_ancestorsOf (hr : r.Proper) {k : ResourceKey} :
    (r.ancestorsOf x).contains k = true ↔
      (x.gvr = r.applicationKind ∧ k = x.key) ∨ ∃ z, r.Above .empty x z ∧ z.key = k := by
  rw [SortedMap.contains, Option.isSome_iff_exists]
  constructor
  · rintro ⟨v, hv⟩
    rcases (get?_ancestorsOf_iff hr).mp hv with ⟨hx, hk, -⟩ | ⟨-, hk, ha⟩
    · exact .inl ⟨hx, hk⟩
    · exact .inr ⟨v, ha, hk.symm⟩
  · rintro (⟨hx, rfl⟩ | ⟨z, ha, rfl⟩)
    · exact ⟨x, (get?_ancestorsOf_iff hr).mpr (.inl ⟨hx, rfl, rfl⟩)⟩
    · by_cases hk : z.key = x.key
      · have hx : x.gvr = r.applicationKind :=
          (congrArg ResourceKey.gvr hk.symm).trans (ha.gvr_eq hr)
        exact ⟨x, (get?_ancestorsOf_iff hr).mpr (.inl ⟨hx, hk, rfl⟩)⟩
      · exact ⟨z, (get?_ancestorsOf_iff hr).mpr (.inr ⟨hk, rfl, ha⟩)⟩

/-- If the list has no other snapshot of the root, the steps of a walk are plain steps along "is a
component of". -/
theorem above_empty_iff (hx : ∀ a ∈ r.applications, a.key = x.key → a.resource = x) :
    r.Above .empty x z ↔ Relation.TransGen r.IsComponentOf x z := by
  constructor
  · intro h
    induction h with
    | single hs => exact .single hs.1
    | tail _ hs ih => exact ih.tail hs.1
  · intro h
    induction h with
    | single hs => exact .single ⟨hs, rfl, fun _ => rfl⟩
    | @tail y z hy hs ih =>
      have hy' : r.Above .empty x y := ih
      obtain ⟨w, a, ha, -, rfl⟩ := hy'.isComponentOf
      exact Relation.TransGen.tail ih ⟨hs, rfl, hx a ha⟩

/-- The list has no snapshot at all of a resource that is no application. -/
theorem Proper.entry_eq_of_ne (hr : r.Proper) (hx : x.gvr ≠ r.applicationKind) :
    ∀ a ∈ r.applications, a.key = x.key → a.resource = x := fun a ha he =>
  absurd ((congrArg ResourceKey.gvr he).symm.trans (hr.kind a ha)) hx

/-- The walk does not depend on the order of the list. -/
theorem findAll_perm (hr : r.Proper) {l : List Application} (hl : l.Perm r.applications)
    (x : ResourceInfo) (found : FoundApplications) :
    { r with applications := l }.findAll x found = r.findAll x found := by
  have hr' : Proper { r with applications := l } :=
    ⟨fun a ha => hr.kind a (hl.mem_iff.mp ha), (hl.map _).nodup_iff.mpr hr.distinct⟩
  have hcomp : IsComponentOf { r with applications := l } = r.IsComponentOf := by
    funext y z
    simp [IsComponentOf, hl.mem_iff]
  have hstep : StepUp { r with applications := l } = r.StepUp := by
    funext avoided x y z
    simp only [StepUp, hcomp]
  have habove : Above { r with applications := l } = r.Above := by
    funext avoided x z
    rw [Above, Above, hstep]
  cases hd : r.isDone x found with
  | true => rw [findAll_of_isDone hr hd, findAll_of_isDone hr' hd]
  | false =>
    refine SortedMap.ext_get? fun k => Option.ext fun v => ?_
    rw [get?_findAll hr hd, get?_findAll hr' hd, habove]

/-! ## 5. Exactness -/

/-- **The walk is exact.**  A root that is collected already adds nothing.  Otherwise the result
holds the starting collection unchanged, the root under its key if it is an application, and under
its own snapshot every other application of the list that lies above the root outside the starting
collection; and nothing else.  From an empty collection these are all transitive ancestors, and
the order of the list does not matter. -/
theorem findAll_exact {r : Resolver} (hr : r.Proper) (x : ResourceInfo)
    (found : FoundApplications) :
    (x.gvr = r.applicationKind → found.contains x.key = true → r.findAll x found = found) ∧
    (¬ (x.gvr = r.applicationKind ∧ found.contains x.key = true) →
      ∀ k v, (r.findAll x found).get? k = some v ↔
        found.get? k = some v ∨ (x.gvr = r.applicationKind ∧ k = x.key ∧ v = x) ∨
          ∃ a ∈ r.applications, r.Above found x a.resource ∧ k = a.key ∧ k ≠ x.key ∧
            v = a.resource) ∧
    (∀ k, (r.ancestorsOf x).contains k = true ↔
      (x.gvr = r.applicationKind ∧ k = x.key) ∨
        ∃ a ∈ r.applications, r.Above .empty x a.resource ∧ k = a.key) ∧
    ((∀ a ∈ r.applications, a.key = x.key → a.resource = x) →
      ∀ z, r.Above .empty x z ↔ Relation.TransGen r.IsComponentOf x z) ∧
    (∀ l : List Application, l.Perm r.applications →
      { r with applications := l }.findAll x found = r.findAll x found) := by
  refine ⟨fun hx hin => findAll_of_isDone hr (isDone_iff.mpr ⟨hx, hin⟩), ?_, ?_,
    fun hx _ => above_empty_iff hx, fun l hl => findAll_perm hr hl x found⟩
  · intro hn k v
    have hd : r.isDone x found = false := by
      simpa [isDone] using hn
    rw [get?_findAll hr hd]
    refine or_congr_right (or_congr_right ?_)
    constructor
    · rintro ⟨hne, rfl, ha⟩
      obtain ⟨y, a, hmem, -, rfl⟩ := ha.isComponentOf
      exact ⟨a, hmem, ha, rfl, hne, rfl⟩
    · rintro ⟨a, -, ha, rfl, hne, rfl⟩
      exact ⟨hne, rfl, ha⟩
  · intro k
    rw [contains_ancestorsOf hr]
    refine or_congr_right ?_
    constructor
    · rintro ⟨z, ha, rfl⟩
      obtain ⟨y, a, hmem, -, rfl⟩ := ha.isComponentOf
      exact ⟨a, hmem, ha, rfl⟩
    · rintro ⟨a, -, ha, rfl⟩
      exact ⟨a.resource, ha, rfl⟩

/-- An application that is labelled `part-of: own` and takes in the applications labelled
`part-of: selected`. -/
def sampleApplication (name own selected : String) : Application where
  resource := {
    gvr := ⟨"app.k8s.io", "v1beta1", "applications"⟩
    kind := "Application"
    «namespace» := "default"
    name := name
    labels := some { entries := [("part-of", own)], ascending := List.pairwise_singleton _ _ } }
  componentKinds := [⟨"app.k8s.io", "Application"⟩]
  matchLabels := { entries := [("part-of", selected)], ascending := List.pairwise_singleton _ _ }

/-- Two applications, each a component of the other. -/
def ring : Resolver where
  applicationKind := ⟨"app.k8s.io", "v1beta1", "applications"⟩
  applications := [sampleApplication "shop" "mall" "shop", sampleApplication "mall" "shop" "mall"]
  filter := {}

/-- On the ring the walk from a snapshot of the one that is newer than the list finds the other,
and keeps the newer snapshot. -/
theorem findAll_exact_ring :
    let newer := { (sampleApplication "shop" "mall" "shop").resource with metadata := .bool true }
    ring.Proper ∧
      (ring.ancestorsOf newer).contains (sampleApplication "mall" "shop" "mall").key = true ∧
      (ring.findAll newer .empty).get? newer.key = some newer := by
  intro newer
  have hring : ring.Proper := ⟨by decide, by decide⟩
  have hexact := findAll_exact hring newer .empty
  refine ⟨hring, (hexact.2.2.1 _).mpr (.inr ⟨_, by simp [ring], .single ?_, rfl⟩),
    (hexact.2.1 (by simp [SortedMap.contains]) _ _).mpr (.inr (.inl ⟨rfl, rfl, rfl⟩))⟩
  exact ⟨⟨_, by simp [ring], by decide, rfl⟩, rfl, fun _ => rfl⟩

end Resolver

end AppWatch
