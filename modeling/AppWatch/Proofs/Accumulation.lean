/-
# Walks into one collection

The walks from several resources may share one collection.  A later walk then stops at everything
that an earlier one has found, and what is above such an application is not looked at again.  It
need not be: the earlier walk went on from there.

`Resolver.Accounts` says what a shared collection holds: under their own keys the applications of
the list that contain one of the resources walked so far.  Such a collection is closed upward
(`Accounts.closed`), so the way up from another resource either keeps out of it to the end or ends
at something in it (`Accounts.contains_or_above`).  That makes one more walk add what is above its
resource and no less (`Accounts.findAll`).  To merge in the result of a walk of its own comes to the
same (`Accounts.merge`), and since the statement names neither an order of the resources nor one of
the list, all orders agree (`Accounts.eq`).

All this is about resources that are no applications.  The walk from an application has its root to
collect as well, by the snapshot at hand.
-/
import AppWatch.Proofs.Updates

namespace AppWatch

namespace Resolver

/-! ## 1. What a shared collection holds -/

/-- A collection holds the applications of the list that contain one of the resources, directly or
through others, and nothing else. -/
def Accounts (r : Resolver) (xs : List ResourceInfo) (found : FoundApplications) : Prop :=
  ∀ k v, found.get? k = some v ↔ ∃ a ∈ r.applications, k = a.key ∧ v = a.resource ∧
    ∃ x ∈ xs, Relation.TransGen r.IsComponentOf x a.resource

variable {r : Resolver} {x y z : ResourceInfo} {xs ys : List ResourceInfo}
  {found found' : FoundApplications}

/-- **What the resources are accounts for the collection**, whatever their order. -/
theorem Accounts.eq (h : r.Accounts xs found) (h' : r.Accounts ys found')
    (hmem : ∀ x, x ∈ xs ↔ x ∈ ys) : found = found' := by
  refine SortedMap.ext_get? fun k => Option.ext fun v => ?_
  rw [h k v, h' k v]
  simp only [hmem]

theorem accounts_empty : r.Accounts [] .empty := by
  intro k v
  simp

/-- The walk of one resource accounts for it. -/
theorem accounts_ancestorsOf (hr : r.Proper) (hx : x.gvr ≠ r.applicationKind) :
    r.Accounts [x] (r.ancestorsOf x) := by
  intro k v
  rw [get?_ancestorsOf_of_ne hr fun hgvr => absurd hgvr hx]
  simp only [above_empty_iff (hr.entry_eq_of_ne hx), List.mem_singleton, exists_eq_left]

theorem Accounts.contains (h : r.Accounts xs found) {a : Application} (ha : a ∈ r.applications)
    (hx : x ∈ xs) (hup : Relation.TransGen r.IsComponentOf x a.resource) :
    found.contains a.key = true :=
  contains_of_get? ((h a.key a.resource).mpr ⟨a, ha, rfl, rfl, x, hx, hup⟩)

/-- What is under the key of an application is the application. -/
theorem Accounts.get?_of_contains (hr : r.Proper) (h : r.Accounts xs found) {a : Application}
    (ha : a ∈ r.applications) (hin : found.contains a.key = true) :
    found.get? a.key = some a.resource := by
  obtain ⟨v, hv⟩ := Option.isSome_iff_exists.mp hin
  obtain ⟨b, hb, hkey, rfl, -⟩ := (h a.key v).mp hv
  rw [hv, hr.eq_of_key_eq hb ha hkey.symm]

/-! ## 2. One more walk -/

/-- **A shared collection is closed upward.** -/
theorem Accounts.closed (hr : r.Proper) (h : r.Accounts xs found) {a : Application}
    (ha : a ∈ r.applications) (hin : found.contains a.key = true)
    (hz : r.IsComponentOf a.resource z) : found.contains z.key = true := by
  obtain ⟨b, hb, hkey, -, x, hx, hup⟩ := (h _ _).mp (h.get?_of_contains hr ha hin)
  rw [hr.eq_of_key_eq ha hb hkey] at hz
  obtain ⟨c, hc, -, rfl⟩ := id hz
  exact h.contains hc hx (hup.tail hz)

/-- The way up to an application keeps out of the collection, or the application is in it. -/
theorem Accounts.contains_or_above (hr : r.Proper) (h : r.Accounts xs found)
    (hx : x.gvr ≠ r.applicationKind) (hup : Relation.TransGen r.IsComponentOf x z) :
    found.contains z.key = true ∨ r.Above found x z := by
  induction hup with
  | @single z hs =>
    cases hin : found.contains z.key with
    | true => exact .inl rfl
    | false => exact .inr (.single ⟨hs, hin, fun _ => rfl⟩)
  | @tail y z hy hs ih =>
    obtain ⟨_, -, a, ha, -, rfl⟩ := Relation.TransGen.tail'_iff.mp hy
    rcases ih with hin | habove
    · exact .inl (h.closed hr ha hin hs)
    · cases hin : found.contains z.key with
      | true => exact .inl rfl
      | false => exact .inr (habove.tail ⟨hs, hin, hr.entry_eq_of_ne hx a ha⟩)

/-- A way up that keeps out of a collection is a way up. -/
theorem Above.transGen (h : r.Above found x z) : Relation.TransGen r.IsComponentOf x z :=
  Relation.TransGen.mono (fun _ _ hs => hs.1) _ _ h

/-- **One more walk accounts for one more resource.** -/
theorem Accounts.findAll (hr : r.Proper) (h : r.Accounts xs found)
    (hx : x.gvr ≠ r.applicationKind) : r.Accounts (xs ++ [x]) (r.findAll x found) := by
  have hd : r.isDone x found = false := by simp [isDone, hx]
  intro k v
  rw [get?_findAll hr hd]
  constructor
  · rintro (hv | ⟨hgvr, -, -⟩ | ⟨-, rfl, habove⟩)
    · obtain ⟨a, ha, hkey, hval, y, hy, hup⟩ := (h k v).mp hv
      exact ⟨a, ha, hkey, hval, y, List.mem_append_left _ hy, hup⟩
    · exact absurd hgvr hx
    · obtain ⟨_, a, ha, -, rfl⟩ := habove.isComponentOf
      exact ⟨a, ha, rfl, rfl, x, by simp, habove.transGen⟩
  · rintro ⟨a, ha, rfl, rfl, y, hy, hup⟩
    rcases List.mem_append.mp hy with hy | hy
    · exact .inl ((h _ _).mpr ⟨a, ha, rfl, rfl, y, hy, hup⟩)
    · rw [List.mem_singleton.mp hy] at hup
      rcases h.contains_or_above hr hx hup with hin | habove
      · exact .inl (h.get?_of_contains hr ha hin)
      · have hne : a.key ≠ x.key := fun he =>
          hx ((congrArg ResourceKey.gvr he).symm.trans (hr.kind a ha))
        exact .inr (.inr ⟨hne, rfl, habove⟩)

/-- **Two collections merge to one that accounts for the resources of both.** -/
theorem Accounts.merge (hr : r.Proper) (h : r.Accounts xs found) (h' : r.Accounts ys found') :
    r.Accounts (xs ++ ys) (found.merge found') := by
  intro k v
  rw [SortedMap.get?_merge, Option.or_eq_some_iff]
  constructor
  · rintro (hv | ⟨-, hv⟩)
    · obtain ⟨a, ha, hkey, hval, y, hy, hup⟩ := (h' k v).mp hv
      exact ⟨a, ha, hkey, hval, y, List.mem_append_right _ hy, hup⟩
    · obtain ⟨a, ha, hkey, hval, y, hy, hup⟩ := (h k v).mp hv
      exact ⟨a, ha, hkey, hval, y, List.mem_append_left _ hy, hup⟩
  · rintro ⟨a, ha, rfl, rfl, y, hy, hup⟩
    cases hin : found'.contains a.key with
    | true => exact .inl (h'.get?_of_contains hr ha hin)
    | false =>
      rcases List.mem_append.mp hy with hy | hy
      · exact .inr ⟨get?_eq_none_of_contains hin, (h _ _).mpr ⟨a, ha, rfl, rfl, y, hy, hup⟩⟩
      · rw [h'.contains ha hy hup] at hin
        exact absurd hin (by simp)

/-! ## 3. Many walks -/

/-- Walks from resources one after the other, all into one collection. -/
def walkAll (r : Resolver) (xs : List ResourceInfo) (found : FoundApplications) :
    FoundApplications :=
  xs.foldl (fun found x => r.findAll x found) found

/-- Walks from resources each into a collection of its own, merged one after the other. -/
def mergeAll (r : Resolver) (xs : List ResourceInfo) (found : FoundApplications) :
    FoundApplications :=
  xs.foldl (fun found x => found.merge (r.ancestorsOf x)) found

theorem Accounts.walkAll (hr : r.Proper) (h : r.Accounts xs found)
    (hys : ∀ y ∈ ys, y.gvr ≠ r.applicationKind) : r.Accounts (xs ++ ys) (r.walkAll ys found) := by
  induction ys generalizing xs found with
  | nil =>
    rw [List.append_nil]
    exact h
  | cons y ys ih =>
    rw [List.append_cons]
    exact ih (h.findAll hr (hys y List.mem_cons_self)) fun z hz =>
      hys z (List.mem_cons_of_mem _ hz)

theorem Accounts.mergeAll (hr : r.Proper) (h : r.Accounts xs found)
    (hys : ∀ y ∈ ys, y.gvr ≠ r.applicationKind) : r.Accounts (xs ++ ys) (r.mergeAll ys found) := by
  induction ys generalizing xs found with
  | nil =>
    rw [List.append_nil]
    exact h
  | cons y ys ih =>
    rw [List.append_cons]
    exact ih (h.merge hr (accounts_ancestorsOf hr (hys y List.mem_cons_self))) fun z hz =>
      hys z (List.mem_cons_of_mem _ hz)

/-- The order of the list makes no difference to many walks, as it makes none to one. -/
theorem walkAll_perm (hr : r.Proper) {l : List Application} (hl : l.Perm r.applications)
    (xs : List ResourceInfo) (found : FoundApplications) :
    { r with applications := l }.walkAll xs found = r.walkAll xs found := by
  simp only [Resolver.walkAll, findAll_perm hr hl]

theorem mergeAll_perm (hr : r.Proper) {l : List Application} (hl : l.Perm r.applications)
    (xs : List ResourceInfo) (found : FoundApplications) :
    { r with applications := l }.mergeAll xs found = r.mergeAll xs found := by
  simp only [Resolver.mergeAll, ancestorsOf, findAll_perm hr hl]

/-- **Walks into one collection find what separate walks find.**  Over a proper list and for
resources that are no applications the shared collection is the merge of those of separate walks,
key by key and value by value, whatever the order of the resources and of the list in either.  To
walk one of the resources once more changes nothing. -/
theorem walkAll_eq_mergeAll (hr : r.Proper) (hxs : ∀ x ∈ xs, x.gvr ≠ r.applicationKind) :
    (∀ ys l, ys.Perm xs → l.Perm r.applications →
      { r with applications := l }.walkAll ys .empty = r.mergeAll xs .empty ∧
        { r with applications := l }.mergeAll ys .empty = r.mergeAll xs .empty) ∧
    ∀ x ∈ xs, ∀ l, l.Perm r.applications →
      { r with applications := l }.findAll x (r.walkAll xs .empty) = r.walkAll xs .empty := by
  have hmerged := accounts_empty.mergeAll hr hxs
  constructor
  · intro ys l hperm hl
    have hys : ∀ y ∈ ys, y.gvr ≠ r.applicationKind := fun y hy => hxs y (hperm.mem_iff.mp hy)
    have hmem : ∀ x, x ∈ [] ++ ys ↔ x ∈ [] ++ xs := fun x => by simp [hperm.mem_iff]
    rw [walkAll_perm hr hl, mergeAll_perm hr hl]
    exact ⟨(accounts_empty.walkAll hr hys).eq hmerged hmem,
      (accounts_empty.mergeAll hr hys).eq hmerged hmem⟩
  · intro x hx l hl
    rw [findAll_perm hr hl]
    have hwalked := accounts_empty.walkAll hr hxs
    refine (hwalked.findAll hr (hxs x hx)).eq hwalked fun y => ?_
    simp only [List.nil_append, List.mem_append, List.mem_singleton, or_iff_left_iff_imp]
    rintro rfl
    exact hx

/-- An application of the applications that have no label `part-of`. -/
def sampleMall : Application :=
  { Batch.sampleStrays with
    resource := { Batch.sampleStrays.resource with name := "mall" }
    componentKinds := [⟨"app.k8s.io", "Application"⟩] }

/-- The second deployment is in an application of its own beside the one that both are in, and a
third application contains the two: the shared collection is what separate walks find, also in the
reverse orders. -/
theorem walkAll_eq_mergeAll_diamond :
    let owner := WatchCache.sampleOwner
    let r : Resolver := ⟨owner.resource.gvr, [owner, Batch.sampleStrays, sampleMall], {}⟩
    let backwards := { r with applications := [sampleMall, Batch.sampleStrays, owner] }
    let stray := Batch.sampleStray
    let labelled := { stray with
      name := "api"
      labels := some { entries := [("app", "web")], ascending := List.pairwise_singleton _ _ } }
    let separate := r.mergeAll [stray, labelled] .empty
    separate.keys = [sampleMall.key, owner.key, Batch.sampleStrays.key] ∧
      (r.ancestorsOf stray).contains owner.key = false ∧
      backwards.walkAll [labelled, stray] .empty = separate ∧
      r.findAll labelled (r.walkAll [stray, labelled] .empty) =
        r.walkAll [stray, labelled] .empty := by
  intro owner r backwards stray labelled separate
  have hr : r.Proper := ⟨by decide, by decide⟩
  have hxs : ∀ x ∈ [stray, labelled], x.gvr ≠ r.applicationKind := by decide
  have hall := walkAll_eq_mergeAll hr hxs
  have hreverse : [sampleMall, Batch.sampleStrays, owner].Perm r.applications :=
    List.reverse_perm r.applications
  exact ⟨by decide, by decide, (hall.1 _ _ (List.reverse_perm _) hreverse).1,
    hall.2 labelled (by simp) _ (.refl _)⟩

end Resolver

end AppWatch
