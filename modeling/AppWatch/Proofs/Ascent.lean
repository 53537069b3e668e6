/-
# The ascent ends

`Resolver.walk` is given a bound on its depth.  The ascent itself has none: a subject is passed if
it is collected already, and otherwise its direct matches become the next subjects.  This module
states the ascent without a bound (`Resolver.Visits`) and shows that it ends over every list of
applications of the application kind.  Keys may be double in the list, and its membership may have
cycles.

The measure is the set of the keys of the list that are not collected (`Resolver.missing`).  Sibling
calls share it.  Three facts carry the proof:

* A subject from the list that is not collected yet takes its own key out of the set before its
  matches are visited (`card_missing_collect_lt`).  So the calls nest no deeper than there are keys
  to take, with one call more that ends at a collected subject (`Visits.depth_le`).
* No call puts a key back (`Visits.card_missing_le`), so what a sibling starts from is no more.
* A key that is scanned was not collected before the scan and is collected from then on
  (`Visits.fresh`), so it is scanned once (`Visits.nodup_scanned`).

The root may be no application of the list.  It takes no key out of the set, and that is the second
of the two calls that the bound adds.
-/
import AppWatch.Proofs.Ancestors
import Mathlib.Data.Finset.Card

namespace AppWatch

namespace Resolver

/-! ## 1. The ascent without a bound -/

/-- The ascent from some subjects, one after the other, from one collection to another.  `depth`
counts the calls that are open at once, and `scanned` lists the subjects whose direct matches are
looked for, in order.  A derivation is a finite tree of calls. -/
inductive Visits (r : Resolver) : List ResourceInfo → FoundApplications → FoundApplications →
    (depth : Nat) → (scanned : List ResourceInfo) → Prop where
  | nil {found : FoundApplications} : Visits r [] found found 0 []
  /-- A subject that is collected already is passed. -/
  | pass {x : ResourceInfo} {rest : List ResourceInfo} {found found' : FoundApplications}
      {depth : Nat} {scanned : List ResourceInfo} (done : r.isDone x found = true)
      (later : Visits r rest found found' depth scanned) :
      Visits r (x :: rest) found found' (max 1 depth) scanned
  /-- Any other subject is collected if it is an application, and its direct matches are visited
  before the subjects after it. -/
  | scan {x : ResourceInfo} {rest : List ResourceInfo} {found mid found' : FoundApplications}
      {depth depth' : Nat} {scanned scanned' : List ResourceInfo} (new : r.isDone x found = false)
      (above : Visits r ((r.applicationsFor x).map (·.resource)) (r.collect x found) mid depth
        scanned)
      (later : Visits r rest mid found' depth' scanned') :
      Visits r (x :: rest) found found' (max (depth + 1) depth') (x :: (scanned ++ scanned'))

variable {r : Resolver} {x : ResourceInfo} {xs scanned : List ResourceInfo}
  {found found' : FoundApplications} {depth : Nat} {k : ResourceKey}

/-- **The ascent is determined** by the subjects and the collection it starts from. -/
theorem Visits.unique (h : r.Visits xs found found' depth scanned) :
    ∀ {found'' depth' scanned'}, r.Visits xs found found'' depth' scanned' →
      found'' = found' ∧ depth' = depth ∧ scanned' = scanned := by
  induction h with
  | nil =>
    intro found'' depth' scanned' h'
    cases h'
    exact ⟨rfl, rfl, rfl⟩
  | pass done _ ih =>
    intro found'' depth' scanned' h'
    cases h' with
    | pass _ later' =>
      obtain ⟨rfl, rfl, rfl⟩ := ih later'
      exact ⟨rfl, rfl, rfl⟩
    | scan new' _ _ =>
      rw [done] at new'
      exact absurd new' (by simp)
  | scan new _ _ ihabove ihlater =>
    intro found'' depth' scanned' h'
    cases h' with
    | pass done' _ =>
      rw [new] at done'
      exact absurd done' (by simp)
    | scan _ above' later' =>
      obtain ⟨rfl, rfl, rfl⟩ := ihabove above'
      obtain ⟨rfl, rfl, rfl⟩ := ihlater later'
      exact ⟨rfl, rfl, rfl⟩

/-! ## 2. Subjects of the application kind -/

/-- All subjects are of the application kind. -/
def AreApplications (r : Resolver) (xs : List ResourceInfo) : Prop :=
  ∀ x ∈ xs, x.gvr = r.applicationKind

/-- What a resolver assumes of its list, whether or not keys are double. -/
def OfKind (r : Resolver) : Prop := ∀ a ∈ r.applications, a.resource.gvr = r.applicationKind

theorem contains_collect_iff (hx : x.gvr = r.applicationKind) :
    (r.collect x found).contains k = true ↔ k = x.key ∨ found.contains k = true := by
  rw [collect, if_pos hx, SortedMap.contains, SortedMap.get?_insert]
  split
  · next hk => simp [hk]
  · next hk => simp [hk, SortedMap.contains]

theorem contains_collect (hk : found.contains k = true) :
    (r.collect x found).contains k = true := by
  by_cases hx : x.gvr = r.applicationKind
  · exact (contains_collect_iff hx).mpr (.inr hk)
  · rw [collect, if_neg hx]
    exact hk

theorem isDone_eq_false_iff (hx : x.gvr = r.applicationKind) :
    r.isDone x found = false ↔ found.contains x.key = false := by
  simp [isDone, hx]

theorem areApplications_matches (hr : r.OfKind) (x : ResourceInfo) :
    r.AreApplications ((r.applicationsFor x).map (·.resource)) := by
  intro y hy
  obtain ⟨a, ha, rfl⟩ := List.mem_map.mp hy
  exact hr a (mem_applicationsFor.mp ha).1

theorem Visits.areApplications_scanned (hr : r.OfKind)
    (h : r.Visits xs found found' depth scanned) :
    r.AreApplications xs → r.AreApplications scanned := by
  induction h with
  | nil => exact id
  | pass _ _ ih =>
    intro hxs
    exact ih fun y hy => hxs y (List.mem_cons_of_mem _ hy)
  | @scan x _ _ _ _ _ _ _ _ _ _ _ ihabove ihlater =>
    intro hxs y hy
    have habove := ihabove (areApplications_matches hr x)
    have hlater := ihlater fun z hz => hxs z (List.mem_cons_of_mem _ hz)
    rcases List.mem_cons.mp hy with rfl | hy
    · exact hxs y List.mem_cons_self
    · exact (List.mem_append.mp hy).elim (habove y) (hlater y)

/-- **What an ascent collects** are the applications it scans. -/
theorem Visits.contains_iff (hr : r.OfKind) (h : r.Visits xs found found' depth scanned) :
    r.AreApplications xs →
      (found'.contains k = true ↔ found.contains k = true ∨ k ∈ scanned.map ResourceInfo.key) := by
  induction h with
  | nil => simp
  | pass _ _ ih =>
    intro hxs
    exact ih fun y hy => hxs y (List.mem_cons_of_mem _ hy)
  | @scan x _ _ _ _ _ _ _ _ _ _ _ ihabove ihlater =>
    intro hxs
    rw [ihlater fun y hy => hxs y (List.mem_cons_of_mem _ hy),
      ihabove (areApplications_matches hr x), contains_collect_iff (hxs x List.mem_cons_self)]
    simp only [List.map_cons, List.map_append, List.mem_cons, List.mem_append, or_assoc,
      or_left_comm]

/-- **What is scanned was not collected before.** -/
theorem Visits.fresh (hr : r.OfKind) (h : r.Visits xs found found' depth scanned) :
    r.AreApplications xs → k ∈ scanned.map ResourceInfo.key → found.contains k = false := by
  induction h with
  | nil => simp
  | pass _ _ ih =>
    intro hxs
    exact ih fun y hy => hxs y (List.mem_cons_of_mem _ hy)
  | @scan x rest found mid _ _ _ _ _ new above later ihabove ihlater =>
    intro hxs hk
    have hx := hxs x List.mem_cons_self
    -- a later key is missing from all collections on the way
    have hback : mid.contains k = false → (r.collect x found).contains k = false := by
      have hiff := above.contains_iff (k := k) hr (areApplications_matches hr x)
      simp only [← Bool.not_eq_true, hiff]
      exact fun hnot hcollected => hnot (.inl hcollected)
    have hfirst : (r.collect x found).contains k = false → found.contains k = false := by
      simp only [← Bool.not_eq_true, contains_collect_iff hx]
      exact fun hnot hbefore => hnot (.inr hbefore)
    simp only [List.map_cons, List.map_append, List.mem_cons, List.mem_append] at hk
    rcases hk with rfl | hk | hk
    · exact (isDone_eq_false_iff hx).mp new
    · exact hfirst (ihabove (areApplications_matches hr x) hk)
    · exact hfirst (hback (ihlater (fun y hy => hxs y (List.mem_cons_of_mem _ hy)) hk))

/-- **No key is scanned twice.** -/
theorem Visits.nodup_scanned (hr : r.OfKind) (h : r.Visits xs found found' depth scanned) :
    r.AreApplications xs → (scanned.map ResourceInfo.key).Nodup := by
  induction h with
  | nil => simp
  | pass _ _ ih =>
    intro hxs
    exact ih fun y hy => hxs y (List.mem_cons_of_mem _ hy)
  | @scan x rest found mid _ _ _ scanned scanned' _ above later ihabove ihlater =>
    intro hxs
    have hx := hxs x List.mem_cons_self
    have hrest : r.AreApplications rest := fun y hy => hxs y (List.mem_cons_of_mem _ hy)
    have hmatches := areApplications_matches hr x
    have hcollected : ∀ k, k = x.key ∨ k ∈ scanned.map ResourceInfo.key →
        mid.contains k = true := by
      intro k hk
      rw [above.contains_iff hr hmatches, contains_collect_iff hx]
      tauto
    have hlater : ∀ k ∈ scanned'.map ResourceInfo.key, mid.contains k = false :=
      fun k hk => later.fresh hr hrest hk
    rw [List.map_cons, List.map_append, List.nodup_cons, List.nodup_append, List.mem_append]
    refine ⟨?_, ihabove hmatches, ihlater hrest, ?_⟩
    · rintro (hk | hk)
      · have hnew := above.fresh hr hmatches hk
        rw [(contains_collect_iff hx).mpr (.inl rfl)] at hnew
        exact absurd hnew (by simp)
      · have hnew := hlater _ hk
        rw [hcollected _ (.inl rfl)] at hnew
        exact absurd hnew (by simp)
    · rintro k hk l hl rfl
      have hnew := hlater k hl
      rw [hcollected k (.inr hk)] at hnew
      exact absurd hnew (by simp)

/-! ## 3. The keys that are left -/

/-- The keys of the list that a collection lacks. -/
def missing (r : Resolver) (found : FoundApplications) : Finset ResourceKey :=
  (r.applications.map Application.key).toFinset.filter fun k => found.contains k = false

theorem mem_missing : k ∈ r.missing found ↔
    (∃ a ∈ r.applications, a.key = k) ∧ found.contains k = false := by
  simp [missing]

theorem missing_subset (h : ∀ k, found.contains k = true → found'.contains k = true) :
    r.missing found' ⊆ r.missing found := by
  intro k hk
  obtain ⟨ha, hk⟩ := mem_missing.mp hk
  refine mem_missing.mpr ⟨ha, Bool.eq_false_iff.mpr fun hin => ?_⟩
  rw [h k hin] at hk
  exact absurd hk (by simp)

/-- No call puts a key back. -/
theorem Visits.card_missing_le (hr : r.OfKind) (h : r.Visits xs found found' depth scanned)
    (hxs : r.AreApplications xs) : (r.missing found').card ≤ (r.missing found).card :=
  Finset.card_le_card (missing_subset fun _ hk => (h.contains_iff hr hxs).mpr (.inl hk))

theorem card_missing_collect_le (x : ResourceInfo) (found : FoundApplications) :
    (r.missing (r.collect x found)).card ≤ (r.missing found).card :=
  Finset.card_le_card (missing_subset fun _ => contains_collect)

/-- **Collecting a subject from the list leaves fewer keys.** -/
theorem card_missing_collect_lt {a : Application} (hr : r.OfKind) (ha : a ∈ r.applications)
    (new : r.isDone a.resource found = false) :
    (r.missing (r.collect a.resource found)).card < (r.missing found).card := by
  have hkind := hr a ha
  refine Finset.card_lt_card (Finset.ssubset_iff_subset_ne.mpr
    ⟨missing_subset fun _ => contains_collect, fun he => ?_⟩)
  have hin : a.key ∈ r.missing found :=
    mem_missing.mpr ⟨⟨a, ha, rfl⟩, (isDone_eq_false_iff hkind).mp new⟩
  have hout : (r.collect a.resource found).contains a.resource.key = false :=
    (mem_missing.mp (he ▸ hin)).2
  rw [(contains_collect_iff hkind).mpr (.inl rfl)] at hout
  exact absurd hout (by simp)

/-- All subjects are in the list. -/
def AreListed (r : Resolver) (xs : List ResourceInfo) : Prop :=
  ∀ x ∈ xs, ∃ a ∈ r.applications, a.resource = x

theorem areListed_matches (x : ResourceInfo) :
    r.AreListed ((r.applicationsFor x).map (·.resource)) := by
  intro y hy
  obtain ⟨a, ha, rfl⟩ := List.mem_map.mp hy
  exact ⟨a, (mem_applicationsFor.mp ha).1, rfl⟩

/-- **Calls nest no deeper than there are keys to take**, and one call more. -/
theorem Visits.depth_le (hr : r.OfKind) (h : r.Visits xs found found' depth scanned) :
    r.AreListed xs → depth ≤ (r.missing found).card + 1 := by
  induction h with
  | nil => omega
  | pass _ _ ih =>
    intro hxs
    have hlater := ih fun y hy => hxs y (List.mem_cons_of_mem _ hy)
    omega
  | @scan x rest found mid _ _ _ _ _ new above _ ihabove ihlater =>
    intro hxs
    have hlater := ihlater fun y hy => hxs y (List.mem_cons_of_mem _ hy)
    have habove := ihabove (areListed_matches x)
    obtain ⟨a, ha, rfl⟩ := hxs x List.mem_cons_self
    have hlt := card_missing_collect_lt hr ha new
    have hle := above.card_missing_le hr (areApplications_matches hr a.resource)
    omega

/-! ## 4. The walk is an ascent -/

theorem walk_of_isDone (hd : r.isDone x found = true) (bound : Nat) :
    r.walk bound x found = found := by
  cases bound <;> simp [walk, hd]

/-- A walk from a subject that is not collected yet walks from its direct matches. -/
theorem walk_succ (hd : r.isDone x found = false) (bound : Nat) :
    r.walk (bound + 1) x found = ((r.applicationsFor x).map (·.resource)).foldl
      (fun f y => r.walk bound y f) (r.collect x found) := by
  simp only [walk, hd, Bool.false_eq_true, ↓reduceIte, List.foldl_map]

/-- **Every ascent over the list ends**, at what walks find that may go as deep as there are keys to
take. -/
theorem visits_foldl_walk (hr : r.OfKind) (bound : Nat) (xs : List ResourceInfo)
    (found : FoundApplications) (hxs : r.AreListed xs) (hle : (r.missing found).card ≤ bound) :
    ∃ depth scanned,
      r.Visits xs found (xs.foldl (fun f x => r.walk bound x f) found) depth scanned := by
  -- outside on the keys that are left, inside on the siblings
  induction bound using Nat.strong_induction_on generalizing xs found with
  | _ bound ihabove =>
    induction xs generalizing found with
    | nil => exact ⟨0, [], .nil⟩
    | cons x rest ihlater =>
      have hrest : r.AreListed rest := fun y hy => hxs y (List.mem_cons_of_mem _ hy)
      rw [List.foldl_cons]
      cases hd : r.isDone x found with
      | true =>
        rw [walk_of_isDone hd]
        obtain ⟨depth, scanned, later⟩ := ihlater found hrest hle
        exact ⟨_, _, .pass hd later⟩
      | false =>
        obtain ⟨a, ha, rfl⟩ := hxs x List.mem_cons_self
        have hlt := card_missing_collect_lt hr ha hd
        cases bound with
        | zero => omega
        | succ bound =>
          rw [walk_succ hd]
          obtain ⟨depth, scanned, above⟩ := ihabove bound (Nat.lt_succ_self _) _ _
            (areListed_matches a.resource) (Nat.le_of_lt_succ (Nat.lt_of_lt_of_le hlt hle))
          have hmid := above.card_missing_le hr (areApplications_matches hr a.resource)
          obtain ⟨depth', scanned', later⟩ := ihlater _ hrest
            (Nat.le_trans hmid (Nat.le_trans (Nat.le_of_lt hlt) hle))
          exact ⟨_, _, .scan hd above later⟩

theorem card_missing_le_length : (r.missing found).card ≤ r.applications.length :=
  calc (r.missing found).card
    _ ≤ (r.applications.map Application.key).toFinset.card := Finset.card_filter_le _ _
    _ ≤ (r.applications.map Application.key).length := List.toFinset_card_le _
    _ = r.applications.length := List.length_map _

/-- The ascent from a root that is not collected yet: the root, and the ascent from its direct
matches. -/
theorem exists_visits_root (hr : r.OfKind) (hd : r.isDone x found = false) :
    ∃ depth scanned, r.Visits [x] found (r.findAll x found) (depth + 1) (x :: scanned) ∧
      r.Visits ((r.applicationsFor x).map (·.resource)) (r.collect x found) (r.findAll x found)
        depth scanned := by
  obtain ⟨bound, hbound⟩ : ∃ bound, r.depth = bound + 1 :=
    Nat.exists_eq_succ_of_ne_zero (by simp [Resolver.depth])
  have hroom : (r.missing (r.collect x found)).card ≤ bound := by
    have hlength : (r.missing (r.collect x found)).card ≤ r.applications.length :=
      card_missing_le_length
    have hdepth : r.applications.length + 2 ≤ r.depth :=
      Nat.le_mul_of_pos_left _ (by omega)
    omega
  obtain ⟨depth, scanned, above⟩ :=
    visits_foldl_walk hr bound _ _ (areListed_matches x) hroom
  rw [← walk_succ hd, ← hbound] at above
  have hroot := Visits.scan hd above .nil
  rw [List.append_nil, Nat.max_eq_left (Nat.zero_le _)] at hroot
  exact ⟨depth, scanned, hroot, above⟩

/-! ## 5. The ascent ends -/

/-- **The ascent ends.**  Over every list of applications of the application kind, with whatever
double keys and cycles, the ascent from any resource and any collection ends at the result of the
walk.  At most two calls more are open at once than the list has keys which the collection lacks,
and no key is scanned twice.  There is no other ascent. -/
theorem ascent_ends (hr : ∀ a ∈ r.applications, a.resource.gvr = r.applicationKind)
    (x : ResourceInfo) (found : FoundApplications) :
    ∃ depth scanned, r.Visits [x] found (r.findAll x found) depth scanned ∧
      depth ≤ (r.missing found).card + 2 ∧ (scanned.map ResourceInfo.key).Nodup ∧
        ∀ found' depth' scanned', r.Visits [x] found found' depth' scanned' →
          found' = r.findAll x found ∧ depth' = depth ∧ scanned' = scanned := by
  cases hd : r.isDone x found with
  | true =>
    have hpassed : r.Visits [x] found (r.findAll x found) 1 [] := by
      rw [findAll, walk_of_isDone hd]
      exact .pass hd .nil
    exact ⟨1, [], hpassed, by omega, List.nodup_nil, fun _ _ _ h => hpassed.unique h⟩
  | false =>
    obtain ⟨depth, scanned, hroot, above⟩ := exists_visits_root hr hd
    refine ⟨depth + 1, x :: scanned, hroot, ?_, ?_, fun _ _ _ h => hroot.unique h⟩
    · have hdepth := above.depth_le hr (areListed_matches x)
      have hless := card_missing_collect_le (r := r) x found
      omega
    · by_cases hx : x.gvr = r.applicationKind
      · exact hroot.nodup_scanned hr (by simpa [AreApplications] using hx)
      · -- the root is no application, and everything above it is one
        have hmatches := areApplications_matches hr x
        refine List.nodup_cons.mpr ⟨fun hk => ?_, above.nodup_scanned hr hmatches⟩
        obtain ⟨y, hy, hkey⟩ := List.mem_map.mp hk
        have hgvr : y.gvr = x.gvr := congrArg ResourceKey.gvr hkey
        exact hx (hgvr.symm.trans (above.areApplications_scanned hr hmatches y hy))

/-- On the ring with a second entry for one of its applications the ascent from a third application
ends: two keys are missing, so at most four calls are open at once. -/
theorem ascent_ends_ring :
    let again := sampleApplication "shop" "shop" "mall"
    let r : Resolver := { ring with applications := ring.applications ++ [again] }
    let root := (sampleApplication "town" "shop" "town").resource
    (r.missing .empty).card = 2 ∧ ¬ (r.applications.map Application.key).Nodup ∧
      ∃ depth scanned, r.Visits [root] .empty (r.ancestorsOf root) depth scanned ∧ depth ≤ 4 ∧
        (scanned.map ResourceInfo.key).Nodup := by
  intro again r root
  have hcard : (r.missing .empty).card = 2 := by decide
  have hr : ∀ a ∈ r.applications, a.resource.gvr = r.applicationKind := by decide
  obtain ⟨depth, scanned, hvisits, hdepth, hnodup, -⟩ := ascent_ends hr root .empty
  rw [hcard] at hdepth
  exact ⟨hcard, by decide, depth, scanned, hvisits, hdepth, hnodup⟩

end Resolver

end AppWatch
