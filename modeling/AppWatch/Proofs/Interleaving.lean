/-
# Scopes do not interfere

The streams of all scopes of a kind end in one worker.  It takes their events in whatever order they
come, and all of them write to one cache and one table of open listings.  The order between the
scopes makes no difference: an event of a single namespace reads and writes its own listing and the
keys that begin with the namespace and a slash, and nothing else.

* **It leaves everything else alone** (`WatchCache.get?_apply_elsewhere`).  The end of a listing
  looks at every cached object, but those that it removes lie in the namespace, and so do their
  keys.
* **It sees nothing else** (`WatchCache.AgreeOn.apply`).  Two caches that agree on what belongs to a
  scope make the same changes at its events, and go on agreeing.

As no key belongs to two namespaces, a run can be compared with what one scope would have done alone
(`WatchCache.AgreeOn.applyAll`).  Runs in which every scope has the same events therefore agree on
every scope, and outside all of them nothing has happened (`WatchCache.applyAll_eq_of_within_eq`).
Objects of other places may have keys that look like those of a namespace; they are cached under
their own keys, and that is all the argument asks of them.
-/
import AppWatch.Proofs.Relisting

namespace AppWatch

/-! ## 1. Interleavings -/

/-- A list is woven from two others, each in its own order. -/
inductive Interleaves {α : Type} : List α → List α → List α → Prop where
  | nil : Interleaves [] [] []
  | left {x : α} {xs ys zs : List α} (h : Interleaves xs ys zs) :
      Interleaves (x :: xs) ys (x :: zs)
  | right {y : α} {xs ys zs : List α} (h : Interleaves xs ys zs) :
      Interleaves xs (y :: ys) (y :: zs)

theorem Interleaves.mem_or {α : Type} {xs ys zs : List α} (h : Interleaves xs ys zs) {z : α}
    (hz : z ∈ zs) : z ∈ xs ∨ z ∈ ys := by
  induction h with
  | nil => exact .inl hz
  | left _ ih =>
    rcases List.mem_cons.mp hz with rfl | hz
    · exact .inl List.mem_cons_self
    · exact (ih hz).imp_left (List.mem_cons_of_mem _)
  | right _ ih =>
    rcases List.mem_cons.mp hz with rfl | hz
    · exact .inr List.mem_cons_self
    · exact (ih hz).imp_right (List.mem_cons_of_mem _)

namespace ScopedEvent

/-- An event of a single namespace, with an object of it if it has one. -/
structure IsConfined (e : ScopedEvent) : Prop where
  nonempty : e.scope ≠ ""
  plain : Text.hasSlash e.scope = false
  object : ∀ o, e.event.object? = some o → WatchCache.inScope e.scope o = true

variable {scope : String} {es xs ys zs : List ScopedEvent}

theorem within_map (scope : String) (events : List WatchEvent) :
    within scope (events.map (.mk scope)) = events := by
  simp [within, List.filter_map, Function.comp_def]

theorem within_map_of_ne {other : String} (h : scope ≠ other) (events : List WatchEvent) :
    within scope (events.map (.mk other)) = [] := by
  refine within_eq_nil fun e he => ?_
  obtain ⟨w, -, rfl⟩ := List.mem_map.mp he
  exact h.symm

/-- Of two sequences one of which has no events of a scope, all interleavings have the same. -/
theorem within_interleaves (h : Interleaves xs ys zs)
    (hone : within scope xs = [] ∨ within scope ys = []) :
    within scope zs = within scope xs ++ within scope ys := by
  induction h with
  | nil => rfl
  | @left x xs ys zs _ ih =>
    rw [within_cons] at hone ⊢
    rw [ih (hone.imp_left fun hx => (List.append_eq_nil_iff.mp hx).2), within_cons,
      List.append_assoc]
  | @right y xs ys zs _ ih =>
    rw [within_cons] at hone ⊢
    rw [ih (hone.imp_right fun hy => (List.append_eq_nil_iff.mp hy).2), within_cons]
    rcases hone with hx | hy
    · rw [hx, List.nil_append, List.nil_append]
    · rw [(List.append_eq_nil_iff.mp hy).1, List.nil_append, List.nil_append]

end ScopedEvent

namespace WatchCache

open ScopedEvent

variable {c d d' : WatchCache} {scope other key : String} {o : ClusterObject} {e : WatchEvent}
  {se : ScopedEvent} {es es' : List ScopedEvent}

/-! ## 2. What belongs to a scope -/

/-- A key belongs to a namespace: the objects of the namespace have such keys. -/
def BelongsTo (scope key : String) : Prop := ∃ name, key = scope ++ "/" ++ name

theorem belongsTo_of_key? (hscope : scope ≠ "") (ho : inScope scope o = true)
    (hkey : o.key? = some key) : BelongsTo scope key := by
  obtain ⟨name, -, rfl⟩ := Option.map_eq_some_iff.mp hkey
  have hns : o.metadata.«namespace» = some scope := by simpa [inScope, hscope] using ho
  exact ⟨name, by simp only [hns, if_neg hscope]⟩

/-- No key belongs to two namespaces. -/
theorem BelongsTo.eq (hscope : Text.hasSlash scope = false) (hother : Text.hasSlash other = false)
    (h : BelongsTo scope key) (h' : BelongsTo other key) : scope = other := by
  obtain ⟨name, rfl⟩ := h
  obtain ⟨name', hkey⟩ := h'
  exact ((Text.append_slash_inj hscope hother).mp hkey).1

/-- Two caches agree on what belongs to a scope: its listing and the objects under its keys. -/
structure AgreeOn (scope : String) (c d : WatchCache) : Prop where
  listing : c.listings.get? scope = d.listings.get? scope
  objects : ∀ key, BelongsTo scope key → c.objects.get? key = d.objects.get? key

theorem AgreeOn.refl (scope : String) (c : WatchCache) : AgreeOn scope c c :=
  ⟨rfl, fun _ _ => rfl⟩

theorem AgreeOn.symm (h : AgreeOn scope c d) : AgreeOn scope d c :=
  ⟨h.listing.symm, fun key hkey => (h.objects key hkey).symm⟩

theorem AgreeOn.trans (h : AgreeOn scope c d) (h' : AgreeOn scope d d') : AgreeOn scope c d' :=
  ⟨h.listing.trans h'.listing, fun key hkey => (h.objects key hkey).trans (h'.objects key hkey)⟩

/-- The changes that the events of one scope make in a run, event by event. -/
def changesOf (c : WatchCache) (scope : String) : List ScopedEvent → List (List ResourceEvent)
  | [] => []
  | e :: es =>
    let (c', changes) := c.apply e.scope e.event
    if e.scope = scope then changes :: c'.changesOf scope es else c'.changesOf scope es

/-- When all events are of one scope, their changes are those of the run. -/
theorem flatten_changesOf (c : WatchCache) (scope : String) (events : List WatchEvent) :
    (c.changesOf scope (events.map (.mk scope))).flatten =
      (c.applyAll (events.map (.mk scope))).2 := by
  induction events generalizing c with
  | nil => rfl
  | cons e events ih => simp [changesOf, applyAll, ih]

/-! ## 3. An event leaves alone what does not belong to its scope -/

/-- **An event of a namespace leaves the objects under all other keys as they were.** -/
theorem get?_apply_elsewhere (hc : c.Keyed) (hse : se.IsConfined)
    (hkey : ¬ BelongsTo se.scope key) :
    (c.apply se.scope se.event).1.objects.get? key = c.objects.get? key := by
  have hne : ∀ x k, se.event.object? = some x → x.key? = some k → key ≠ k := by
    rintro x k hx hk rfl
    exact hkey (belongsTo_of_key? hse.nonempty (hse.object x hx) hk)
  have heff := effect_apply c se.scope se.event
  generalize (c.apply se.scope se.event).1.objects = objects at heff ⊢
  generalize (c.apply se.scope se.event).2 = changes at heff
  generalize se.event = event at hne heff
  cases heff with
  | @stored _ x k hstored hk =>
    exact SortedMap.get?_insert_of_ne _ (hne x k (by rcases hstored with rfl | rfl <;> rfl) hk) _
  | @removed x k hk => exact SortedMap.get?_erase_of_ne _ (hne x k rfl hk)
  | pruned _ =>
    refine Option.ext fun x => ?_
    rw [SortedMap.get?_filter_eq_some]
    refine and_iff_left_of_imp fun hget => ?_
    have hout : inScope se.scope x = false := Bool.eq_false_iff.mpr fun hin =>
      hkey (belongsTo_of_key? hse.nonempty hin (hc key x hget))
    simp [isStale, hout]
  | passed _ => rfl

/-- An event of another namespace changes nothing that belongs to a scope. -/
theorem agreeOn_apply (hc : c.Keyed) (hse : se.IsConfined) (hscope : Text.hasSlash scope = false)
    (hne : se.scope ≠ scope) : AgreeOn scope (c.apply se.scope se.event).1 c where
  listing := get?_listings_of_ne c hne.symm se.event
  objects _ hkey := get?_apply_elsewhere hc hse fun h => hne (h.eq hse.plain hscope hkey)

/-! ## 4. An event sees what belongs to its scope only -/

/-- Caches that agree on a scope have the same objects of it. -/
theorem AgreeOn.get?_iff (h : AgreeOn scope c d) (hc : c.Keyed) (hd : d.Keyed)
    (hscope : scope ≠ "") (hin : inScope scope o = true) :
    c.objects.get? key = some o ↔ d.objects.get? key = some o := by
  constructor
  · intro hget
    rw [← h.objects key (belongsTo_of_key? hscope hin (hc key o hget))]
    exact hget
  · intro hget
    rw [h.objects key (belongsTo_of_key? hscope hin (hd key o hget))]
    exact hget

theorem AgreeOn.announce (h : AgreeOn scope c d) (key : String) :
    AgreeOn scope (c.announce scope key) (d.announce scope key) where
  listing := by
    simp only [WatchCache.announce, SortedMap.get?_modify, h.listing]
  objects := h.objects

theorem AgreeOn.store (h : AgreeOn scope c d) (hkey : BelongsTo scope key) (o : ClusterObject) :
    (c.store key o).2 = (d.store key o).2 ∧ AgreeOn scope (c.store key o).1 (d.store key o).1 := by
  refine ⟨by simp only [WatchCache.store, h.objects key hkey], h.listing, fun k hk => ?_⟩
  simp only [WatchCache.store, SortedMap.get?_insert, h.objects k hk]

theorem AgreeOn.closeListing (h : AgreeOn scope c d) (hc : c.Keyed) (hd : d.Keyed)
    (hscope : scope ≠ "") :
    (c.closeListing scope).2 = (d.closeListing scope).2 ∧
      AgreeOn scope (c.closeListing scope).1 (d.closeListing scope).1 := by
  unfold WatchCache.closeListing
  rw [h.listing]
  cases d.listings.get? scope with
  | none => exact ⟨rfl, h⟩
  | some announced =>
    have hstale : c.objects.filter (isStale scope announced) =
        d.objects.filter (isStale scope announced) := by
      refine SortedMap.ext_get? fun k => Option.ext fun x => ?_
      rw [SortedMap.get?_filter_eq_some, SortedMap.get?_filter_eq_some]
      exact and_congr_left fun hs =>
        h.get?_iff hc hd hscope (Bool.and_eq_true_iff.mp hs).1
    refine ⟨by simp only [hstale], by simp only [SortedMap.get?_erase_self], fun k hk => ?_⟩
    refine Option.ext fun x => ?_
    simp only [SortedMap.get?_filter_eq_some, h.objects k hk]

/-- **At an event of a scope two caches that agree on the scope make the same changes**, and they
agree afterwards. -/
theorem AgreeOn.apply (h : AgreeOn scope c d) (hc : c.Keyed) (hd : d.Keyed) (hscope : scope ≠ "")
    (he : ∀ o, e.object? = some o → inScope scope o = true) :
    (c.apply scope e).2 = (d.apply scope e).2 ∧
      AgreeOn scope (c.apply scope e).1 (d.apply scope e).1 := by
  cases e with
  | init =>
    refine ⟨rfl, ?_, h.objects⟩
    simp only [WatchCache.apply, SortedMap.get?_insert_self]
  | initApply o =>
    simp only [WatchCache.apply]
    split
    · exact ⟨rfl, h⟩
    · next key hkey =>
      exact (h.announce key).store (belongsTo_of_key? hscope (he o rfl) hkey) o
  | initDone => exact h.closeListing hc hd hscope
  | apply o =>
    simp only [WatchCache.apply]
    split
    · exact ⟨rfl, h⟩
    · next key hkey => exact h.store (belongsTo_of_key? hscope (he o rfl) hkey) o
  | delete o =>
    simp only [WatchCache.apply]
    split
    · exact ⟨rfl, h⟩
    · next key hkey =>
      refine ⟨rfl, h.listing, fun k hk => ?_⟩
      simp only [SortedMap.get?_erase, h.objects k hk]

/-! ## 5. Runs -/

/-- **In a run every scope does what it would have done alone.** -/
theorem AgreeOn.applyAll (h : AgreeOn scope c d) (hc : c.Keyed) (hd : d.Keyed)
    (hscope : Text.hasSlash scope = false) (hes : ∀ e ∈ es, e.IsConfined) :
    c.changesOf scope es = d.changesOf scope ((within scope es).map (.mk scope)) ∧
      AgreeOn scope (c.applyAll es).1 (d.applyAll ((within scope es).map (.mk scope))).1 := by
  induction es generalizing c d with
  | nil => exact ⟨rfl, h⟩
  | cons se es ih =>
    obtain ⟨hse, hes⟩ := List.forall_mem_cons.mp hes
    rw [within_cons]
    by_cases hs : scope = se.scope
    · subst hs
      obtain ⟨hchanges, hagree⟩ := h.apply hc hd hse.nonempty hse.object
      obtain ⟨hrest, hfinal⟩ := ih hagree (hc.apply _ _) (hd.apply _ _) hes
      simp only [if_pos, List.cons_append, List.nil_append, List.map_cons, changesOf,
        WatchCache.applyAll, hchanges, hrest]
      exact ⟨trivial, hfinal⟩
    · have hagree := (agreeOn_apply hc hse hscope (Ne.symm hs)).trans h
      simp only [if_neg hs, if_neg (Ne.symm hs), List.nil_append, changesOf, WatchCache.applyAll]
      exact ih hagree (hc.apply _ _) hd hes

theorem get?_applyAll_elsewhere (hc : c.Keyed) (hes : ∀ e ∈ es, e.IsConfined)
    (hkey : ∀ e ∈ es, ¬ BelongsTo e.scope key) :
    (c.applyAll es).1.objects.get? key = c.objects.get? key := by
  induction es generalizing c with
  | nil => rfl
  | cons se es ih =>
    obtain ⟨hse, hes⟩ := List.forall_mem_cons.mp hes
    obtain ⟨hout, hkey⟩ := List.forall_mem_cons.mp hkey
    exact (ih (hc.apply _ _) hes hkey).trans (get?_apply_elsewhere hc hse hout)

theorem get?_listings_applyAll (c : WatchCache) (hes : ∀ e ∈ es, e.scope ≠ scope) :
    (c.applyAll es).1.listings.get? scope = c.listings.get? scope := by
  induction es generalizing c with
  | nil => rfl
  | cons se es ih =>
    obtain ⟨hse, hes⟩ := List.forall_mem_cons.mp hes
    exact (ih _ hes).trans (get?_listings_of_ne c hse.symm se.event)

/-- **The order between scopes does not matter.**  Runs in which every scope has the same events end
in the same cache. -/
theorem applyAll_eq_of_within_eq (hc : c.Keyed) (hes : ∀ e ∈ es, e.IsConfined)
    (hes' : ∀ e ∈ es', e.IsConfined) (hsame : ∀ scope, within scope es = within scope es') :
    (c.applyAll es).1 = (c.applyAll es').1 := by
  have hagree : ∀ scope, Text.hasSlash scope = false →
      AgreeOn scope (c.applyAll es).1 (c.applyAll es').1 := by
    intro scope hplain
    have halone := ((AgreeOn.refl scope c).applyAll hc hc hplain hes).2
    rw [hsame] at halone
    exact halone.trans ((AgreeOn.refl scope c).applyAll hc hc hplain hes').2.symm
  have hobjects : ∀ key, (c.applyAll es).1.objects.get? key =
      (c.applyAll es').1.objects.get? key := by
    intro key
    by_cases hkey : ∃ scope, Text.hasSlash scope = false ∧ BelongsTo scope key
    · obtain ⟨scope, hplain, hbelongs⟩ := hkey
      exact (hagree scope hplain).objects key hbelongs
    · have hout : ∀ {e : ScopedEvent}, e.IsConfined → ¬ BelongsTo e.scope key :=
        fun he h => hkey ⟨_, he.plain, h⟩
      rw [get?_applyAll_elsewhere hc hes fun e he => hout (hes e he),
        get?_applyAll_elsewhere hc hes' fun e he => hout (hes' e he)]
  have hlistings : ∀ scope, (c.applyAll es).1.listings.get? scope =
      (c.applyAll es').1.listings.get? scope := by
    intro scope
    by_cases hplain : Text.hasSlash scope = false
    · exact (hagree scope hplain).listing
    · have hout : ∀ {e : ScopedEvent}, e.IsConfined → e.scope ≠ scope :=
        fun he hs => hplain (hs ▸ he.plain)
      rw [get?_listings_applyAll c fun e he => hout (hes e he),
        get?_listings_applyAll c fun e he => hout (hes' e he)]
  exact congrArg₂ WatchCache.mk (SortedMap.ext_get? hobjects) (SortedMap.ext_get? hlistings)

/-- **Namespaces do not interfere.**  Take a cache whose objects are under their own keys, whatever
listings are open, and a sequence of events of each of two namespaces.  All interleavings of the two
end with the same cached objects and the same open listings.  Each event of either namespace makes
the same changes in all of them, and they are the changes that the namespace's sequence would have
made alone.  (What a closed listing removes is reported in the order of the keys.) -/
theorem interleavings_agree {c : WatchCache} (hc : c.Keyed) {s t : String} (hs : s ≠ "")
    (ht : t ≠ "") (hne : s ≠ t) (hsplain : Text.hasSlash s = false)
    (htplain : Text.hasSlash t = false) {xs ys : List WatchEvent}
    (hxs : ∀ e ∈ xs, ∀ o, e.object? = some o → o.metadata.«namespace» = some s)
    (hys : ∀ e ∈ ys, ∀ o, e.object? = some o → o.metadata.«namespace» = some t)
    {zs zs' : List ScopedEvent} (hzs : Interleaves (xs.map (.mk s)) (ys.map (.mk t)) zs)
    (hzs' : Interleaves (xs.map (.mk s)) (ys.map (.mk t)) zs') :
    (c.applyAll zs).1 = (c.applyAll zs').1 ∧
      c.changesOf s zs = c.changesOf s zs' ∧ c.changesOf t zs = c.changesOf t zs' ∧
      (c.changesOf s zs).flatten = (c.applyAll (xs.map (.mk s))).2 ∧
      (c.changesOf t zs).flatten = (c.applyAll (ys.map (.mk t))).2 := by
  have hwithin : ∀ {es : List ScopedEvent},
      Interleaves (xs.map (.mk s)) (ys.map (.mk t)) es → ∀ scope,
      within scope es = within scope (xs.map (.mk s)) ++ within scope (ys.map (.mk t)) := by
    intro es hes scope
    refine within_interleaves hes ?_
    by_cases h : scope = s
    · exact .inr (within_map_of_ne (h ▸ hne) ys)
    · exact .inl (within_map_of_ne h xs)
  have hconfined : ∀ {es : List ScopedEvent},
      Interleaves (xs.map (.mk s)) (ys.map (.mk t)) es →
      ∀ e ∈ es, e.IsConfined := by
    intro es hes e he
    rcases hes.mem_or he with he | he
    · obtain ⟨w, hw, rfl⟩ := List.mem_map.mp he
      exact ⟨hs, hsplain, fun o ho => by simp [inScope, hxs w hw o ho]⟩
    · obtain ⟨w, hw, rfl⟩ := List.mem_map.mp he
      exact ⟨ht, htplain, fun o ho => by simp [inScope, hys w hw o ho]⟩
  have halone : ∀ {es : List ScopedEvent},
      Interleaves (xs.map (.mk s)) (ys.map (.mk t)) es →
      c.changesOf s es = c.changesOf s (xs.map (.mk s)) ∧
        c.changesOf t es = c.changesOf t (ys.map (.mk t)) := by
    intro es hes
    have hfirst := ((AgreeOn.refl s c).applyAll hc hc hsplain (hconfined hes)).1
    have hsecond := ((AgreeOn.refl t c).applyAll hc hc htplain (hconfined hes)).1
    rw [hwithin hes, within_map, within_map_of_ne hne, List.append_nil] at hfirst
    rw [hwithin hes, within_map, within_map_of_ne hne.symm, List.nil_append] at hsecond
    exact ⟨hfirst, hsecond⟩
  refine ⟨applyAll_eq_of_within_eq hc (hconfined hzs) (hconfined hzs') fun scope => ?_, ?_, ?_,
    ?_, ?_⟩
  · rw [hwithin hzs, hwithin hzs']
  · rw [(halone hzs).1, (halone hzs').1]
  · rw [(halone hzs).2, (halone hzs').2]
  · rw [(halone hzs).1, flatten_changesOf]
  · rw [(halone hzs).2, flatten_changesOf]

/-- Pods of two namespaces, and an object without a namespace whose key looks like one of theirs. -/
def samplePods : List ScopedEvent :=
  [⟨"", .apply { metadata := { name := some "blue/node" } }⟩,
    ⟨"blue", .apply (samplePodOf "blue" (some "web") "a")⟩,
    ⟨"red", .apply (samplePodOf "red" (some "web") "a")⟩]

/-- One namespace is listed and has another pod. -/
def sampleBlue : List WatchEvent :=
  [.init, .initApply (samplePodOf "blue" (some "db") "a"), .initDone]

/-- The other loses its pod, and is listed and found empty. -/
def sampleRed : List WatchEvent :=
  [.delete (samplePodOf "red" (some "web") "a"), .init, .initDone]

/-- The two listings open at once, and one after the other. -/
theorem interleavings_agree_two_listings :
    let c := (({} : WatchCache).applyAll samplePods).1
    let blue := sampleBlue.map (.mk "blue")
    let red := sampleRed.map (.mk "red")
    let woven := blue.take 1 ++ red.take 2 ++ (blue.drop 1).take 1 ++ red.drop 2 ++ blue.drop 2
    (c.applyAll woven).1 = (c.applyAll (red ++ blue)).1 ∧
      c.changesOf "blue" woven = c.changesOf "blue" (red ++ blue) ∧
      c.changesOf "red" woven = c.changesOf "red" (red ++ blue) ∧
      (c.changesOf "blue" woven).flatten =
        [⟨"blue/db", .added (samplePodOf "blue" (some "db") "a")⟩,
          ⟨"blue/web", .deleted (samplePodOf "blue" (some "web") "a")⟩] ∧
      (c.changesOf "red" woven).flatten =
        [⟨"red/web", .deleted (samplePodOf "red" (some "web") "a")⟩] := by
  intro c blue red woven
  have hwoven : Interleaves blue red woven :=
    .left (.right (.right (.left (.right (.left .nil)))))
  have hserial : Interleaves blue red (red ++ blue) :=
    .right (.right (.right (.left (.left (.left .nil)))))
  have hkeyed : c.Keyed := keyed_empty.applyAll samplePods
  obtain ⟨hcache, hblue, hred, hblue', hred'⟩ := interleavings_agree hkeyed
    (by decide : "blue" ≠ "") (by decide : "red" ≠ "") (by decide) (by decide) (by decide)
    (by decide) (by decide) hwoven hserial
  exact ⟨hcache, hblue, hred, hblue'.trans (by decide), hred'.trans (by decide)⟩

end WatchCache

end AppWatch
