/-
# A listing leaves what it has announced

A scope is listed anew: the listing is opened, announces objects, and is closed.  Whatever the cache
held before, and whichever earlier listing of the scope was given up half way, afterwards the cached
objects of the scope are those that were announced, each in its last version, and the others of the
scope are reported gone (`WatchCache.relisted_exactly`).

Other scopes write to the same cache meanwhile.  They do not interfere because an object's key tells
its namespace: an event of one namespace leaves every object of another as it was
(`WatchCache.get?_apply_outside`).  What the listing has done so far can therefore be read off its
own announcements (`WatchCache.Midway`), and this is carried from one event to the next.
-/
import AppWatch.Proofs.Intake
import AppWatch.Proofs.ObjectKeys
import Mathlib.Data.List.Induction

namespace AppWatch

/-- Whether the object that an event carries, if any, is plain. -/
def ScopedEvent.isPlain (e : ScopedEvent) : Bool := e.event.object?.all ClusterObject.isPlain

namespace WatchCache

/-! ## 1. What a listing is -/

/-- What may come while a scope is listed: the listing announces an object of the scope or, if the
scope is a single namespace, another single namespace has an event of its own. -/
inductive During (scope : String) : ScopedEvent → Prop where
  | announced {o : ClusterObject} (h : inScope scope o = true) : During scope ⟨scope, .initApply o⟩
  | elsewhere {other : String} {e : WatchEvent} (hscope : scope ≠ "") (hother : other ≠ "")
      (hne : other ≠ scope) (hin : ∀ o, e.object? = some o → inScope other o = true) :
      During scope ⟨other, e⟩

/-- The object that an event announces under a key, as one of a scope. -/
def announced? (scope key : String) : ScopedEvent → Option ClusterObject
  | ⟨s, .initApply o⟩ => if s = scope ∧ o.key? = some key then some o else none
  | _ => none

/-- The last object that is announced under a key, as one of a scope. -/
def lastAnnounced? (scope key : String) (events : List ScopedEvent) : Option ClusterObject :=
  (events.filterMap (announced? scope key)).getLast?

/-- A listing of a scope, from its opening to its end. -/
def listing (scope : String) (events : List ScopedEvent) : List ScopedEvent :=
  ⟨scope, .init⟩ :: events ++ [⟨scope, .initDone⟩]

/-- The cache when all of a listing has come but its end. -/
def midway (c : WatchCache) (scope : String) (events : List ScopedEvent) : WatchCache :=
  (c.applyAll (⟨scope, .init⟩ :: events)).1

/-- Events after which a listing of a scope is open: it was opened and has not been closed since. -/
def IsListing (scope : String) (events : List ScopedEvent) : Prop :=
  ∃ before after, events = before ++ ⟨scope, .init⟩ :: after ∧ ⟨scope, .initDone⟩ ∉ after

/-- What a listing of a scope does to a cache. -/
structure Relists (c : WatchCache) (scope : String) (events : List ScopedEvent) : Prop where
  /-- The cached objects of the scope are the announced ones in their last versions. -/
  cached : ∀ key,
    ((c.applyAll (listing scope events)).1.objects.get? key).filter (inScope scope) =
      lastAnnounced? scope key events
  /-- The end reports as gone whatever was cached before and has not been announced. -/
  gone : ∀ d, d ∈ ((c.midway scope events).apply scope .initDone).2 ↔
    ∃ o, d.change = .deleted o ∧ c.objects.get? d.key = some o ∧ inScope scope o = true ∧
      lastAnnounced? scope d.key events = none
  /-- It reports the version that is cached until then. -/
  latest : ∀ d ∈ ((c.midway scope events).apply scope .initDone).2,
    (c.midway scope events).objects.get? d.key = some d.change.latest
  /-- It reports nothing twice. -/
  once : (((c.midway scope events).apply scope .initDone).2).Pairwise fun d d' => d.key ≠ d'.key
  /-- No event of the listing changes anything outside the scope. -/
  outside : ∀ before e after, listing scope events = before ++ e :: after → e.scope = scope →
    ∀ key o, inScope scope o = false →
      ((c.applyAll (before ++ [e])).1.objects.get? key = some o ↔
        (c.applyAll before).1.objects.get? key = some o)

variable {c m : WatchCache} {scope other key : String} {o : ClusterObject} {e : WatchEvent}
  {se : ScopedEvent} {es events : List ScopedEvent}

/-! ## 2. Events of another scope -/

/-- Every cached object is plain. -/
def Plain (c : WatchCache) : Prop :=
  ∀ key o, c.objects.get? key = some o → o.isPlain = true

theorem plain_empty : Plain {} := fun _ _ h => absurd h (by simp)

theorem Plain.apply (hc : c.Plain) (scope : String)
    (he : ∀ o, e.object? = some o → o.isPlain = true) : (c.apply scope e).1.Plain := by
  intro key o h
  have heff := effect_apply c scope e
  generalize (c.apply scope e).1.objects = objects at h heff
  generalize (c.apply scope e).2 = changes at heff
  cases heff with
  | @stored _ x k hstored _ =>
    rw [SortedMap.get?_insert] at h
    split at h
    · cases h
      exact he _ (by rcases hstored with rfl | rfl <;> rfl)
    · exact hc key o h
  | removed _ =>
    rw [SortedMap.get?_erase] at h
    split at h
    · exact absurd h (by simp)
    · exact hc key o h
  | pruned _ => exact hc key o (SortedMap.get?_filter_eq_some.mp h).1
  | passed _ => exact hc key o h

theorem isPlain_iff : se.isPlain = true ↔ ∀ o, se.event.object? = some o → o.isPlain = true := by
  simp [ScopedEvent.isPlain, Option.all_eq_true]

theorem Plain.applyAll (hc : c.Plain) (hes : ∀ se ∈ es, se.isPlain = true) :
    (c.applyAll es).1.Plain := by
  induction es generalizing c with
  | nil => exact hc
  | cons se es ih =>
    obtain ⟨hse, hes⟩ := List.forall_mem_cons.mp hes
    exact ih (hc.apply se.scope (isPlain_iff.mp hse)) hes

/-- **An event with an object of a scope leaves every object outside the scope as it was.** -/
theorem get?_apply_outside (hkeyed : c.Keyed) (hplain : c.Plain)
    (he : ∀ x, e.object? = some x → x.isPlain = true ∧ inScope scope x = true)
    (ho : inScope scope o = false) :
    (c.apply scope e).1.objects.get? key = some o ↔ c.objects.get? key = some o := by
  -- Under the key of the event's object there is no object outside the scope.
  have hfree : ∀ x, e.object? = some x → x.key? = some key → c.objects.get? key ≠ some o := by
    intro x hx hkey hget
    have hsame := inScope_eq_of_key? (hplain key o hget) (he x hx).1 (hkeyed key o hget) hkey scope
    rw [ho, (he x hx).2] at hsame
    exact absurd hsame (by simp)
  have heff := effect_apply c scope e
  generalize (c.apply scope e).1.objects = objects at heff ⊢
  generalize (c.apply scope e).2 = changes at heff
  cases heff with
  | @stored _ x k hstored hkey =>
    have hx : e.object? = some x := by rcases hstored with rfl | rfl <;> rfl
    rw [SortedMap.get?_insert]
    split
    · next heq =>
      refine ⟨fun h => ?_, fun h => absurd h (hfree x hx (heq ▸ hkey))⟩
      have hin := (he x hx).2
      rw [Option.some.inj h, ho] at hin
      exact absurd hin (by simp)
    · rfl
  | @removed x k hkey =>
    rw [SortedMap.get?_erase]
    split
    · next heq => exact ⟨fun h => absurd h (by simp), fun h => absurd h (hfree x rfl (heq ▸ hkey))⟩
    · rfl
  | pruned _ =>
    rw [SortedMap.get?_filter_eq_some]
    exact and_iff_left (by simp [isStale, ho])
  | passed _ => rfl

/-- An object of a single namespace lies in no other. -/
theorem not_inScope_of_ne (hscope : scope ≠ "") (hother : other ≠ "") (hne : other ≠ scope)
    (h : inScope scope o = true) : inScope other o = false := by
  simp only [inScope, hscope, hother, decide_false, Bool.false_or, decide_eq_true_eq,
    decide_eq_false_iff_not] at h ⊢
  rw [h]
  exact fun heq => hne (Option.some.inj heq).symm

/-- The listing of a scope is no matter of other scopes. -/
theorem get?_listings_of_ne (c : WatchCache) (h : scope ≠ other) (e : WatchEvent) :
    (c.apply other e).1.listings.get? scope = c.listings.get? scope := by
  cases e with
  | init => exact SortedMap.get?_insert_of_ne _ h _
  | initApply o =>
    simp only [WatchCache.apply]
    split
    · rfl
    · exact (SortedMap.get?_modify _ _ _ _).trans (if_neg h)
  | initDone =>
    simp only [WatchCache.apply, closeListing]
    split
    · rfl
    · exact SortedMap.get?_erase_of_ne _ h
  | apply o | delete o =>
    simp only [WatchCache.apply]
    split <;> rfl

/-! ## 3. While a scope is listed -/

/-- What a listing has done to the cache before it is closed: its keys are noted, and the objects of
the scope are those that were announced and, where nothing was, those of before. -/
structure Midway (c : WatchCache) (scope : String) (events : List ScopedEvent) (m : WatchCache) :
    Prop where
  keyed : m.Keyed
  plain : m.Plain
  noted : ∃ keys, m.listings.get? scope = some keys ∧
    ∀ key, keys.contains key = true ↔ (lastAnnounced? scope key events).isSome = true
  cached : ∀ key, (m.objects.get? key).filter (inScope scope) =
    (lastAnnounced? scope key events).or ((c.objects.get? key).filter (inScope scope))

theorem lastAnnounced?_concat (scope key : String) (events : List ScopedEvent) (se : ScopedEvent) :
    lastAnnounced? scope key (events ++ [se]) =
      (announced? scope key se).or (lastAnnounced? scope key events) := by
  unfold lastAnnounced?
  rw [List.filterMap_append, List.getLast?_append, List.filterMap_cons, List.filterMap_nil]
  cases announced? scope key se <;> rfl

/-- A listing that has just been opened has announced nothing. -/
theorem midway_opened (hkeyed : c.Keyed) (hplain : c.Plain) (scope : String) :
    Midway c scope [] (c.midway scope []) where
  keyed := hkeyed.apply scope .init
  plain := hplain.apply (e := .init) scope fun _ h => absurd h (by simp [WatchEvent.object?])
  noted := ⟨.empty, SortedMap.get?_insert_self _ _ _, fun key => by
    simp [SortedMap.contains, lastAnnounced?]⟩
  cached _ := rfl

/-- An announcement is noted, and the object stored. -/
theorem Midway.announce (h : Midway c scope events m) (hplain : o.isPlain = true)
    (hin : inScope scope o = true) :
    Midway c scope (events ++ [⟨scope, .initApply o⟩]) (m.apply scope (.initApply o)).1 := by
  cases hkey : o.key? with
  | none =>
    have hnothing : ∀ key, lastAnnounced? scope key (events ++ [⟨scope, .initApply o⟩]) =
        lastAnnounced? scope key events := fun key => by
      simp [lastAnnounced?_concat, announced?, hkey]
    have hm : (m.apply scope (.initApply o)).1 = m := by simp only [WatchCache.apply, hkey]
    rw [hm]
    exact ⟨h.keyed, h.plain, by simpa only [hnothing] using h.noted,
      by simpa only [hnothing] using h.cached⟩
  | some k =>
    have hlast : ∀ key, lastAnnounced? scope key (events ++ [⟨scope, .initApply o⟩]) =
        if key = k then some o else lastAnnounced? scope key events := fun key => by
      by_cases hk : key = k
      · simp [lastAnnounced?_concat, announced?, hkey, hk]
      · simp [lastAnnounced?_concat, announced?, hkey, hk, Ne.symm hk]
    obtain ⟨keys, hkeys, hnoted⟩ := h.noted
    refine ⟨h.keyed.apply _ _, h.plain.apply _ fun x hx => ?_, ⟨keys.add k, ?_, fun key => ?_⟩,
      fun key => ?_⟩
    · cases hx
      exact hplain
    · simp only [WatchCache.apply, hkey, store, WatchCache.announce]
      rw [SortedMap.get?_modify, if_pos rfl, hkeys, Option.map_some]
    · rw [SortedSet.contains_add_iff, hnoted, hlast]
      by_cases hk : key = k <;> simp [hk]
    · simp only [WatchCache.apply, hkey, store, WatchCache.announce]
      rw [SortedMap.get?_insert, hlast]
      by_cases hk : key = k
      · simp [hk, hin]
      · rw [if_neg hk, if_neg hk, h.cached]

/-- Other namespaces do not interfere. -/
theorem Midway.elsewhere (h : Midway c scope events m) (hscope : scope ≠ "") (hother : other ≠ "")
    (hne : other ≠ scope)
    (he : ∀ x, e.object? = some x → x.isPlain = true ∧ inScope other x = true) :
    Midway c scope (events ++ [⟨other, e⟩]) (m.apply other e).1 := by
  have hnothing : ∀ key, lastAnnounced? scope key (events ++ [⟨other, e⟩]) =
      lastAnnounced? scope key events := fun key => by
    cases e <;> simp [lastAnnounced?_concat, announced?, hne]
  -- The objects of the scope are outside the other one.
  have hcached : ∀ key, ((m.apply other e).1.objects.get? key).filter (inScope scope) =
      (m.objects.get? key).filter (inScope scope) := fun key => by
    refine Option.ext fun o => ?_
    rw [Option.filter_eq_some_iff, Option.filter_eq_some_iff]
    exact and_congr_left fun hin =>
      get?_apply_outside h.keyed h.plain he (not_inScope_of_ne hscope hother hne hin)
  refine ⟨h.keyed.apply _ _, h.plain.apply _ fun x hx => (he x hx).1, ?_, fun key => ?_⟩
  · simpa only [hnothing, get?_listings_of_ne m (Ne.symm hne)] using h.noted
  · rw [hcached, hnothing, h.cached]

/-- **Up to its end a listing has stored what it has announced and nothing else of its scope.** -/
theorem midway_of_during (hkeyed : c.Keyed) (hplain : c.Plain)
    (hevents : ∀ se ∈ events, se.isPlain = true ∧ During scope se) :
    Midway c scope events (c.midway scope events) := by
  -- On the end of the listing, since each event finds what those before it have done.
  induction events using List.reverseRecOn with
  | nil => exact midway_opened hkeyed hplain scope
  | append_singleton events se ih =>
    obtain ⟨hearlier, hse⟩ := List.forall_mem_append.mp hevents
    obtain ⟨hse, hduring⟩ := hse se (List.mem_singleton_self se)
    rw [midway, ← List.cons_append, applyAll_concat]
    cases hduring with
    | announced hin => exact (ih hearlier).announce (isPlain_iff.mp hse _ rfl) hin
    | elsewhere hscope hother hne hin =>
      exact (ih hearlier).elsewhere hscope hother hne fun x hx =>
        ⟨isPlain_iff.mp hse x hx, hin x hx⟩

/-! ## 4. The end of a listing -/

/-- A listing is open after an event if the event opens it, or does not close it and it was open. -/
theorem get?_listings_cases {keys : SortedSet String}
    (h : (c.apply other e).1.listings.get? scope = some keys) :
    (⟨other, e⟩ : ScopedEvent) = ⟨scope, .init⟩ ∨
      (⟨other, e⟩ : ScopedEvent) ≠ ⟨scope, .initDone⟩ ∧
        ∃ keys', c.listings.get? scope = some keys' := by
  by_cases hs : scope = other
  · subst hs
    cases e with
    | init => exact .inl rfl
    | initDone =>
      simp only [WatchCache.apply, closeListing] at h
      split at h
      · next hnone => exact absurd (hnone.symm.trans h) (by simp)
      · exact absurd h (by simp [SortedMap.get?_erase_self])
    | initApply o =>
      refine .inr ⟨by simp, ?_⟩
      simp only [WatchCache.apply] at h
      split at h
      · exact ⟨keys, h⟩
      · exact (Option.map_eq_some_iff.mp (((SortedMap.get?_modify _ _ _ _).trans
          (if_pos rfl)).symm.trans h)).imp fun _ => And.left
    | apply o | delete o =>
      refine .inr ⟨by simp, keys, ?_⟩
      simp only [WatchCache.apply] at h
      split at h <;> exact h
  · rw [get?_listings_of_ne c hs] at h
    exact .inr ⟨fun heq => hs (ScopedEvent.mk.inj heq).1.symm, keys, h⟩

/-- A listing that is open was opened and has not been closed since. -/
theorem isListing_of_get? {keys : SortedSet String}
    (h : (({} : WatchCache).applyAll es).1.listings.get? scope = some keys) :
    IsListing scope es := by
  induction es using List.reverseRecOn generalizing keys with
  | nil => exact absurd h (by simp [WatchCache.applyAll])
  | append_singleton es se ih =>
    rw [applyAll_concat] at h
    rcases get?_listings_cases h with hopened | ⟨hopen, keys', hkeys'⟩
    · exact ⟨es, [], by rw [← hopened], by simp⟩
    · obtain ⟨before, after, rfl, hafter⟩ := ih hkeys'
      refine ⟨before, after ++ [se], by simp, fun hmem => ?_⟩
      rcases List.mem_append.mp hmem with hmem | hmem
      · exact hafter hmem
      · exact hopen (List.mem_singleton.mp hmem).symm

/-- **The end of a listing that is not open changes nothing.** -/
theorem apply_initDone_of_not_isListing (h : ¬ IsListing scope es) :
    (({} : WatchCache).applyAll es).1.apply scope .initDone =
      ((({} : WatchCache).applyAll es).1, []) := by
  have hnone : (({} : WatchCache).applyAll es).1.listings.get? scope = none :=
    Option.eq_none_iff_forall_ne_some.mpr fun _ hget => h (isListing_of_get? hget)
  simp only [WatchCache.apply, closeListing, hnone]

namespace Midway

/-- A cached object of the scope that was not announced was cached before. -/
theorem get?_iff (h : Midway c scope events m) (hnone : lastAnnounced? scope key events = none) :
    m.objects.get? key = some o ∧ inScope scope o = true ↔
      c.objects.get? key = some o ∧ inScope scope o = true := by
  have hcached := h.cached key
  rw [hnone, Option.none_or] at hcached
  rw [← Option.filter_eq_some_iff, ← Option.filter_eq_some_iff, hcached]

/-- What is left when the listing is closed. -/
theorem closed (h : Midway c scope events m) (key : String) :
    ((m.apply scope .initDone).1.objects.get? key).filter (inScope scope) =
      lastAnnounced? scope key events := by
  obtain ⟨keys, hkeys, hnoted⟩ := h.noted
  simp only [WatchCache.apply, closeListing, hkeys]
  refine Option.ext fun o => ?_
  rw [Option.filter_eq_some_iff, SortedMap.get?_filter_eq_some]
  have hkeep : inScope scope o = true →
      ((!isStale scope keys key o) = true ↔ (lastAnnounced? scope key events).isSome = true) :=
    fun hin => by simp [isStale, hin, ← hnoted]
  have hcached := h.cached key
  cases hlast : lastAnnounced? scope key events with
  | none =>
    rw [hlast] at hkeep
    exact ⟨fun hget => absurd ((hkeep hget.2).mp hget.1.2) (by simp), fun hget => by cases hget⟩
  | some x =>
    rw [hlast, Option.some_or] at hcached
    rw [hlast] at hkeep
    rw [← hcached, Option.filter_eq_some_iff]
    exact ⟨fun hget => ⟨hget.1.1, hget.2⟩,
      fun hget => ⟨⟨hget.1, (hkeep hget.2).mpr rfl⟩, hget.2⟩⟩

/-- What is reported gone when the listing is closed. -/
theorem mem_changes_iff (h : Midway c scope events m) {d : ResourceEvent} :
    d ∈ (m.apply scope .initDone).2 ↔
      ∃ o, d.change = .deleted o ∧ m.objects.get? d.key = some o ∧ inScope scope o = true ∧
        lastAnnounced? scope d.key events = none := by
  obtain ⟨keys, hkeys, hnoted⟩ := h.noted
  simp only [WatchCache.apply, closeListing, hkeys, List.mem_map, Prod.exists,
    ← SortedMap.get?_eq_some_iff, SortedMap.get?_filter_eq_some, isStale, Bool.and_eq_true]
  have hlast : ∀ key, (!keys.contains key) = true ↔ lastAnnounced? scope key events = none := by
    intro key
    rw [Bool.not_eq_true', ← Bool.not_eq_true, hnoted, Bool.not_eq_true, Option.isSome_eq_false_iff,
      Option.isNone_iff_eq_none]
  constructor
  · rintro ⟨key, o, ⟨hget, hin, hstale⟩, rfl⟩
    exact ⟨o, rfl, hget, hin, (hlast key).mp hstale⟩
  · obtain ⟨key, change⟩ := d
    rintro ⟨o, rfl, hget, hin, hnone⟩
    exact ⟨key, o, ⟨hget, hin, (hlast key).mpr hnone⟩, rfl⟩

end Midway

/-- An event of a listing carries a plain object, if any, and one of its own scope one of it. -/
theorem of_mem_listing (hevents : ∀ se ∈ events, se.isPlain = true ∧ During scope se)
    (h : se ∈ listing scope events) :
    se.isPlain = true ∧
      (se.scope = scope → ∀ o, se.event.object? = some o → inScope scope o = true) := by
  rw [listing, List.mem_append, List.mem_cons, List.mem_singleton] at h
  rcases h with (rfl | hmem) | rfl
  · exact ⟨rfl, fun _ o ho => absurd ho (by simp [WatchEvent.object?])⟩
  · refine ⟨(hevents se hmem).1, fun hscope o ho => ?_⟩
    cases (hevents se hmem).2 with
    | announced hin =>
      cases ho
      exact hin
    | elsewhere _ _ hne _ => exact absurd hscope hne
  · exact ⟨rfl, fun _ o ho => absurd ho (by simp [WatchEvent.object?])⟩

/-- **A listing leaves exactly what it has announced.**  Take any events whatever that have come to a
cache, a listing of the scope among them that was given up half way, say, and then a listing of the
scope.  Other namespaces may have events meanwhile, and no name or namespace has a slash in it.
Then `Relists` says what the listing does; and an end of a listing that is not open does nothing. -/
theorem relisted_exactly (scope : String) (es events : List ScopedEvent)
    (hes : ∀ se ∈ es, se.isPlain = true)
    (hevents : ∀ se ∈ events, se.isPlain = true ∧ During scope se) :
    Relists (({} : WatchCache).applyAll es).1 scope events ∧
      ∀ past : List ScopedEvent, ¬ IsListing scope past →
        (({} : WatchCache).applyAll past).1.apply scope .initDone =
          ((({} : WatchCache).applyAll past).1, []) := by
  refine ⟨?_, fun _ => apply_initDone_of_not_isListing⟩
  have hkeyed := keyed_empty.applyAll es
  have hplain := plain_empty.applyAll hes
  generalize (({} : WatchCache).applyAll es).1 = c at hkeyed hplain
  have hmidway := midway_of_during hkeyed hplain hevents
  refine ⟨fun key => ?_, fun d => ?_, fun d hd => ?_, pairwise_key_ne _ _ _, ?_⟩
  · rw [listing, applyAll_concat]
    exact hmidway.closed key
  · rw [hmidway.mem_changes_iff]
    refine exists_congr fun o => and_congr_right fun _ => ?_
    rw [← and_assoc, ← and_assoc]
    exact and_congr_left hmidway.get?_iff
  · obtain ⟨o, hdeleted, hget, -⟩ := hmidway.mem_changes_iff.mp hd
    rw [hdeleted]
    exact hget
  · intro before se after hsplit hscope key o ho
    have hmem : ∀ x ∈ before ++ [se], x ∈ listing scope events := fun x hx => by
      rw [hsplit, List.append_cons]
      exact List.mem_append_left _ hx
    have hbefore : ∀ x ∈ before, x.isPlain = true := fun x hx =>
      (of_mem_listing hevents (hmem x (List.mem_append_left _ hx))).1
    obtain ⟨hse, hin⟩ := of_mem_listing hevents (hmem se (by simp))
    rw [applyAll_concat, hscope]
    exact get?_apply_outside (hkeyed.applyAll before) (hplain.applyAll hbefore)
      (fun x hx => ⟨isPlain_iff.mp hse x hx, hin hscope x hx⟩) ho

/-- A pod of a namespace, with the node it runs on. -/
def samplePodOf (ns : String) (name : Option String) (node : String) : ClusterObject where
  metadata := {
    name := name
    «namespace» := some ns
    labels := some (.ofList [("node", node)]) }

/-- A listing that announces two pods and is given up; another namespace has a pod of its own. -/
def sampleGivenUp : List ScopedEvent :=
  [⟨"blue", .init⟩, ⟨"blue", .initApply (samplePodOf "blue" (some "web") "a")⟩,
    ⟨"blue", .initApply (samplePodOf "blue" (some "db") "a")⟩,
    ⟨"red", .apply (samplePodOf "red" (some "web") "a")⟩]

/-- The listing that follows announces one of the pods twice and a pod without a name, while the
other namespace is listed and found empty. -/
def sampleAnnounced : List ScopedEvent :=
  [⟨"blue", .initApply (samplePodOf "blue" (some "web") "b")⟩, ⟨"red", .init⟩,
    ⟨"blue", .initApply (samplePodOf "blue" none "b")⟩, ⟨"red", .initDone⟩,
    ⟨"blue", .initApply (samplePodOf "blue" (some "web") "c")⟩]

/-- The pod that was announced twice is cached as announced last, and the one that was not announced
again is reported gone. -/
theorem relisted_exactly_given_up :
    let c := (({} : WatchCache).applyAll sampleGivenUp).1
    ((c.applyAll (listing "blue" sampleAnnounced)).1.objects.get? "blue/web").filter
        (inScope "blue") = some (samplePodOf "blue" (some "web") "c") ∧
      ⟨"blue/db", .deleted (samplePodOf "blue" (some "db") "a")⟩ ∈
        ((c.midway "blue" sampleAnnounced).apply "blue" .initDone).2 := by
  have hevents : ∀ se ∈ sampleAnnounced, se.isPlain = true ∧ During "blue" se := by
    have hred : ∀ e : WatchEvent, e.object? = none → During "blue" ⟨"red", e⟩ := fun e he =>
      .elsewhere (by decide) (by decide) (by decide) fun o ho => absurd (he.symm.trans ho) (by simp)
    intro se hse
    refine ⟨by revert se; decide, ?_⟩
    simp only [sampleAnnounced, List.mem_cons, List.not_mem_nil, or_false] at hse
    rcases hse with rfl | rfl | rfl | rfl | rfl
    · exact .announced rfl
    · exact hred _ rfl
    · exact .announced rfl
    · exact hred _ rfl
    · exact .announced rfl
  obtain ⟨h, -⟩ := relisted_exactly "blue" sampleGivenUp sampleAnnounced (by decide) hevents
  refine ⟨(h.cached "blue/web").trans (by decide), (h.gone _).mpr ⟨_, rfl, ?_, rfl, ?_⟩⟩
  · decide
  · decide

end WatchCache

end AppWatch
