/-
# The changes of a cache are its log

Watch events reach a cache in any order: listings may be opened twice, given up half way, or closed
without having been opened.  The changes that come of them are nevertheless a log in the strict
sense.  Whoever plays them over the objects of the beginning has the objects of the end
(`replay_applyAll`), and every change fits what the log has said before it (`Follows`): nothing is
added that is there, and an update names as its old version the very object that is there.

Both are shown for one event, from its four effects, and then along a run.  What an outside reader
of the log relies on is then a matter of the log alone: the old version of an update is the latest
that the log has brought (`exists_latest`), and between two additions of a key lies its deletion
(`exists_deletion_between`).
-/
import AppWatch.Proofs.Cache

namespace AppWatch

/-! ## 1. Playing a log -/

namespace ResourceEvent

/-- What a change makes of the objects. -/
def play (m : SortedMap String ClusterObject) (e : ResourceEvent) :
    SortedMap String ClusterObject :=
  match e.change with
  | .added o | .updated _ o => m.insert e.key o
  | .deleted _ => m.erase e.key

/-- What a log makes of the objects. -/
def replay (m : SortedMap String ClusterObject) (log : List ResourceEvent) :
    SortedMap String ClusterObject := log.foldl play m

/-- A change fits the objects: it adds what is not there, or updates what is. -/
def Fits (m : SortedMap String ClusterObject) (e : ResourceEvent) : Prop :=
  match e.change with
  | .added _ => m.get? e.key = none
  | .updated old _ => m.get? e.key = some old
  | .deleted _ => True

/-- Every change of a log fits the objects that the changes before it have made. -/
def Follows (m : SortedMap String ClusterObject) : List ResourceEvent → Prop
  | [] => True
  | e :: log => e.Fits m ∧ Follows (play m e) log

/-- In a log the latest version of the object under a key. -/
def IsLatest (log : List ResourceEvent) (key : String) (o : ClusterObject) : Prop :=
  ∃ before e after, log = before ++ e :: after ∧ e.key = key ∧ e.version? = some o ∧
    ∀ d ∈ after, d.key ≠ key

variable {m : SortedMap String ClusterObject} {e : ResourceEvent} {log : List ResourceEvent}
  {key : String} {o : ClusterObject}

theorem get?_play_self : (play m e).get? e.key = e.version? := by
  unfold play version?
  cases e.change with
  | added o => exact SortedMap.get?_insert_self ..
  | updated old o => exact SortedMap.get?_insert_self ..
  | deleted o => exact SortedMap.get?_erase_self ..

theorem get?_play_of_ne (h : key ≠ e.key) : (play m e).get? key = m.get? key := by
  unfold play
  cases e.change with
  | added o => exact SortedMap.get?_insert_of_ne m h _
  | updated old o => exact SortedMap.get?_insert_of_ne m h _
  | deleted o => exact SortedMap.get?_erase_of_ne m h

theorem replay_append (m : SortedMap String ClusterObject) (log more : List ResourceEvent) :
    replay m (log ++ more) = replay (replay m log) more := List.foldl_append

theorem follows_append (m : SortedMap String ClusterObject) (log more : List ResourceEvent) :
    Follows m (log ++ more) ↔ Follows m log ∧ Follows (replay m log) more := by
  induction log generalizing m with
  | nil => simp [Follows, replay]
  | cons e log ih =>
    have hrest := ih (play m e)
    simp only [List.cons_append, Follows, and_assoc]
    exact and_congr_right fun _ => hrest

/-- What stands under a key in the end stood there before and the log does not speak of the key, or
it is the latest version in the log. -/
theorem exists_latest (h : (replay m log).get? key = some o) :
    (m.get? key = some o ∧ ∀ d ∈ log, d.key ≠ key) ∨ IsLatest log key o := by
  induction log generalizing m with
  | nil => exact .inl ⟨h, by simp⟩
  | cons e log ih =>
    rcases ih h with ⟨hget, hsilent⟩ | ⟨before, d, after, rfl, hd⟩
    · by_cases hkey : e.key = key
      · rw [← hkey, get?_play_self] at hget
        exact .inr ⟨[], e, log, rfl, hkey, hget, hsilent⟩
      · rw [get?_play_of_ne (Ne.symm hkey)] at hget
        exact .inl ⟨hget, List.forall_mem_cons.mpr ⟨hkey, hsilent⟩⟩
    · exact .inr ⟨e :: before, d, after, rfl, hd⟩

/-- What is there stays there as long as the log does not delete it. -/
theorem isSome_get?_replay (hthere : (m.get? key).isSome)
    (hkept : ∀ d ∈ log, d.key = key → d.version?.isSome) :
    ((replay m log).get? key).isSome := by
  induction log generalizing m with
  | nil => exact hthere
  | cons e log ih =>
    obtain ⟨he, hrest⟩ := List.forall_mem_cons.mp hkept
    refine ih ?_ hrest
    by_cases hkey : e.key = key
    · rw [← hkey, get?_play_self]
      exact he hkey
    · rw [get?_play_of_ne (Ne.symm hkey)]
      exact hthere

/-- Between two additions of a key lies its deletion. -/
theorem exists_deletion_between {before mid after : List ResourceEvent} {o' : ClusterObject}
    (h : Follows m (before ++ ⟨key, .added o⟩ :: (mid ++ ⟨key, .added o'⟩ :: after))) :
    ∃ old, (⟨key, .deleted old⟩ : ResourceEvent) ∈ mid := by
  obtain ⟨-, -, hmid⟩ := (follows_append _ _ _).mp h
  obtain ⟨-, habsent, -⟩ := (follows_append _ _ _).mp hmid
  refine Classical.byContradiction fun hnone => ?_
  have hnow : (play (replay m before) ⟨key, .added o⟩).get? key = some o :=
    SortedMap.get?_insert_self ..
  have hkept : ∀ d ∈ mid, d.key = key → d.version?.isSome := by
    rintro ⟨k, change⟩ hd rfl
    cases change with
    | added _ => rfl
    | updated _ _ => rfl
    | deleted old => exact absurd ⟨old, hd⟩ hnone
  have hthere := isSome_get?_replay (Option.isSome_of_eq_some hnow) hkept
  have hgone : (replay (play (replay m before) ⟨key, .added o⟩) mid).get? key = none := habsent
  rw [hgone] at hthere
  exact absurd hthere (by simp)

end ResourceEvent

/-! ## 2. One event -/

namespace WatchCache

open ResourceEvent

variable {c : WatchCache} {scope key : String} {e : WatchEvent} {o : ClusterObject}

/-- Deletions leave what they do not speak of. -/
theorem get?_replay_deletions (l : List (String × ClusterObject))
    (m : SortedMap String ClusterObject) (key : String) :
    (replay m (l.map fun (key, o) => ⟨key, .deleted o⟩)).get? key =
      if key ∈ l.map (·.1) then none else m.get? key := by
  induction l generalizing m with
  | nil => rfl
  | cons entry l ih =>
    have hrest := ih (m.erase entry.1)
    rw [SortedMap.get?_erase] at hrest
    simp only [List.map_cons, List.mem_cons]
    refine hrest.trans ?_
    by_cases hkey : key = entry.1
    · rw [if_pos hkey, ite_self, if_pos (Or.inl hkey)]
    · rw [if_neg hkey]
      simp only [hkey, false_or]

/-- To prune is to play the deletions. -/
theorem replay_pruned (m : SortedMap String ClusterObject)
    (stale : String → ClusterObject → Bool) :
    replay m ((m.filter stale).entries.map fun (key, o) => ⟨key, .deleted o⟩) =
      m.filter fun key o => !stale key o := by
  refine SortedMap.ext_get? fun key => Option.ext fun o => ?_
  have hmem : key ∈ (m.filter stale).entries.map (·.1) ↔
      ∃ o, m.get? key = some o ∧ stale key o = true := by
    rw [← SortedMap.keys, SortedMap.mem_keys_iff]
    simp only [SortedMap.get?_filter_eq_some]
  rw [get?_replay_deletions, SortedMap.get?_filter_eq_some]
  by_cases hstale : key ∈ (m.filter stale).entries.map (·.1)
  · obtain ⟨o', ho', hs⟩ := hmem.mp hstale
    rw [if_pos hstale, ho']
    constructor
    · intro h
      exact absurd h (by simp)
    · rintro ⟨h, hkept⟩
      cases h
      rw [hs] at hkept
      exact absurd hkept (by simp)
  · rw [if_neg hstale]
    constructor
    · intro h
      have hkept : stale key o ≠ true := fun hs => hstale (hmem.mpr ⟨o, h, hs⟩)
      exact ⟨h, by simpa using hkept⟩
    · exact And.left

/-- **The changes of an event make of the objects what the event makes of them.** -/
theorem replay_apply (c : WatchCache) (scope : String) (e : WatchEvent) :
    replay c.objects (c.apply scope e).2 = (c.apply scope e).1.objects := by
  have heff := effect_apply c scope e
  generalize (c.apply scope e).1.objects = objects at heff ⊢
  generalize (c.apply scope e).2 = changes at heff ⊢
  cases heff with
  | @stored _ o key _ _ =>
    unfold changeTo
    cases c.objects.get? key <;> rfl
  | removed _ => rfl
  | pruned _ => exact replay_pruned ..
  | passed _ => rfl

/-- The changes of an event fit the objects before it. -/
theorem follows_apply (c : WatchCache) (scope : String) (e : WatchEvent) :
    Follows c.objects (c.apply scope e).2 := by
  have heff := effect_apply c scope e
  generalize (c.apply scope e).1.objects = objects at heff
  generalize (c.apply scope e).2 = changes at heff ⊢
  cases heff with
  | @stored _ o key _ _ =>
    refine ⟨?_, trivial⟩
    unfold changeTo
    cases hget : c.objects.get? key with
    | none => exact hget
    | some old => exact hget
  | removed _ => exact ⟨trivial, trivial⟩
  | @pruned announced _ =>
    -- only deletions, and a deletion fits everything
    generalize (c.objects.filter (isStale scope announced)).entries = stale
    generalize c.objects = m
    induction stale generalizing m with
    | nil => trivial
    | cons entry stale ih => exact ⟨trivial, ih _⟩
  | passed _ => trivial

/-- An event that carries an object with a key stores it with one change. -/
theorem apply_stores (he : e = .apply o ∨ e = .initApply o) (hkey : o.key? = some key) :
    (c.apply scope e).2 = [⟨key, c.changeTo key o⟩] := by
  rcases he with rfl | rfl
  · simp only [apply, hkey]
    rfl
  · simp only [apply, hkey]
    rfl

/-- An object without a name is passed over. -/
theorem apply_of_isNameless (h : e.isNameless = true) : c.apply scope e = (c, []) := by
  cases e with
  | init => exact absurd h (by simp [WatchEvent.isNameless, WatchEvent.object?])
  | initDone => exact absurd h (by simp [WatchEvent.isNameless, WatchEvent.object?])
  | initApply o | apply o | delete o =>
    have hkey : o.key? = none := Option.isNone_iff_eq_none.mp h
    simp only [apply, hkey]

/-! ## 3. A run of events -/

theorem replay_applyAll (c : WatchCache) (es : List ScopedEvent) :
    replay c.objects (c.applyAll es).2 = (c.applyAll es).1.objects := by
  induction es generalizing c with
  | nil => rfl
  | cons e es ih =>
    have hrest := ih (c.apply e.scope e.event).1
    simp only [applyAll, replay_append, replay_apply]
    exact hrest

theorem follows_applyAll (c : WatchCache) (es : List ScopedEvent) :
    Follows c.objects (c.applyAll es).2 := by
  induction es generalizing c with
  | nil => trivial
  | cons e es ih =>
    have hrest := ih (c.apply e.scope e.event).1
    rw [← replay_apply c e.scope e.event] at hrest
    exact (follows_append _ _ _).mpr ⟨follows_apply c e.scope e.event, hrest⟩

/-- **The changes of a cache are a faithful log of it.**  Let any events come to a cache without
objects, whatever listings are open.  Played over nothing the log gives the cached objects, each
under its own key, and between two additions of one key it has a deletion of that key.  A further
event that stores an object with a key makes exactly one change: an addition if nothing is cached
under the key, and otherwise an update from the latest version in the log.  A further event with a
nameless object changes neither cache nor log. -/
theorem log_faithful (listings : SortedMap String (SortedSet String)) (es : List ScopedEvent) :
    let c := (({ listings := listings } : WatchCache).applyAll es).1
    let log := (({ listings := listings } : WatchCache).applyAll es).2
    replay .empty log = c.objects ∧ c.Keyed ∧
      (∀ before mid after key o o',
        log = before ++ ⟨key, .added o⟩ :: (mid ++ ⟨key, .added o'⟩ :: after) →
          ∃ old, (⟨key, .deleted old⟩ : ResourceEvent) ∈ mid) ∧
      (∀ scope e o key, (e = .apply o ∨ e = .initApply o) → o.key? = some key →
        (c.objects.get? key = none ∧ (c.apply scope e).2 = [⟨key, .added o⟩]) ∨
          ∃ old, c.objects.get? key = some old ∧ (c.apply scope e).2 = [⟨key, .updated old o⟩] ∧
            IsLatest log key old) ∧
      ∀ scope e, e.isNameless = true → c.apply scope e = (c, []) := by
  intro c log
  have hreplay : replay .empty log = c.objects := replay_applyAll { listings := listings } es
  refine ⟨hreplay, ?_, ?_, ?_, fun scope e h => apply_of_isNameless h⟩
  · have hstart : Keyed { listings := listings } := fun _ _ h => absurd h (by simp)
    exact hstart.applyAll es
  · intro before mid after key o o' hlog
    have hfollows : Follows .empty log := follows_applyAll { listings := listings } es
    rw [hlog] at hfollows
    exact exists_deletion_between hfollows
  · intro scope e o key he hkey
    rw [apply_stores he hkey]
    cases hget : c.objects.get? key with
    | none =>
      refine .inl ⟨rfl, ?_⟩
      simp only [changeTo, hget]
    | some old =>
      refine .inr ⟨old, rfl, ?_, ?_⟩
      · simp only [changeTo, hget]
      · rw [← hreplay] at hget
        rcases exists_latest hget with ⟨hnone, -⟩ | hlatest
        · exact absurd hnone (by simp)
        · exact hlatest

/-- A pod of the default namespace that runs on a node. -/
def samplePod (node : String) : ClusterObject where
  metadata := {
    name := some "web"
    «namespace» := some "default"
    labels := some { entries := [("node", node)], ascending := List.pairwise_singleton _ _ } }

/-- The pod is listed, but the listing starts over and closes without it; another listing closes
that was never opened; then the pod comes back. -/
def sampleRelisting : List ScopedEvent :=
  [⟨"default", .init⟩, ⟨"default", .initApply (samplePod "a")⟩, ⟨"default", .init⟩,
    ⟨"default", .initDone⟩, ⟨"", .initDone⟩, ⟨"", .apply (samplePod "b")⟩]

/-- Between its two additions the pod is deleted, and when it moves once more the change is an
update from the version of the second addition. -/
theorem log_faithful_relisted :
    (∃ old, (⟨"default/web", .deleted old⟩ : ResourceEvent) ∈
        ([⟨"default/web", .deleted (samplePod "a")⟩] : List ResourceEvent)) ∧
      ((({} : WatchCache).applyAll sampleRelisting).1.apply "" (.apply (samplePod "c"))).2 =
        [⟨"default/web", .updated (samplePod "b") (samplePod "c")⟩] ∧
      IsLatest (({} : WatchCache).applyAll sampleRelisting).2 "default/web" (samplePod "b") := by
  obtain ⟨-, -, hbetween, hstored, -⟩ := log_faithful .empty sampleRelisting
  refine ⟨hbetween [] _ [] "default/web" (samplePod "a") (samplePod "b") rfl, ?_⟩
  rcases hstored "" (.apply (samplePod "c")) (samplePod "c") "default/web" (.inl rfl) rfl with
    ⟨hnone, -⟩ | ⟨old, hold, hchange, hlatest⟩
  · exact absurd hnone (by decide)
  · cases hold
    exact ⟨hchange, hlatest⟩

end WatchCache

end AppWatch
