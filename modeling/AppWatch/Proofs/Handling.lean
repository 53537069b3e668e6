/-
# Changes are handled as they were logged

Between the event that makes a change and the handler call for it the other parties act, and the
streams of the kind go on.  The cache does not notice: only the kind's own worker applies events,
and it takes the next one when the changes of the last are handled.  So whatever a worker has before
it stands in its cache (`Registry.Faithful`), and a handler that asks for the newest version of what
has changed is given the version of the change.

One event may make many changes.  They speak of different keys or take nothing back, hence they all
stand at once when they are made (`WatchCache.stands_apply`), and the worker's turns only make them
fewer.

Nor does it matter that `System.handle` asks anew for each change which handler its kind has: a
watcher keeps its kind, and the engine its application kind (`isApplicationKind_run`).
-/
import AppWatch.Proofs.ChangeLog
import AppWatch.Proofs.Conservation
import AppWatch.Proofs.Conveyance

namespace AppWatch

/-! ## 1. What workers have before them -/

namespace Registry

variable {r r' : Registry}

/-- Whatever a worker has before it stands in the cache of its kind. -/
def Faithful (r : Registry) : Prop :=
  ∀ g c, r.core? g = some c → ∀ e ∈ c.worker.unbegun, c.cache.Stands e

/-- New watchers have nothing before them. -/
theorem Faithful.of_extends (h : r.Faithful) (hext : r.Extends r') : r'.Faithful := by
  intro g c hc e he
  rcases hext.core g with heq | ⟨-, kind, -, hnew⟩
  · exact h g c (heq.symm.trans hc) e he
  · cases hnew.symm.trans hc
    exact absurd he (List.not_mem_nil)

end Registry

namespace System

variable {s s' : System} {gvr : GroupVersionResource} {notes : List Note} {action : Action}
  {e : ResourceEvent}

/-- A worker that has its turn is left with fewer changes before it. -/
theorem Turn.faithful {c : Core} {rest : List ResourceEvent} {o : Outcome}
    (h : s.Turn gvr c e rest o) (hf : s.registry.Faithful) :
    (concludeWorker gvr c.kind e rest o).1.registry.Faithful := by
  have hrest : ∀ d ∈ rest, d ∈ c.worker.unbegun := by
    intro d hd
    rcases h.owed with ⟨hready, -⟩ | ⟨a, hhandling, -⟩
    · rw [hready]
      exact List.mem_cons_of_mem _ hd
    · rw [hhandling]
      exact hd
  intro g d hd change hmem
  rw [h.core?_concludeWorker] at hd
  split at hd
  · cases hd
    rw [Progress.unbegun_next] at hmem
    exact hf gvr c h.core change (hrest change hmem)
  · exact hf.of_extends h.registry g d hd change hmem

/-- A worker that takes an event has only the changes of this event before it. -/
theorem faithful_taken (hf : s.registry.Faithful) (gvr : GroupVersionResource) (w : Watcher)
    (event : ScopedEvent) (inbox : BoundedQueue String ScopedEvent) :
    (s.taken gvr w event inbox).registry.Faithful := by
  intro g c hc change hmem
  rw [core?_taken] at hc
  split at hc
  · cases hc
    rw [Worker.unbegun_facing] at hmem
    exact WatchCache.stands_apply hmem
  · exact hf g c hc change hmem

theorem Move.faithful (h : Move s s' notes) (hf : s.registry.Faithful) :
    s'.registry.Faithful := by
  induction h with
  | quiet hext => exact hf.of_extends hext
  | turn h => exact h.faithful hf
  | took hw hidle _ ih => exact ih (faithful_taken hf _ _ _ _)

/-- Stopped workers have nothing before them. -/
theorem faithful_of_stops (hf : s.registry.Faithful) (hs : s.step action = some (s', notes))
    (hstop : action.stops = true) : s'.registry.Faithful := by
  intro g c hc change hmem
  obtain ⟨c', hc', hcache, -, hworker⟩ := core?_of_stops hs hstop hc
  rw [hcache]
  rcases hworker with hsame | hdead
  · exact hf g c' hc' change (hsame ▸ hmem)
  · rw [hdead] at hmem
    exact absurd hmem (List.not_mem_nil)

/-- **No step takes back what a worker has before it.** -/
theorem faithful_step (hroomed : s.Roomed) (hf : s.registry.Faithful)
    (hs : s.step action = some (s', notes)) : s'.Roomed ∧ s'.registry.Faithful := by
  cases hstop : action.stops with
  | true => exact ⟨roomed_of_stops hroomed hs hstop, faithful_of_stops hf hs hstop⟩
  | false =>
    obtain ⟨hmove, hroomed'⟩ := step_move hroomed hstop hs
    exact ⟨hroomed', hmove.faithful hf⟩

theorem faithful_run {actions : List Action} (hroomed : s.Roomed) (hf : s.registry.Faithful)
    (hrun : s.run actions = some (s', notes)) : s'.Roomed ∧ s'.registry.Faithful := by
  induction actions generalizing s notes with
  | nil =>
    cases hrun
    exact ⟨hroomed, hf⟩
  | cons action actions ih =>
    obtain ⟨s₁, notes₁, notes₂, hstep, hrest, -⟩ := run_cons hrun
    obtain ⟨hroomed₁, hf₁⟩ := faithful_step hroomed hf hstep
    exact ih hroomed₁ hf₁ hrest

theorem faithful_fresh (applicationKind : KindDescriptor) (namespacesKey : String)
    (namespaces : List String) (capacity window now : Nat) :
    (fresh applicationKind namespacesKey namespaces capacity window now).registry.Faithful :=
  fun _ _ hc => absurd hc (by simp [fresh, Registry.core?, Registry.watcher?])

/-! ## 2. Which handler is called -/

/-- A kind that is watched stays watched as that kind, and the application kind stays the same. -/
theorem core?_kind_step {c : Core} (hs : s.step action = some (s', notes))
    (hstop : action ≠ .stop) (hc : s.registry.core? gvr = some c) :
    s'.registry.applicationKind = s.registry.applicationKind ∧
      ∃ c', s'.registry.core? gvr = some c' ∧ c'.kind = c.kind := by
  cases hstops : action.stops with
  | true =>
    cases action with
    | stop => exact absurd rfl hstop
    | stopWatcher g =>
      cases hs
      refine ⟨rfl, ?_⟩
      change ∃ c', (s.registry.stopWatcher g).core? gvr = some c' ∧ _
      rw [Registry.core?_stopWatcher]
      split
      · next hg =>
        rw [← hg, hc]
        exact ⟨_, rfl, rfl⟩
      · exact ⟨c, hc, rfl⟩
    | _ => cases hstops
  | false =>
    have hext := s.registry.extends_growAll (s.growth action)
    obtain ⟨hsame, -⟩ := (step_cases hs hstops).grown
    refine ⟨hsame.applicationKind.trans hext.applicationKind, ?_⟩
    obtain ⟨w, hw, rfl⟩ := Option.map_eq_some_iff.mp (hext.core?_eq_some hc)
    have hwatching := hsame.watching gvr
    rw [hw] at hwatching
    obtain ⟨w', hw', hkind⟩ := Option.map_eq_some_iff.mp hwatching
    exact ⟨w'.core, Registry.core?_of_watcher? hw', congrArg Prod.fst hkind⟩

/-- **Which handler a kind has is settled when it is registered.**  The watcher and the engine keep
their kinds, so `handle` takes the same handler for every change until everything is stopped. -/
theorem isApplicationKind_run {actions : List Action} {w : Watcher}
    (hrun : s.run actions = some (s', notes)) (hstop : ∀ a ∈ actions, a ≠ .stop)
    (hw : s.registry.watcher? gvr = some w) :
    ∃ w', s'.registry.watcher? gvr = some w' ∧ w'.kind = w.kind ∧
      s'.registry.isApplicationKind w'.kind = s.registry.isApplicationKind w.kind := by
  induction actions generalizing s notes w with
  | nil =>
    cases hrun
    exact ⟨w, hw, rfl, rfl⟩
  | cons action actions ih =>
    obtain ⟨hnow, hlater⟩ := List.forall_mem_cons.mp hstop
    obtain ⟨s₁, notes₁, notes₂, hstep, hrest, -⟩ := run_cons hrun
    obtain ⟨happ, c, hc, hkind⟩ := core?_kind_step hstep hnow (Registry.core?_of_watcher? hw)
    obtain ⟨w₁, hw₁, rfl⟩ := Option.map_eq_some_iff.mp hc
    obtain ⟨w', hw', hkind', hsame⟩ := ih hrest hlater hw₁
    have hkind : w₁.kind = w.kind := hkind
    refine ⟨w', hw', hkind'.trans hkind, hsame.trans ?_⟩
    rw [Registry.isApplicationKind, Registry.isApplicationKind, happ, hkind]

/-! ## 3. Calls of the handler -/

/-- The state in which the worker of a kind begins a change in an action: it goes on to its next
change, or it has just taken an event. -/
inductive Facing (gvr : GroupVersionResource) (s : System) : Action → System → Prop where
  | next : Facing gvr s (.proceed gvr) s
  | taken {w : Watcher} {event : ScopedEvent} {inbox : BoundedQueue String ScopedEvent}
      (hw : s.registry.watcher? gvr = some w) (hidle : w.worker = .idle)
      (hinbox : w.inbox.take? = some (event, inbox)) :
      Facing gvr s (.take gvr) (s.taken gvr w event inbox)

/-- A step in which the handler is called for a change is the worker's turn with it. -/
theorem Step.exists_facing (h : Step s action s' notes)
    (he : e ∈ ((s.registry.watcherAt gvr).passing gvr action).called) :
    ∃ s₁ w rest, Facing gvr s action s₁ ∧ s₁.registry.watcher? gvr = some w ∧
      w.worker = .ready e rest ∧
      s' = (concludeWorker gvr w.kind e rest (s₁.handle (.worker gvr) w e)).1 := by
  induction h with
  | works h =>
    rw [h.passing] at he
    exact absurd he (List.not_mem_nil)
  | @begins s g w d rest hw hready =>
    rw [passing_proceed hw, hready] at he
    split at he
    · next hg =>
      subst hg
      cases List.mem_singleton.mp he
      exact ⟨s, w, rest, .next, hw, hready, rfl⟩
    · exact absurd he (List.not_mem_nil)
  | passes hw _ hinbox hchanges =>
    rw [passing_take hw hinbox, hchanges] at he
    split at he <;> exact absurd he (List.not_mem_nil)
  | @takes s s' g w event inbox notes hw hidle hinbox _ ih =>
    rw [passing_take hw hinbox] at he
    split at he
    · next hg =>
      subst hg
      have hcalled := passing_proceed (watcher?_taken s g w event inbox) g
      rw [if_pos rfl, Worker.unbegun_facing] at hcalled
      rw [hcalled] at ih
      obtain ⟨s₁, w₁, rest, hfacing, hw₁, hready, hs'⟩ := ih he
      cases hfacing
      exact ⟨_, w₁, rest, .taken hw hidle hinbox, hw₁, hready, hs'⟩
    · exact absurd he (List.not_mem_nil)
  | flows _ h =>
    cases h <;> exact absurd he (List.not_mem_nil)
  | unread hw h =>
    rw [passing_unread hw h] at he
    exact absurd he (List.not_mem_nil)
  | elsewhere h =>
    rw [passing_of_isElsewhere h.isElsewhere] at he
    exact absurd he (List.not_mem_nil)

/-- To stop a watcher calls no handler. -/
theorem called_of_stops (hstop : action.stops = true) (w : Watcher)
    (gvr : GroupVersionResource) : (w.passing gvr action).called = [] := by
  cases action with
  | stop | stopWatcher => rfl
  | _ => cases hstop

theorem Facing.faithful {s₁ : System} (h : Facing gvr s action s₁) (hf : s.registry.Faithful) :
    s₁.registry.Faithful := by
  cases h with
  | next => exact hf
  | taken _ _ _ => exact faithful_taken hf _ _ _ _

/-- **A handler sees the change that was logged.**  Take any run, with whatever scopes, listings,
answers, outside calls and stops, and any further step in which the worker of a kind calls the
handler for a change.  In the state in which it calls, the change is the first before the worker,
and what the worker does is what `handle` makes of it and of the watcher with its cache.  The object
that an addition or an update has brought is then cached under the key of the change.  So the change
is handled as the very change it is, with the same snapshots, and an addition or an update is never
taken for a deletion. -/
theorem handled_as_logged (applicationKind : KindDescriptor) (namespacesKey : String)
    (namespaces : List String) (capacity window now : Nat) {actions : List Action} {s s' : System}
    {notes notes' : List Note} {action : Action} {gvr : GroupVersionResource} {e : ResourceEvent}
    (hrun : (fresh applicationKind namespacesKey namespaces capacity window now).run actions =
      some (s, notes))
    (hstep : s.step action = some (s', notes'))
    (hcalled : e ∈ ((s.registry.watcherAt gvr).passing gvr action).called) :
    ∃ s₁ w rest, Facing gvr s action s₁ ∧ s₁.registry.watcher? gvr = some w ∧
      w.worker = .ready e rest ∧
      s' = (concludeWorker gvr w.kind e rest (s₁.handle (.worker gvr) w e)).1 ∧
      (∀ o, e.version? = some o → w.cache.objects.get? e.key = some o) ∧
      w.cache.latestChange e = e.change := by
  obtain ⟨-, hfaithful⟩ := faithful_run (roomed_fresh ..) (faithful_fresh _ _ _ _ _ _) hrun
  have hstop : action.stops = false := by
    cases hstop : action.stops with
    | false => rfl
    | true =>
      rw [called_of_stops hstop] at hcalled
      exact absurd hcalled (List.not_mem_nil)
  obtain ⟨s₁, w, rest, hfacing, hw, hready, hs'⟩ := (step_cases hstep hstop).exists_facing hcalled
  have hstands : w.cache.Stands e := by
    refine hfacing.faithful hfaithful gvr w.core (Registry.core?_of_watcher? hw) e ?_
    rw [show w.core.worker = .ready e rest from hready]
    exact List.mem_cons_self
  exact ⟨s₁, w, rest, hfacing, hw, hready, hs', hstands, hstands.latestChange_eq⟩

open WatchCache (samplePod)

/-- A pod is cached and moves, and its deletion follows. -/
def sampleMoving : List Action :=
  let deployments := sampleDeployments.gvr
  [.permit deployments "default", .call 0 (.addToWatch sampleDeployments),
    .checked (.caller 0) (.ok ()),
    .feed deployments "default" [.event (.apply (samplePod "a")), .event (.apply (samplePod "b")),
      .event (.delete (samplePod "b"))],
    .read deployments "default", .read deployments "default", .read deployments "default",
    .take deployments]

/-- The worker of the pod's kind is to begin the update while a further event waits in its inbox. -/
def isSampleMoving (s : System) : Bool :=
  (s.step (.take sampleDeployments.gvr)).isSome &&
    (s.registry.watcherAt sampleDeployments.gvr).inbox.items.length = 2 &&
    ((s.registry.watcherAt sampleDeployments.gvr).passing sampleDeployments.gvr
      (.take sampleDeployments.gvr)).called =
        [⟨"default/web", .updated (samplePod "a") (samplePod "b")⟩]

/-- In the sample run the update is handled as an update, although the deletion is on its way. -/
theorem handled_as_logged_moving :
    ∃ s notes s₁ w, sampleStart.run sampleMoving = some (s, notes) ∧
      (s.registry.watcherAt sampleDeployments.gvr).inbox.items.length = 2 ∧
      Facing sampleDeployments.gvr s (.take sampleDeployments.gvr) s₁ ∧
      s₁.registry.watcher? sampleDeployments.gvr = some w ∧
      w.cache.objects.get? "default/web" = some (samplePod "b") ∧
      w.cache.latestChange ⟨"default/web", .updated (samplePod "a") (samplePod "b")⟩ =
        .updated (samplePod "a") (samplePod "b") := by
  have hend : (sampleStart.run sampleMoving).any (fun r => isSampleMoving r.1) = true := by decide
  obtain ⟨⟨s, notes⟩, hrun, hend⟩ := (Option.any_eq_true _ _).mp hend
  simp only [isSampleMoving, Bool.and_eq_true, Option.isSome_iff_exists, decide_eq_true_eq] at hend
  obtain ⟨⟨⟨⟨s', notes'⟩, hstep⟩, hwaiting⟩, hcalled⟩ := hend
  obtain ⟨s₁, w, rest, hfacing, hw, -, -, hcached, hsame⟩ :=
    handled_as_logged sampleApplications "namespaces" [] 64 0 0 hrun hstep
      (hcalled ▸ List.mem_singleton_self _)
  exact ⟨s, notes, s₁, w, hrun, hwaiting, hfacing, hw, hcached _ rfl, hsame⟩

end System

end AppWatch
