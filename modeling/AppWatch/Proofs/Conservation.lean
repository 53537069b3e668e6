/-
# No watch event is lost on its way to the handler

However the parties take their turns, what passes through the watcher of a kind in a step is the
oldest of what is before it (`Step.lossless`), and a run adds up its steps (`lossless_run`).  Only
three kinds of steps let anything pass: what flows at a reader, what a worker takes, and the change
that it begins.  Growth of the registry opens readers that have nothing before them, and the work
of a party sets a worker forward in its changes at most.

From an engine that watches nothing yet, what has passed is everything there was.
-/
import AppWatch.Proofs.Intake

namespace AppWatch

/-! ## 1. Growth -/

namespace Registry

variable {r r' : Registry}

/-- The watcher of a kind; that of a kind that is not watched has nothing before it. -/
def watcherAt (r : Registry) (gvr : GroupVersionResource) : Watcher :=
  (r.watcher? gvr).getD { kind := ⟨gvr, "", false⟩ }

theorem watcherAt_of_watcher? {gvr : GroupVersionResource} {w : Watcher}
    (h : r.watcher? gvr = some w) : r.watcherAt gvr = w := by
  rw [watcherAt, h]
  rfl

theorem watcherAt_insert (r : Registry) (g : GroupVersionResource) (w : Watcher)
    (gvr : GroupVersionResource) : { r with watchers := r.watchers.insert g w }.watcherAt gvr =
      if gvr = g then w else r.watcherAt gvr := by
  rw [watcherAt, watcher?_insert]
  split <;> rfl

theorem sameIntake_openScopes (w : Watcher) (scopes : List String) :
    w.SameIntake (openScopes w scopes).1 := by
  induction scopes generalizing w with
  | nil => exact .refl w
  | cons scope rest ih => exact (w.sameIntake_openScope scope).trans (ih _)

/-- New readers have nothing before them. -/
theorem sameIntake_grow (r : Registry) (g : Growth) (gvr : GroupVersionResource) :
    (r.watcherAt gvr).SameIntake ((r.grow g).1.watcherAt gvr) := by
  cases g with
  | permit kind namespaces => exact .refl _
  | watch kind scopes =>
    simp only [grow, openWatches, watcherAt_insert]
    split
    · next he =>
      rw [he, watcherAt]
      cases r.watcher? kind.gvr with
      | some w => exact sameIntake_openScopes w scopes
      | none =>
        have hempty : Watcher.SameIntake { kind := ⟨kind.gvr, "", false⟩ } { kind := kind } :=
          ⟨fun _ => rfl, fun _ => rfl, rfl⟩
        exact hempty.trans (sameIntake_openScopes _ scopes)
    · exact .refl _

theorem sameIntake_growAll (r : Registry) (gs : List Growth) (gvr : GroupVersionResource) :
    (r.watcherAt gvr).SameIntake ((r.growAll gs).1.watcherAt gvr) := by
  induction gs generalizing r with
  | nil => exact .refl _
  | cons g gs ih => exact (r.sameIntake_grow g gvr).trans (ih _)

/-- What is cached and what the workers do stays as it is. -/
theorem Extends.watcherAt_eq (h : r.Extends r') (gvr : GroupVersionResource) :
    (r'.watcherAt gvr).cache = (r.watcherAt gvr).cache ∧
      (r'.watcherAt gvr).worker = (r.watcherAt gvr).worker := by
  have hcore : ∀ r : Registry,
      (r.watcherAt gvr).core = (r.core? gvr).getD (.fresh ⟨gvr, "", false⟩) := fun r => by
    rw [watcherAt, core?]
    cases r.watcher? gvr <;> rfl
  have hcache : ∀ r : Registry, (r.watcherAt gvr).cache = (r.watcherAt gvr).core.cache :=
    fun _ => rfl
  have hworker : ∀ r : Registry, (r.watcherAt gvr).worker = (r.watcherAt gvr).core.worker :=
    fun _ => rfl
  rw [hcache, hcache r, hworker, hworker r, hcore, hcore r]
  rcases h.core gvr with he | ⟨hnone, kind, -, hnew⟩
  · rw [he]
    exact ⟨rfl, rfl⟩
  · rw [hnone, hnew]
    exact ⟨rfl, rfl⟩

end Registry

/-! ## 2. Steps and runs -/

namespace System

variable {s s' : System} {action : Action} {party : Party} {g : GroupVersionResource}
  {gs : List Growth} {o : Outcome} {notes : List Note} {w : Watcher} {e : ResourceEvent}
  {rest called : List ResourceEvent} {scope : String}

/-- Growth lets nothing pass. -/
theorem passes_growAll (hregistry : s'.registry = (s.registry.growAll gs).1)
    {gvr : GroupVersionResource} (ho : (s.registry.watcherAt gvr).Orderly) :
    (s.registry.watcherAt gvr).Passes {} (s'.registry.watcherAt gvr) := by
  obtain ⟨hcache, hworker⟩ := (s.registry.extends_growAll gs).watcherAt_eq gvr
  rw [hregistry]
  exact .unchanged ho (s.registry.sameIntake_growAll gs gvr) hcache hworker

/-- To set a kind's worker changes nothing else. -/
theorem watcherAt_setWorker {w : Watcher} (hw : s.registry.watcher? g = some w) (worker : Worker)
    (gvr : GroupVersionResource) : (s.setWorker g worker).registry.watcherAt gvr =
      if gvr = g then { s.registry.watcherAt gvr with worker := worker }
      else s.registry.watcherAt gvr := by
  simp only [setWorker, hw, setWatcher, Registry.watcherAt_insert]
  split
  · next he => rw [he, Registry.watcherAt_of_watcher? hw]
  · rfl

/-- A worker has its turn, and the other kinds have none. -/
theorem passes_concludeWorker {kind : KindDescriptor} (hgrows : Outcome.Grows s gs o)
    (hw : s.registry.watcher? g = some w) (hunbegun : w.worker.unbegun = called ++ rest)
    (hhandled : w.worker.handled?.toList ++ called = [e]) {gvr : GroupVersionResource}
    (ho : (s.registry.watcherAt gvr).Orderly) :
    (s.registry.watcherAt gvr).Passes (if g = gvr then { called := called } else {})
      ((concludeWorker g kind e rest o).1.registry.watcherAt gvr) := by
  have hgrown := passes_growAll hgrows.registry ho
  obtain ⟨w', hw', -⟩ := Registry.exists_watcher_of_core?
    (hgrows.extends.core?_eq_some (Registry.core?_of_watcher? hw))
  rw [concludeWorker_system, watcherAt_setWorker hw']
  by_cases hg : g = gvr
  · rw [if_pos hg, if_pos hg.symm]
    obtain rfl := Registry.watcherAt_of_watcher? (hg ▸ hw)
    have hsame := s.registry.sameIntake_growAll gs gvr
    rw [← hgrows.registry] at hsame
    exact Watcher.passes_turn o.progress ho ⟨hsame.unread, hsame.holding, hsame.inbox⟩
      hgrown.cache rfl hunbegun hhandled
  · rw [if_neg hg, if_neg (Ne.symm hg)]
    exact hgrown

/-- The work of a party takes nothing from an inbox and begins no change. -/
theorem Works.passing (h : s.Works action party o) (w : Watcher) (gvr : GroupVersionResource) :
    w.passing gvr action = {} := by
  cases h <;> rfl

theorem passing_of_isElsewhere (h : action.isElsewhere = true) (w : Watcher)
    (gvr : GroupVersionResource) : w.passing gvr action = {} := by
  cases action <;> cases h <;> rfl

theorem Works.lossless (h : s.Works action party o) {gvr : GroupVersionResource}
    (ho : (s.registry.watcherAt gvr).Orderly) :
    (s.registry.watcherAt gvr).Passes {} ((s.conclude party o).1.registry.watcherAt gvr) := by
  have hgrows := h.grows
  cases party with
  | caller id =>
    rw [show s.conclude (.caller id) o = concludeCaller id o from rfl, registry_concludeCaller]
    exact passes_growAll hgrows.registry ho
  | worker g =>
    unfold conclude
    simp only
    split
    · next kind cache readers inbox e rest a hw =>
      have hturn : (s.registry.watcherAt gvr).Passes (if g = gvr then { called := [] } else {})
          ((concludeWorker g kind e rest o).1.registry.watcherAt gvr) :=
        passes_concludeWorker hgrows hw rfl rfl ho
      rwa [ite_self] at hturn
    · exact passes_growAll hgrows.registry ho

theorem watcher?_taken (s : System) (g : GroupVersionResource) (w : Watcher) (e : ScopedEvent)
    (inbox : BoundedQueue String ScopedEvent) : (s.taken g w e inbox).registry.watcher? g =
      some { w with
        inbox := inbox
        cache := (w.cache.apply e.scope e.event).1
        worker := .facing (w.cache.apply e.scope e.event).2 } :=
  SortedMap.get?_insert_self _ _ _

/-- What passes when a worker takes an event. -/
theorem passing_take {e : ScopedEvent} {inbox : BoundedQueue String ScopedEvent}
    (hw : s.registry.watcher? g = some w) (hinbox : w.inbox.take? = some (e, inbox))
    (gvr : GroupVersionResource) : (s.registry.watcherAt gvr).passing gvr (.take g) =
      if g = gvr then { applied := [e], called := (w.cache.apply e.scope e.event).2.take 1 }
      else {} := by
  obtain ⟨hitems, -, -⟩ := BoundedQueue.take?_eq_some hinbox
  have hchanges : (w.cache.applyAll [e]).2 = (w.cache.apply e.scope e.event).2 :=
    List.append_nil _
  rw [Watcher.passing]
  split
  · next hg =>
    rw [Registry.watcherAt_of_watcher? (hg ▸ hw), hitems, List.take_succ_cons, List.take_zero,
      hchanges]
  · rfl

/-- What passes when a worker begins a change. -/
theorem passing_proceed (hw : s.registry.watcher? g = some w) (gvr : GroupVersionResource) :
    (s.registry.watcherAt gvr).passing gvr (.proceed g) =
      if g = gvr then { called := w.worker.unbegun.take 1 } else {} := by
  rw [Watcher.passing]
  split
  · next hg => rw [Registry.watcherAt_of_watcher? (hg ▸ hw)]
  · rfl

/-- A worker takes an event, and the other kinds take none. -/
theorem passes_taken {e : ScopedEvent} {inbox : BoundedQueue String ScopedEvent}
    (hw : s.registry.watcher? g = some w) (hidle : w.worker = .idle)
    (hinbox : w.inbox.take? = some (e, inbox)) {gvr : GroupVersionResource}
    (ho : (s.registry.watcherAt gvr).Orderly) :
    (s.registry.watcherAt gvr).Passes (if g = gvr then { applied := [e] } else {})
      ((s.taken g w e inbox).registry.watcherAt gvr) := by
  rw [taken, setWatcher, Registry.watcherAt_insert]
  by_cases hg : g = gvr
  · obtain rfl := Registry.watcherAt_of_watcher? (hg ▸ hw)
    rw [if_pos hg, if_pos hg.symm]
    exact Watcher.passes_taken hidle hinbox ho
  · rw [if_neg hg, if_neg (Ne.symm hg)]
    exact .unchanged ho (.refl _) rfl rfl

/-- A reader or its stream acts, and those of the other kinds do not. -/
theorem passes_flows {w' : Watcher} (hw : s.registry.watcher? g = some w)
    (h : w.Flows g s.pipeline.now action w' notes) {gvr : GroupVersionResource}
    (ho : (s.registry.watcherAt gvr).Orderly) :
    (s.registry.watcherAt gvr).Passes ((s.registry.watcherAt gvr).passing gvr action)
      ((s.setWatcher g w').registry.watcherAt gvr) := by
  rw [setWatcher, Registry.watcherAt_insert]
  by_cases hg : g = gvr
  · subst hg
    rw [if_pos rfl]
    rw [Registry.watcherAt_of_watcher? hw] at ho ⊢
    exact h.passes ho
  · rw [if_neg (Ne.symm hg), h.passing_eq_empty hg]
    exact .unchanged ho (.refl _) rfl rfl

/-- What a stream yields that nobody reads is not given to a reader. -/
theorem passing_unread (hw : s.registry.watcher? g = none)
    (h : action = .endStream g scope ∨ ∃ items, action = .feed g scope items)
    (gvr : GroupVersionResource) : (s.registry.watcherAt gvr).passing gvr action = {} := by
  rcases h with rfl | ⟨items, rfl⟩
  · rfl
  · by_cases hg : g = gvr
    · subst hg
      simp [Watcher.passing, Watcher.isListening, Registry.watcherAt, hw]
    · simp [Watcher.passing, hg]

/-- **Nothing is lost in a step.** -/
theorem Step.lossless (h : Step s action s' notes) (gvr : GroupVersionResource)
    (ho : (s.registry.watcherAt gvr).Orderly) :
    (s.registry.watcherAt gvr).Passes ((s.registry.watcherAt gvr).passing gvr action)
      (s'.registry.watcherAt gvr) := by
  induction h with
  | works h =>
    rw [h.passing]
    exact h.lossless ho
  | @begins s g w e rest hw hready =>
    rw [passing_proceed hw, hready]
    exact passes_concludeWorker (s.handle_grows (.worker g) w e) hw (by rw [hready]; rfl)
      (by rw [hready]; rfl) ho
  | passes hw hidle hinbox hchanges =>
    rw [passing_take hw hinbox, hchanges]
    exact passes_taken hw hidle hinbox ho
  | @takes s s' g w e inbox notes hw hidle hinbox _ ih =>
    have htaken := passes_taken hw hidle hinbox ho
    have hboth := htaken.trans (ih htaken.orderly)
    rw [passing_proceed (watcher?_taken s g w e inbox), Worker.unbegun_facing] at hboth
    rw [passing_take hw hinbox]
    by_cases hg : g = gvr
    · rw [if_pos hg, if_pos hg] at hboth
      rw [if_pos hg]
      exact hboth
    · rw [if_neg hg, if_neg hg] at hboth
      rw [if_neg hg]
      exact hboth
  | flows hw h => exact passes_flows hw h ho
  | unread hw h =>
    rw [passing_unread hw h]
    exact .unchanged ho (.refl _) rfl rfl
  | elsewhere h =>
    rw [passing_of_isElsewhere h.isElsewhere]
    exact passes_growAll rfl ho

/-- What passes through the watcher of a kind in a run by the given actions. -/
def passage (s : System) (gvr : GroupVersionResource) : List Action → Passage
  | [] => {}
  | action :: actions =>
    match s.step action with
    | none => {}
    | some (s', _) =>
      (s.registry.watcherAt gvr).passing gvr action ++ s'.passage gvr actions

/-- **Nothing is lost along a run without stop.** -/
theorem lossless_run {actions : List Action} (hrun : s.run actions = some (s', notes))
    (hstop : ∀ a ∈ actions, a.stops = false) (gvr : GroupVersionResource)
    (ho : (s.registry.watcherAt gvr).Orderly) :
    (s.registry.watcherAt gvr).Passes (s.passage gvr actions) (s'.registry.watcherAt gvr) := by
  induction actions generalizing s notes with
  | nil =>
    cases hrun
    exact .unchanged ho (.refl _) rfl rfl
  | cons action actions ih =>
    obtain ⟨s₁, notes₁, notes₂, hstep, hrest, rfl⟩ := run_cons hrun
    have hfirst := (step_cases hstep (hstop _ List.mem_cons_self)).lossless gvr ho
    have hothers := ih hrest (fun a ha => hstop a (List.mem_cons_of_mem _ ha)) hfirst.orderly
    rw [passage, hstep]
    exact hfirst.trans hothers

/-! ## 3. Calls of the handler -/

/-- In a step from one state to another the worker of a kind calls the handler for a change. -/
inductive Begins (gvr : GroupVersionResource) : System → ResourceEvent → System → Prop where
  /-- The change was the first before the worker. -/
  | first {s : System} {w : Watcher} {e : ResourceEvent} {rest : List ResourceEvent}
      (hw : s.registry.watcher? gvr = some w) (hready : w.worker = .ready e rest) :
      Begins gvr s e (concludeWorker gvr w.kind e rest (s.handle (.worker gvr) w e)).1
  /-- The change is the first that an event makes. -/
  | fresh {s s' : System} {w : Watcher} {event : ScopedEvent} {e : ResourceEvent}
      {inbox : BoundedQueue String ScopedEvent} (hw : s.registry.watcher? gvr = some w)
      (hidle : w.worker = .idle) (hinbox : w.inbox.take? = some (event, inbox))
      (after : Begins gvr (s.taken gvr w event inbox) e s') : Begins gvr s e s'

/-- **The handler is called for one change at a time.**  A step calls it for none, or for one while
no call is under way. -/
theorem Step.called_cases (h : Step s action s' notes) (gvr : GroupVersionResource) :
    ((s.registry.watcherAt gvr).passing gvr action).called = [] ∨
      (s.registry.watcherAt gvr).worker.handled? = none ∧
        ∃ e, ((s.registry.watcherAt gvr).passing gvr action).called = [e] ∧ Begins gvr s e s' := by
  induction h with
  | works h =>
    rw [h.passing]
    exact .inl rfl
  | @begins s g w e rest hw hready =>
    rw [passing_proceed hw, hready]
    by_cases hg : g = gvr
    · subst hg
      rw [if_pos rfl, Registry.watcherAt_of_watcher? hw, hready]
      exact .inr ⟨rfl, e, rfl, .first hw hready⟩
    · rw [if_neg hg]
      exact .inl rfl
  | passes hw hidle hinbox hchanges =>
    rw [passing_take hw hinbox, hchanges]
    split <;> exact .inl rfl
  | @takes s s' g w e inbox notes hw hidle hinbox _ ih =>
    rw [passing_take hw hinbox]
    rw [passing_proceed (watcher?_taken s g w e inbox), Worker.unbegun_facing] at ih
    by_cases hg : g = gvr
    · subst hg
      rw [if_pos rfl] at ih ⊢
      refine ih.imp_right ?_
      rintro ⟨-, change, hcalled, hbegins⟩
      rw [Registry.watcherAt_of_watcher? hw, hidle]
      exact ⟨rfl, change, hcalled, .fresh hw hidle hinbox hbegins⟩
    · rw [if_neg hg]
      exact .inl rfl
  | flows _ h =>
    left
    cases h <;> rfl
  | unread hw h =>
    rw [passing_unread hw h]
    exact .inl rfl
  | elsewhere h =>
    rw [passing_of_isElsewhere h.isElsewhere]
    exact .inl rfl

/-- To stop a watcher calls no handler. -/
theorem called_cases_of_step (h : s.step action = some (s', notes)) (gvr : GroupVersionResource) :
    ((s.registry.watcherAt gvr).passing gvr action).called = [] ∨
      (s.registry.watcherAt gvr).worker.handled? = none ∧
        ∃ e, ((s.registry.watcherAt gvr).passing gvr action).called = [e] ∧ Begins gvr s e s' := by
  cases hrun : action.stops with
  | false => exact (step_cases h hrun).called_cases gvr
  | true =>
    left
    cases action <;> first | rfl | cases hrun

/-- **Watch events are conserved.**  Take any state that a run without stop has led to, whatever the
streams have yielded and failed with, in whatever order the parties acted and however the calls of
the handler ended, and the watcher of any kind in it.

* For each scope, the events that its stream has yielded are those that the worker has applied,
  those in the inbox and the one that the reader holds, if it holds one; and what the stream was
  given beyond them it has still to yield.
* The inbox has no more than 128 events in it.
* The cache is what the applied events have made of an empty one.  The handler was called for the
  changes that they made, each once and in order, up to those that the worker has not begun.
* The call that is under way is the latest; while it is, no step calls the handler again. -/
theorem events_conserved (applicationKind : KindDescriptor) (namespacesKey : String)
    (namespaces : List String) (capacity window now : Nat) {actions : List Action} {s : System}
    {notes : List Note}
    (hrun : (fresh applicationKind namespacesKey namespaces capacity window now).run actions =
      some (s, notes))
    (hstop : ∀ a ∈ actions, a.stops = false) {gvr : GroupVersionResource} {w : Watcher}
    (hw : s.registry.watcher? gvr = some w) :
    let p := (fresh applicationKind namespacesKey namespaces capacity window now).passage gvr
      actions
    (∀ scope, (p.yielded scope).filterMap StreamItem.event? =
        ScopedEvent.within scope p.applied ++ ScopedEvent.within scope w.inbox.items ++
          w.held scope ∧
      (w.held scope).length = (w.isHolding scope).toNat ∧
      p.given scope = p.yielded scope ++ w.unread scope) ∧
    w.inbox.items.length ≤ 128 ∧
    w.cache = (WatchCache.applyAll {} p.applied).1 ∧
    p.called ++ w.worker.unbegun = (WatchCache.applyAll {} p.applied).2 ∧
    (∃ returned, p.called = returned ++ w.worker.handled?.toList) ∧
    ∀ action s' notes', s.step action = some (s', notes') →
      (w.passing gvr action).called = [] ∨ w.worker.handled? = none ∧
        ∃ e, (w.passing gvr action).called = [e] ∧ Begins gvr s e s' := by
  intro p
  have hpasses := lossless_run hrun hstop gvr (Watcher.orderly_empty _)
  rw [Registry.watcherAt_of_watcher? hw] at hpasses
  have horderly := hpasses.orderly
  refine ⟨fun scope => ⟨?_, horderly.held scope, hpasses.unread scope⟩, ?_, hpasses.cache,
    hpasses.unbegun.symm, hpasses.handled, fun action s' notes' hstep => ?_⟩
  · rw [List.append_assoc]
    exact hpasses.ahead scope
  · have hfits : w.inbox.items.length + w.inbox.granted.length ≤ 128 :=
      Nat.le_trans horderly.fits (Nat.le_of_eq horderly.capacity)
    omega
  · have hcalled := called_cases_of_step hstep gvr
    rw [Registry.watcherAt_of_watcher? hw] at hcalled
    exact hcalled

/-- A stream of applications brings one that cannot be parsed, fails, and brings one that can.  The
first call of the handler fails, and the second waits for an answer. -/
def sampleStream : List Action :=
  let applications := sampleApplications.gvr
  [.call 0 (.addToWatch sampleApplications), .checked (.caller 0) (.ok ()),
    .feed applications "" [.event (.apply sampleWeb), .failure .queueClosed,
      .event (.apply sampleShop), .event (.delete sampleWeb)],
    .read applications "", .take applications, .read applications "", .tick 1000,
    .wake applications "", .read applications "", .read applications "", .take applications]

/-- After the sample run a call has failed, the next one is under way, and an event waits. -/
def isSampleIntake (s : System) (notes : List Note) : Bool :=
  notes.any Note.isFailure &&
    (s.registry.watcher? sampleApplications.gvr).any fun w =>
      w.worker.handled?.isSome && w.inbox.items.length = 1 && w.worker.unbegun.isEmpty

/-- In the sample run nothing is lost by the call that failed. -/
theorem events_conserved_after_failure :
    ∃ s notes w, sampleStart.run sampleStream = some (s, notes) ∧
      s.registry.watcher? sampleApplications.gvr = some w ∧ (∃ n ∈ notes, n.isFailure = true) ∧
      w.worker.handled?.isSome = true ∧ w.inbox.items.length = 1 ∧
      let p := sampleStart.passage sampleApplications.gvr sampleStream
      (p.yielded "").filterMap StreamItem.event? =
        ScopedEvent.within "" p.applied ++ ScopedEvent.within "" w.inbox.items ++ w.held "" ∧
      p.called = (WatchCache.applyAll {} p.applied).2 := by
  have hend : (sampleStart.run sampleStream).any (fun r => isSampleIntake r.1 r.2) = true := by
    decide
  obtain ⟨⟨s, notes⟩, hrun, hend⟩ := (Option.any_eq_true _ _).mp hend
  simp only [isSampleIntake, Bool.and_eq_true, List.any_eq_true, Option.any_eq_true,
    decide_eq_true_eq, List.isEmpty_iff] at hend
  obtain ⟨hfailure, w, hw, ⟨hhandled, hwaiting⟩, hbegun⟩ := hend
  obtain ⟨hscopes, -, -, hcalled, -⟩ :=
    events_conserved sampleApplications "namespaces" [] 64 0 0 hrun (by decide) hw
  rw [hbegun, List.append_nil] at hcalled
  exact ⟨s, notes, w, hrun, hw, hfailure, hhandled, hwaiting, (hscopes "").1, hcalled⟩

end System

end AppWatch
