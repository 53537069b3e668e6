/-
# What a step conveys

Seen from the line of an application on its way to the callbacks, a step of a running engine is one
of three things (`System.Conveys`): the line moves on and nobody adds to it; a worker has its turn
with a change and adds what it makes of it at the end; or a worker takes an event, which changes
what is cached, and has its turn at once if that makes changes.  A stop only takes waiting batches
out of the line.

Two assumptions are about who shares the queue with the workers.  No batch is sent on behalf of a
caller, and none is taken away from the processor (`Action.isForeign`).  And the queue lets batches
in in the order in which their sending has begun (`System.admitsInOrder`): whoever uses the room it
was given is the one that has waited longest, and nobody is let in at once while others wait.
-/
import AppWatch.Proofs.Provenance
import AppWatch.Proofs.Shipments

namespace AppWatch

/-! ## 1. What is reported and what is handed out -/

/-- The snapshot of an application that a callback is given. -/
def Note.handed? (k : ResourceKey) : Note → Option ResourceInfo
  | .callback c => c.call.handed? k
  | _ => none

/-- The snapshots of an application that `calculateStatus` is given, in order. -/
def Note.handed (k : ResourceKey) (notes : List Note) : List ResourceInfo :=
  notes.filterMap (Note.handed? k)

theorem Note.handed_append (k : ResourceKey) (notes more : List Note) :
    handed k (notes ++ more) = handed k notes ++ handed k more := List.filterMap_append

theorem Note.handed_of_quiet {notes : List Note} (h : ∀ n ∈ notes, n.isCallback = false)
    (k : ResourceKey) : handed k notes = [] := by
  refine List.filterMap_eq_nil_iff.mpr fun n hn => ?_
  have hquiet := h n hn
  cases n <;> first | rfl | cases hquiet

/-- What a worker has to send in its turn with a change, if it has to send anything. -/
inductive Core.Due (c : Core) (e : ResourceEvent) (rest : List ResourceEvent) :
    Option (KindDescriptor × Change ClusterObject) → Prop where
  /-- It begins the change. -/
  | begins (hready : c.worker = .ready e rest) :
    Due c e rest (some (c.kind, c.cache.latestChange e))
  /-- It goes on after a wait. -/
  | goesOn {a : Awaiting} (hhandling : c.worker = .handling e rest a) : Due c e rest a.final?

namespace System

/-- The changes of a kind that a worker reports in an action. -/
def changes (s : System) (gvr : GroupVersionResource) (action : Action) : List ResourceEvent :=
  let w := s.registry.watcherAt gvr
  (w.cache.applyAll (w.passing gvr action).applied).2

/-- The changes of a kind that are reported in a run by the given actions. -/
def changeLog (s : System) (gvr : GroupVersionResource) : List Action → List ResourceEvent
  | [] => []
  | action :: actions =>
    match s.step action with
    | none => []
    | some (s', _) => s.changes gvr action ++ s'.changeLog gvr actions

/-- Whether an action sends a batch on behalf of no worker, or takes batches away from the
processor. -/
def Action.isForeign : Action → Bool
  | .call _ (.handleApplication _ _) | .call _ (.handleResource _ _) | .call _ (.send _)
  | .receive | .closeQueue => true
  | _ => false

/-- Whether a batch that goes into the queue in a step overtakes none that waits: it is that of the
party which has waited longest, or nobody waits. -/
def inTurn (s : System) (action : Action) (s' : System) : Bool :=
  match action with
  | .enterQueue party => s.queue.pending.head? = some party
  | _ => s.queue.pending.isEmpty || s'.queue.items.length ≤ s.queue.items.length

/-- Whether in a run by the given actions the queue lets batches in in the order in which their
sending has begun. -/
def admitsInOrder (s : System) : List Action → Bool
  | [] => true
  | action :: actions =>
    match s.step action with
    | none => true
    | some (s', _) => s.inTurn action s' && s'.admitsInOrder actions

/-! ## 2. Steps as the line sees them -/

/-- What a step does to the line of an application and to those who send.  The changes are those
that are reported for the application kind. -/
inductive Conveys (app : GroupVersionResource) :
    System → List ResourceEvent → System → List Note → Prop where
  /-- No worker acts, and the line moves on at most. -/
  | idle {s s' : System} {notes : List Note} (registry : s.registry.Extends s'.registry)
      (waits : ∀ p a, s'.awaiting? p = some a → a.final? = none ∨ s.awaiting? p = some a)
      (senders : s'.queue.pending ⊆ s.queue.pending)
      (ahead : ∀ k,
        KeepsLast (s.pipeline.ahead k) (Note.handed k notes ++ s'.pipeline.ahead k)) :
      Conveys app s [] s' notes
  /-- A worker has its turn with a change, and what it makes of it goes to the end. -/
  | turn {s : System} {gvr : GroupVersionResource} {c : Core} {e : ResourceEvent}
      {rest : List ResourceEvent} {gs : List Growth} {o : Outcome} {b : Batch}
      {final? : Option (KindDescriptor × Change ClusterObject)}
      (core : s.registry.core? gvr = some c) (grows : Outcome.Grows s gs o)
      (due : c.Due e rest final?) (makes : o.Makes final? b)
      (quiet : ∀ n ∈ o.notes, n.isCallback = false)
      (senders : o.system.queue.pending ⊆ .worker gvr :: s.queue.pending)
      (ahead : ∀ k, o.system.pipeline.ahead k = s.pipeline.ahead k ++ b.mentions k) :
      Conveys app s [] (concludeWorker gvr c.kind e rest o).1
        (concludeWorker gvr c.kind e rest o).2
  /-- An idle worker takes an event. -/
  | took {s s' : System} {notes first : List Note} {gvr : GroupVersionResource} {w : Watcher}
      {e : ScopedEvent} {inbox : BoundedQueue String ScopedEvent}
      (hw : s.registry.watcher? gvr = some w) (hidle : w.worker = .idle)
      (quiet : ∀ n ∈ first, n.isCallback = false)
      (after : Conveys app (s.taken gvr w e inbox) [] s' notes) :
      Conveys app s (if gvr = app then (w.cache.apply e.scope e.event).2 else []) s'
        (first ++ notes)

section Conveys

variable {s s' : System} {app gvr : GroupVersionResource} {action : Action} {party : Party}
  {o : Outcome} {b : Batch} {notes : List Note} {gs : List Growth}
  {final? : Option (KindDescriptor × Change ClusterObject)}

/-- A step in which nothing happens at the queue. -/
theorem conveys_of_pipeline (hext : s.registry.Extends s'.registry)
    (hcallers : s'.callers = s.callers) (hpipeline : s'.pipeline = s.pipeline)
    (hquiet : ∀ n ∈ notes, n.isCallback = false) : Conveys app s [] s' notes := by
  have hqueue : s'.queue = s.queue := congrArg Pipeline.queue hpipeline
  refine .idle hext (fun p a ha => ?_) ?_ fun k => ?_
  · rw [awaiting?_of_extends hext hcallers] at ha
    exact .inr ha
  · rw [hqueue]
    exact List.Subset.refl _
  · refine .of_eq ?_
    rw [Note.handed_of_quiet hquiet, hpipeline]
    rfl

/-- A worker has its turn with a change. -/
theorem conveys_worker {w : Watcher} {e : ResourceEvent} {rest : List ResourceEvent}
    (hw : s.registry.watcher? gvr = some w) (hgrows : Outcome.Grows s gs o)
    (hdue : w.core.Due e rest final?) (hposts : Outcome.Posts s (.worker gvr) final? o b)
    (hturn : s.queue.pending = [] ∨
      (concludeWorker gvr w.kind e rest o).1.queue.items.length ≤ s.queue.items.length) :
    Conveys app s [] (concludeWorker gvr w.kind e rest o).1
      (concludeWorker gvr w.kind e rest o).2 := by
  rw [concludeWorker_system, queue_setWorker] at hturn
  exact .turn (c := w.core) (Registry.core?_of_watcher? hw) hgrows hdue hposts.makes hposts.quiet
    hposts.pending (hposts.ahead hturn)

theorem pipeline_setWorker (s : System) (gvr : GroupVersionResource) (worker : Worker) :
    (s.setWorker gvr worker).pipeline = s.pipeline := by
  unfold setWorker
  split <;> rfl

theorem pipeline_concludeWorker (gvr : GroupVersionResource) (kind : KindDescriptor)
    (e : ResourceEvent) (rest : List ResourceEvent) (o : Outcome) :
    (concludeWorker gvr kind e rest o).1.pipeline = o.system.pipeline := by
  rw [concludeWorker_system, pipeline_setWorker]

theorem pipeline_concludeCaller (id : Nat) (o : Outcome) :
    (concludeCaller id o).1.pipeline = o.system.pipeline := by
  unfold concludeCaller
  split <;> rfl

theorem isCallback_concludeCaller {id : Nat} (h : ∀ n ∈ o.notes, n.isCallback = false) :
    ∀ n ∈ (concludeCaller id o).2, n.isCallback = false := by
  unfold concludeCaller
  split
  · exact h
  · intro n hn
    rcases List.mem_append.mp hn with hn | hn
    · exact h n hn
    · rw [List.mem_singleton.mp hn]
      rfl

/-- A caller that has no batch to send leaves the queue alone. -/
theorem conveys_caller {id : Nat} (hgrows : Outcome.Grows s gs o)
    (hposts : Outcome.Posts s (.caller id) none o b) :
    Conveys app s [] (concludeCaller id o).1 (concludeCaller id o).2 := by
  have hpipeline := (pipeline_concludeCaller id o).trans hposts.pipeline_eq
  have hqueue : (concludeCaller id o).1.queue = s.queue := congrArg Pipeline.queue hpipeline
  refine .idle (registry_concludeCaller id o ▸ hgrows.extends) (fun p a ha => ?_) ?_ fun k => ?_
  · rw [awaiting?_concludeCaller hgrows] at ha
    split at ha
    · left
      cases hfinal : a.final? with
      | none => rfl
      | some change =>
        exact absurd (hposts.makes.final?_eq (Progress.eq_waits ha) hfinal) (by simp)
    · exact .inr ha
  · rw [hqueue]
    exact List.Subset.refl _
  · refine .of_eq ?_
    rw [Note.handed_of_quiet (isCallback_concludeCaller hposts.quiet), hpipeline]
    rfl

/-- Only workers have batches to send, and the queue knows who waits for room. -/
structure Staffed (s : System) : Prop where
  roomed : s.Roomed
  senders : ∀ p ∈ s.queue.pending, p.isCaller = false
  callers : ∀ id a, s.awaiting? (.caller id) = some a → a.final? = none

/-- Whoever was waiting goes on with what it has to send. -/
theorem conveys_conclude {a : Awaiting} (h : s.Staffed) (ha : s.awaiting? party = some a)
    (hgrows : Outcome.Grows s gs o) (hposts : Outcome.Posts s party a.final? o b)
    (hturn : s.queue.pending = [] ∨
      (s.conclude party o).1.queue.items.length ≤ s.queue.items.length) :
    Conveys app s [] (s.conclude party o).1 (s.conclude party o).2 := by
  cases party with
  | caller id =>
    rw [h.callers id a ha] at hposts
    exact conveys_caller hgrows hposts
  | worker gvr =>
    obtain ⟨w, e, rest, hw, hhandling⟩ := exists_of_awaiting? ha
    rw [conclude_worker hw hhandling] at hturn ⊢
    exact conveys_worker hw hgrows (.goesOn hhandling) hposts hturn

/-- The party that has waited longest for room goes on once its batch is in the queue. -/
theorem conveys_entered {q : BoundedQueue Party Batch} (h : s.Staffed)
    (hq : s.queue.enter? party = some q) (hfirst : s.queue.pending.head? = some party)
    (hgrows : Outcome.Grows s gs ⟨s.setQueue q, [], .finished (.ok ())⟩) :
    Conveys app s [] (s.conclude party ⟨s.setQueue q, [], .finished (.ok ())⟩).1
      (s.conclude party ⟨s.setQueue q, [], .finished (.ok ())⟩).2 := by
  obtain ⟨hmem, hpending, -⟩ := BoundedQueue.pending_enter? hq
  cases party with
  | caller id => exact absurd (h.senders _ hmem) (by simp [Party.isCaller])
  | worker gvr =>
    obtain ⟨w, e, rest, hw, hhandling⟩ := exists_of_isQueued (h.roomed.isQueued_of_mem hmem)
    rw [conclude_worker hw hhandling]
    refine .turn (c := w.core) (b := .empty) (Registry.core?_of_watcher? hw) hgrows
      (.goesOn (a := .room) hhandling) (.nothing rfl rfl) (by simp) ?_ fun k => ?_
    · change q.pending ⊆ _
      rw [hpending]
      exact List.Subset.trans List.erase_subset (List.subset_cons_self _ _)
    · have hline := BoundedQueue.line_enter? hq hfirst
      change s.pipeline.phase.ahead k ++ q.line.flatMap (Batch.mentions k) = _
      rw [hline]
      exact (List.append_nil _).symm

/-- A call from outside that is not foreign has nothing to send. -/
theorem begin_posts {id : Nat} {call : Call} (h : s.begin id call = some o)
    (hforeign : (Action.call id call).isForeign = false) :
    ∃ b, Outcome.Posts s (.caller id) none o b := by
  cases call with
  | addToWatch kind =>
    cases h
    exact s.addToWatch_posts _ kind .done
  | watchComponents a =>
    cases h
    exact s.pursue_posts _ (.components a a.componentKinds .done)
  | handleApplication gvr e => cases hforeign
  | handleResource gvr e => cases hforeign
  | send b => cases hforeign

theorem inTurn_cases (h : s.inTurn action s' = true)
    (hne : ∀ party, action ≠ .enterQueue party) :
    s.queue.pending = [] ∨ s'.queue.items.length ≤ s.queue.items.length := by
  unfold inTurn at h
  split at h
  · exact absurd rfl (hne _)
  · simpa using h

theorem Works.conveys (h : s.Works action party o) (hstaffed : s.Staffed)
    (hforeign : action.isForeign = false)
    (hturn : s.inTurn action (s.conclude party o).1 = true) :
    Conveys app s [] (s.conclude party o).1 (s.conclude party o).2 := by
  have hgrows := h.grows
  cases h with
  | called h =>
    obtain ⟨b, hposts⟩ := begin_posts h hforeign
    exact conveys_caller hgrows hposts
  | discovered ha =>
    obtain ⟨b, hposts⟩ := s.onDiscovery_posts _ _ _ _ _ _
    exact conveys_conclude hstaffed ha hgrows hposts (inTurn_cases hturn (by simp))
  | checked ha =>
    obtain ⟨b, hposts⟩ := s.onAccess_posts _ _ _ _ _ _ _
    exact conveys_conclude hstaffed ha hgrows hposts (inTurn_cases hturn (by simp))
  | entered hq => exact conveys_entered hstaffed hq (of_decide_eq_true hturn) hgrows
  | refused ha _ =>
    exact conveys_conclude hstaffed ha hgrows (Outcome.posts_failure s _ _ _)
      (inTurn_cases hturn (by simp))

/-- A worker begins a change. -/
theorem conveys_begins {w : Watcher} {e : ResourceEvent} {rest : List ResourceEvent}
    (hw : s.registry.watcher? gvr = some w) (hready : w.worker = .ready e rest)
    (hturn : s.queue.pending = [] ∨
      (concludeWorker gvr w.kind e rest (s.handle (.worker gvr) w e)).1.queue.items.length ≤
        s.queue.items.length) :
    Conveys app s [] (concludeWorker gvr w.kind e rest (s.handle (.worker gvr) w e)).1
      (concludeWorker gvr w.kind e rest (s.handle (.worker gvr) w e)).2 := by
  obtain ⟨b, hposts⟩ := s.handle_posts (.worker gvr) w e
  exact conveys_worker hw (s.handle_grows _ w e) (.begins hready) hposts hturn

theorem Step.conveys_proceed (h : Step s (.proceed gvr) s' notes)
    (hturn : s.inTurn (.proceed gvr) s' = true) : Conveys app s [] s' notes := by
  obtain ⟨w, e, rest, hw, hready, heq⟩ := h.begun
  obtain ⟨rfl, rfl⟩ := Prod.mk.inj heq
  exact conveys_begins hw hready (inTurn_cases hturn (by simp))

/-- What is neither a reader's nor a party's work moves the line on at most. -/
theorem conveys_elsewhere {pipeline : Pipeline Party} {callers : SortedMap Nat Awaiting}
    (h : s.Staffed) (hshifts : s.pipeline.Shifts action pipeline notes)
    (hcallers : ∀ id, callers.get? id =
      if action.party? = some (.caller id) then none else s.callers.get? id)
    (hforeign : action.isForeign = false) :
    Conveys app s [] ⟨(s.registry.growAll (s.growth action)).1, pipeline, callers⟩ notes := by
  have hext := s.registry.extends_growAll (s.growth action)
  have hwaits : ∀ p a, awaiting? ⟨(s.registry.growAll (s.growth action)).1, pipeline, callers⟩ p =
      some a → a.final? = none ∨ s.awaiting? p = some a := by
    intro p a ha
    cases p with
    | worker g => exact .inr ((awaiting?_worker_of_extends hext g).symm.trans ha)
    | caller id =>
      have hget : callers.get? id = some a := ha
      rw [hcallers] at hget
      split at hget
      · cases hget
      · exact .inr hget
  have hpending : pipeline.queue.pending ⊆ s.queue.pending :=
    hshifts.recedes.pending.subset
  refine .idle hext hwaits hpending fun k => ?_
  cases hshifts with
  | processes hp =>
    rw [Note.handed, List.filterMap_map]
    exact Pipeline.ahead_step hp k
  | @leaves id =>
    -- Only workers wait for room, so nobody leaves.
    have hkept : ∀ p ∈ s.queue.pending, decide (p ≠ Party.caller id) = true := by
      intro p hp
      refine decide_eq_true fun he => ?_
      rw [he] at hp
      exact absurd (h.senders _ hp) (by simp [Party.isCaller])
    have hline := BoundedQueue.line_keepSenders hkept
    exact .of_eq
      (congrArg (fun line => s.pipeline.phase.ahead k ++ line.flatMap (Batch.mentions k)) hline)
  | ticks | permits => exact .refl _
  | receives | closes => cases hforeign

theorem changes_eq_nil {app : GroupVersionResource}
    (h : ((s.registry.watcherAt app).passing app action).applied = []) :
    s.changes app action = [] := by
  simp only [changes, h, WatchCache.applyAll]

/-- The changes that a worker reports when it takes an event. -/
theorem changes_take {w : Watcher} {e : ScopedEvent} {inbox : BoundedQueue String ScopedEvent}
    (hw : s.registry.watcher? gvr = some w) (hinbox : w.inbox.take? = some (e, inbox)) :
    s.changes app (.take gvr) =
      if gvr = app then (w.cache.apply e.scope e.event).2 else [] := by
  rw [changes, passing_take hw hinbox]
  split
  · next hg =>
    rw [Registry.watcherAt_of_watcher? (hg ▸ hw)]
    exact List.append_nil _
  · rfl

/-- **Every step of a running engine conveys the snapshots in their order**, if no batch is let in
out of turn. -/
theorem conveys_of_step (h : s.Staffed) (hs : s.step action = some (s', notes))
    (hstop : action.stops = false) (hforeign : action.isForeign = false)
    (hturn : s.inTurn action s' = true) : Conveys app s (s.changes app action) s' notes := by
  cases step_cases hs hstop with
  | works hworks =>
    rw [changes_eq_nil (by rw [hworks.passing])]
    exact hworks.conveys h hforeign hturn
  | begins hw hready =>
    rw [changes_eq_nil (by rw [passing_proceed hw]; split <;> rfl)]
    exact conveys_begins hw hready (inTurn_cases hturn (by simp))
  | @passes _ gvr w e inbox hw hidle hinbox _ =>
    have hidles : Conveys app (s.taken gvr w e inbox) [] (s.taken gvr w e inbox) [] :=
      conveys_of_pipeline (.refl _) rfl rfl (by simp)
    have htook := Conveys.took hw hidle
      (Note.isCallback_of_isNotice (e.isNotice_notes w.kind)) hidles
    rw [changes_take hw hinbox]
    rwa [List.append_nil] at htook
  | @takes _ _ _ w e _ _ hw hidle hinbox after =>
    rw [changes_take hw hinbox]
    exact .took hw hidle (Note.isCallback_of_isNotice (e.isNotice_notes w.kind))
      (after.conveys_proceed hturn)
  | flows hw hflows =>
    rw [changes_eq_nil (by cases hflows <;> rfl)]
    exact conveys_of_pipeline (Registry.extends_insert hw hflows.core) rfl rfl
      (Note.isCallback_of_isNotice hflows.isNotice)
  | unread hw hstream =>
    rw [changes_eq_nil (by rw [passing_unread hw hstream])]
    exact conveys_of_pipeline (.refl _) rfl rfl (by simp)
  | elsewhere hshifts hcallers =>
    rw [changes_eq_nil (by rw [passing_of_isElsewhere hshifts.isElsewhere])]
    exact conveys_elsewhere h hshifts hcallers hforeign

/-- What a step conveys leaves only workers with something to send. -/
theorem Conveys.staffed {changes : List ResourceEvent} (hc : Conveys app s changes s' notes)
    (h : s.Staffed) (hroomed : s'.Roomed) : s'.Staffed := by
  induction hc with
  | idle _ hwaits hsenders _ =>
    refine ⟨hroomed, fun p hp => h.senders p (hsenders hp), fun id a ha => ?_⟩
    exact (hwaits _ a ha).elim (fun hnone => hnone) (h.callers id a)
  | @turn s gvr c e rest gs o b final? hc hgrows _ _ _ hsenders _ =>
    refine ⟨hroomed, fun p hp => ?_, fun id a ha => ?_⟩
    · rw [concludeWorker_system, queue_setWorker] at hp
      rcases List.mem_cons.mp (hsenders hp) with rfl | hp
      · rfl
      · exact h.senders p hp
    · rw [awaiting?_concludeWorker hgrows hc, if_neg (by simp)] at ha
      exact h.callers id a ha
  | @took s s' notes first gvr w e inbox hw hidle _ _ ih =>
    refine ih ⟨roomed_taken h.roomed hw hidle e inbox, h.senders, fun id a ha => ?_⟩ hroomed
    rw [awaiting?_taken hw hidle] at ha
    exact h.callers id a ha

end Conveys

/-! ## 3. Stops -/

section Stops

variable {s s' : System} {gvr : GroupVersionResource} {c : Core} {action : Action}
  {notes : List Note}

/-- A stop leaves of a watcher nothing, everything, or all but the worker. -/
theorem core?_of_stops (hs : s.step action = some (s', notes)) (hstop : action.stops = true)
    (hc : s'.registry.core? gvr = some c) :
    ∃ c', s.registry.core? gvr = some c' ∧ c.cache = c'.cache ∧ c.kind = c'.kind ∧
      (c.worker = c'.worker ∨ c.worker = .dead) := by
  cases action with
  | stop =>
    cases hs
    cases hc
  | stopWatcher g =>
    cases hs
    change (s.registry.stopWatcher g).core? gvr = some c at hc
    rw [Registry.core?_stopWatcher] at hc
    split at hc
    · next hg =>
      obtain ⟨c', hc', rfl⟩ := Option.map_eq_some_iff.mp hc
      exact ⟨c', hg ▸ hc', rfl, rfl, .inr rfl⟩
    · exact ⟨c, hc, rfl, rfl, .inl rfl⟩
  | _ => cases hstop

/-- A stop only sends parties away from the queue. -/
theorem pipeline_of_stops (hs : s.step action = some (s', notes)) (hstop : action.stops = true) :
    ∃ keep, s'.pipeline = { s.pipeline with queue := s.queue.keepSenders keep } := by
  cases action with
  | stop =>
    cases hs
    exact ⟨_, rfl⟩
  | stopWatcher g =>
    cases hs
    exact ⟨_, rfl⟩
  | _ => cases hstop

/-- A stopped worker does not wait for room. -/
theorem roomed_of_stops (h : s.Roomed) (hs : s.step action = some (s', notes))
    (hstop : action.stops = true) : s'.Roomed := by
  obtain ⟨keep, hpipeline⟩ := pipeline_of_stops hs hstop
  have hqueue : s'.queue = s.queue.keepSenders keep := congrArg Pipeline.queue hpipeline
  refine ⟨fun g => ?_, fun hclosed => ?_⟩
  · cases action with
    | stop =>
      cases hs
      change (s.queue.keepSenders Party.isCaller).pending.count (.worker g) ≤ _
      rw [BoundedQueue.pending_keepSenders, List.count_eq_zero.mpr fun hmem => ?_]
      · exact Nat.zero_le _
      · exact absurd (List.mem_filter.mp hmem).2 (by simp [Party.isCaller])
    | stopWatcher gvr =>
      cases hs
      change (s.queue.keepSenders fun p => decide (p ≠ .worker gvr)).pending.count (.worker g) ≤
        ((s.registry.stopWatcher gvr).isQueued g).toNat
      rw [BoundedQueue.pending_keepSenders]
      by_cases hg : g = gvr
      · rw [List.count_eq_zero.mpr fun hmem => ?_]
        · exact Nat.zero_le _
        · exact absurd (List.mem_filter.mp hmem).2 (by simp [hg])
      · rw [Registry.isQueued, Registry.core?_stopWatcher, if_neg hg]
        exact Nat.le_trans (List.filter_sublist.count_le _) (h.once g)
    | _ => cases hstop
  · rw [hqueue] at hclosed ⊢
    rw [BoundedQueue.pending_keepSenders, h.closed hclosed]
    rfl

theorem Staffed.stops (h : s.Staffed) (hs : s.step action = some (s', notes))
    (hstop : action.stops = true) : s'.Staffed := by
  obtain ⟨keep, hpipeline⟩ := pipeline_of_stops hs hstop
  refine ⟨roomed_of_stops h.roomed hs hstop, fun p hp => ?_, fun id a ha => ?_⟩
  · rw [show s'.queue = s.queue.keepSenders keep from congrArg Pipeline.queue hpipeline,
      BoundedQueue.pending_keepSenders] at hp
    exact h.senders p (List.mem_of_mem_filter hp)
  · exact h.callers id a ((stopped_of_stops hs hstop).1.waits ha)

theorem changes_of_stops (hstop : action.stops = true) : s.changes app action = [] := by
  refine changes_eq_nil ?_
  cases action <;> first | rfl | cases hstop

end Stops

end System

end AppWatch
