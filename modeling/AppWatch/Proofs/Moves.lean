/-
# What a step of the engine amounts to

Seen from the caches and the workers a step of a running engine is one of three things (`Move`):

* nothing but growth of the registry;
* a worker's turn: it goes on with the change it is handling, or begins the one before it;
* a worker takes an event, which changes its cache, and has its turn at once if that makes
  changes.

A worker waits for room in the batch queue exactly if it stands among the queue's senders, and it
stands there once (`Roomed`).  That is why the queue cannot wake a worker that is waiting for
something else.
-/
import AppWatch.Proofs.Outcomes
import AppWatch.Proofs.Snapshot
import AppWatch.Proofs.Steps

namespace AppWatch

/-! ## 1. Changing what a worker is doing -/

/-- Whether a worker waits for room in the batch queue. -/
def Worker.isQueued : Worker → Bool
  | .handling _ _ .room => true
  | _ => false

/-- What a worker does next, given how far it has come with a change. -/
def Progress.next (e : ResourceEvent) (rest : List ResourceEvent) : Progress → Worker
  | .waits a => .handling e rest a
  | .finished _ => .facing rest

/-- Whether the worker of a kind waits for room in the batch queue. -/
def Registry.isQueued (r : Registry) (gvr : GroupVersionResource) : Bool :=
  (r.core? gvr).any fun c => c.worker.isQueued

theorem Registry.Extends.isQueued_eq {r r' : Registry} (h : r.Extends r')
    (gvr : GroupVersionResource) : r'.isQueued gvr = r.isQueued gvr := by
  unfold Registry.isQueued
  rcases h.core gvr with he | ⟨hnone, kind, -, hnew⟩
  · rw [he]
  · rw [hnone, hnew]
    rfl

namespace System

variable {s s' : System} {gvr : GroupVersionResource} {c : Core} {e : ResourceEvent}
  {rest : List ResourceEvent} {o : Outcome} {notes : List Note}

theorem queue_setWorker (s : System) (gvr : GroupVersionResource) (worker : Worker) :
    (s.setWorker gvr worker).queue = s.queue := by
  unfold setWorker
  split <;> rfl

theorem core?_setWatcher (s : System) (gvr : GroupVersionResource) (w : Watcher)
    (g : GroupVersionResource) : (s.setWatcher gvr w).registry.core? g =
      if g = gvr then some w.core else s.registry.core? g :=
  s.registry.core?_insert gvr w g

theorem core?_setWorker (hc : s.registry.core? gvr = some c) (worker : Worker)
    (g : GroupVersionResource) : (s.setWorker gvr worker).registry.core? g =
      if g = gvr then some { c with worker := worker } else s.registry.core? g := by
  obtain ⟨w, hw, rfl⟩ := Registry.exists_watcher_of_core? hc
  unfold setWorker
  rw [hw]
  exact s.core?_setWatcher gvr { w with worker := worker } g

theorem settings_setWorker (s : System) (gvr : GroupVersionResource) (worker : Worker) :
    s.registry.SameSettings (s.setWorker gvr worker).registry := by
  unfold setWorker
  split <;> exact ⟨rfl, rfl, rfl⟩

/-- What a worker is doing shows in no snapshot. -/
theorem resolver_setWorker (hc : s.registry.core? gvr = some c) (worker : Worker) :
    (s.setWorker gvr worker).registry.resolver (s.setWorker gvr worker).registry.snapshot.1 =
      s.registry.resolver s.registry.snapshot.1 := by
  have hobjects : ∀ g, (s.setWorker gvr worker).registry.objects g = s.registry.objects g := by
    intro g
    rw [Registry.objects_eq, Registry.objects_eq, core?_setWorker hc]
    by_cases hg : g = gvr
    · rw [if_pos hg, hg, hc]
    · rw [if_neg hg]
  obtain ⟨w, hw, -⟩ := Registry.exists_watcher_of_core? hc
  simp only [Registry.resolver, Registry.snapshot, hobjects, Registry.parseApplications_eq]
  simp only [setWorker, hw, setWatcher]

theorem concludeWorker_system (gvr : GroupVersionResource) (kind : KindDescriptor)
    (e : ResourceEvent) (rest : List ResourceEvent) (o : Outcome) :
    (concludeWorker gvr kind e rest o).1 = o.system.setWorker gvr (o.progress.next e rest) := by
  unfold concludeWorker Progress.next
  split <;> next h => rw [h]

/-- The cores after a worker has had its turn. -/
theorem core?_concludeWorker {kind : KindDescriptor} (hc : o.system.registry.core? gvr = some c)
    (g : GroupVersionResource) : (concludeWorker gvr kind e rest o).1.registry.core? g =
      if g = gvr then some { c with worker := o.progress.next e rest }
      else o.system.registry.core? g := by
  rw [concludeWorker_system, core?_setWorker hc]

/-- A worker's turn leaves kinds and caches as they are. -/
theorem continues_concludeWorker {kind : KindDescriptor} (hc : s.registry.core? gvr = some c)
    (hext : s.registry.Extends o.system.registry) :
    s.registry.Continues (concludeWorker gvr kind e rest o).1.registry := by
  have hc' := hext.core?_eq_some hc
  rw [concludeWorker_system]
  refine hext.continues (settings_setWorker _ _ _) fun g => ?_
  rw [core?_setWorker hc']
  split
  · next hg =>
    rw [hg, hc']
    rfl
  · rfl

/-- A worker that has failed with a change says so. -/
theorem handlerFailed_mem_concludeWorker {kind : KindDescriptor} {f : Failure}
    (h : o.progress = .finished (.error f)) :
    Note.notice (.handlerFailed kind e.key e.kind f) ∈ (concludeWorker gvr kind e rest o).2 := by
  unfold concludeWorker
  rw [h]
  exact List.mem_append_right _ (List.mem_singleton_self _)

theorem mem_notes_concludeWorker {kind : KindDescriptor} {n : Note} (h : n ∈ o.notes) :
    n ∈ (concludeWorker gvr kind e rest o).2 := by
  unfold concludeWorker
  split
  · exact h
  · exact h
  · exact List.mem_append_left _ h

/-! ## 2. Turns and moves -/

/-- A worker's turn with a change.  It begins the change or goes on with it; either way it owes the
batch at the end. -/
structure Turn (s : System) (gvr : GroupVersionResource) (c : Core) (e : ResourceEvent)
    (rest : List ResourceEvent) (o : Outcome) : Prop where
  core : s.registry.core? gvr = some c
  registry : s.registry.Extends o.system.registry
  owed : c.worker = .ready e rest ∧ o.Delivers (.worker gvr) c.kind (c.cache.latestChange e) ∨
    ∃ a, c.worker = .handling e rest a ∧ ∀ {kind change}, a.final? = some (kind, change) →
      o.Delivers (.worker gvr) kind change

/-- What a step amounts to. -/
inductive Move : System → System → List Note → Prop where
  /-- The registry may have grown. -/
  | quiet {s s' : System} {notes : List Note} (registry : s.registry.Extends s'.registry) :
      Move s s' notes
  /-- A worker has its turn. -/
  | turn {s : System} {gvr : GroupVersionResource} {c : Core} {e : ResourceEvent}
      {rest : List ResourceEvent} {o : Outcome} (h : s.Turn gvr c e rest o) :
      Move s (concludeWorker gvr c.kind e rest o).1 (concludeWorker gvr c.kind e rest o).2
  /-- An idle worker takes an event. -/
  | took {s s' : System} {notes first : List Note} {gvr : GroupVersionResource} {w : Watcher}
      {e : ScopedEvent} {inbox : BoundedQueue String ScopedEvent}
      (hw : s.registry.watcher? gvr = some w) (hidle : w.worker = .idle)
      (after : Move (s.taken gvr w e inbox) s' notes) : Move s s' (first ++ notes)

/-! ## 3. Who waits for room -/

/-- The queue knows each worker that waits for room, once, and nobody else of the workers; once it
is closed nobody waits. -/
structure Roomed (s : System) : Prop where
  once : ∀ g, s.queue.pending.count (.worker g) ≤ (s.registry.isQueued g).toNat
  closed : s.queue.closed = true → s.queue.pending = []

theorem Roomed.of_extends (h : s.Roomed) (hext : s.registry.Extends s'.registry)
    (hcount : ∀ g, s'.queue.pending.count (.worker g) ≤ s.queue.pending.count (.worker g))
    (hclosed : s'.queue.closed = true → s'.queue.pending = []) : s'.Roomed := by
  refine ⟨fun g => ?_, hclosed⟩
  rw [hext.isQueued_eq]
  exact Nat.le_trans (hcount g) (h.once g)

/-- A worker that the queue knows waits for room. -/
theorem Roomed.isQueued_of_mem (h : s.Roomed) (hmem : .worker gvr ∈ s.queue.pending) :
    s.registry.isQueued gvr = true := by
  have hpos := List.count_pos_iff.mpr hmem
  have honce := h.once gvr
  cases hb : s.registry.isQueued gvr with
  | true => rfl
  | false =>
    rw [hb, Bool.toNat_false] at honce
    omega

/-- A step in which no worker acts and nobody joins the queue. -/
theorem move_of_extends (h : s.Roomed) (hext : s.registry.Extends s'.registry)
    (hpending : s'.queue.pending = s.queue.pending) (hclosed : s'.queue.closed = s.queue.closed)
    (notes : List Note) : Move s s' notes ∧ s'.Roomed := by
  refine ⟨.quiet hext, h.of_extends hext (fun g => Nat.le_of_eq (by rw [hpending])) fun hc => ?_⟩
  rw [hpending]
  exact h.closed (hclosed ▸ hc)

theorem isQueued_setWorker (hc : s.registry.core? gvr = some c) (worker : Worker)
    (g : GroupVersionResource) : (s.setWorker gvr worker).registry.isQueued g =
      if g = gvr then worker.isQueued else s.registry.isQueued g := by
  rw [Registry.isQueued, core?_setWorker hc]
  split
  · rfl
  · rfl

/-- What the queue has to be after a worker's turn. -/
theorem roomed_concludeWorker {kind : KindDescriptor} (hc : o.system.registry.core? gvr = some c)
    (hown : o.system.queue.pending.count (.worker gvr) ≤ (o.progress.next e rest).isQueued.toNat)
    (hothers : ∀ g, g ≠ gvr →
      o.system.queue.pending.count (.worker g) ≤ (o.system.registry.isQueued g).toNat)
    (hclosed : o.system.queue.closed = true → o.system.queue.pending = []) :
    (concludeWorker gvr kind e rest o).1.Roomed := by
  rw [concludeWorker_system]
  refine ⟨fun g => ?_, ?_⟩
  · rw [queue_setWorker, isQueued_setWorker hc]
    split
    · next hg => exact hg ▸ hown
    · next hg => exact hothers g hg
  · rw [queue_setWorker]
    exact hclosed

/-- A turn of a worker that was not waiting for room. -/
theorem move_of_advances {final? : Option (KindDescriptor × Change ClusterObject)}
    (h : s.Roomed) (hc : s.registry.core? gvr = some c) (hfree : c.worker.isQueued = false)
    (hadv : Outcome.Advances s (.worker gvr) final? o)
    (howed : c.worker = .ready e rest ∧ final? = some (c.kind, c.cache.latestChange e) ∨
      ∃ a, c.worker = .handling e rest a ∧ final? = a.final?) :
    Move s (concludeWorker gvr c.kind e rest o).1 (concludeWorker gvr c.kind e rest o).2 ∧
      (concludeWorker gvr c.kind e rest o).1.Roomed := by
  constructor
  · refine .turn ⟨hc, hadv.registry, ?_⟩
    rcases howed with ⟨hready, hf⟩ | ⟨a, hhandling, hf⟩
    · exact .inl ⟨hready, hadv.delivers hf⟩
    · exact .inr ⟨a, hhandling, fun ha => hadv.delivers (hf.trans ha)⟩
  · have hzero : s.queue.pending.count (.worker gvr) = 0 := by
      have hle := h.once gvr
      rw [Registry.isQueued, hc] at hle
      simpa [hfree] using hle
    have hqueued := hadv.registry.isQueued_eq
    rcases hadv.pending with ⟨hp, -⟩ | ⟨hp, hwaits, hopen⟩
    · refine roomed_concludeWorker (hadv.registry.core?_eq_some hc) ?_ (fun g _ => ?_) ?_
      · rw [hp, hzero]
        exact Nat.zero_le _
      · rw [hp, hqueued]
        exact h.once g
      · rw [hp, hadv.closed]
        exact h.closed
    · refine roomed_concludeWorker (hadv.registry.core?_eq_some hc) ?_ (fun g hg => ?_) ?_
      · rw [hp, List.count_append, hzero, hwaits]
        simp [Progress.next, Worker.isQueued]
      · rw [hp, hqueued, List.count_append]
        have hne : Party.worker gvr ≠ Party.worker g := fun he => hg (Party.worker.inj he).symm
        rw [List.count_singleton, if_neg (by simpa using hne), Nat.add_zero]
        exact h.once g
      · rw [hadv.closed, hopen]
        exact fun hc => absurd hc (by simp)

/-! ## 4. Every step is a move -/

theorem roomed_taken {w : Watcher} (h : s.Roomed) (hw : s.registry.watcher? gvr = some w)
    (hidle : w.worker = .idle) (e : ScopedEvent) (inbox : BoundedQueue String ScopedEvent) :
    (s.taken gvr w e inbox).Roomed := by
  refine ⟨fun g => ?_, h.closed⟩
  have hle := h.once g
  unfold Registry.isQueued at hle ⊢
  rw [taken, core?_setWatcher]
  split
  · next hg =>
    rw [hg, Registry.core?_of_watcher? hw] at hle
    have hzero : s.queue.pending.count (.worker g) = 0 := by
      rw [hg]
      simpa [Watcher.core, hidle, Worker.isQueued] using hle
    exact Nat.le_trans (Nat.le_of_eq hzero) (Nat.zero_le _)
  · exact hle

/-- A worker that waits for room is handling a change. -/
theorem exists_of_isQueued (h : s.registry.isQueued gvr = true) :
    ∃ w e rest, s.registry.watcher? gvr = some w ∧ w.worker = .handling e rest .room := by
  obtain ⟨c, hc, hq⟩ := (Option.any_eq_true _ _).mp h
  obtain ⟨w, hw, rfl⟩ := Registry.exists_watcher_of_core? hc
  unfold Worker.isQueued at hq
  split at hq
  · next e rest hhandling => exact ⟨w, e, rest, hw, hhandling⟩
  · cases hq

theorem registry_concludeCaller (id : Nat) (o : Outcome) :
    (concludeCaller id o).1.registry = o.system.registry := by
  unfold concludeCaller
  split <;> rfl

theorem queue_concludeCaller (id : Nat) (o : Outcome) :
    (concludeCaller id o).1.queue = o.system.queue := by
  unfold concludeCaller
  split <;> rfl

/-- What a caller does touches no worker. -/
theorem move_concludeCaller {id : Nat}
    {final? : Option (KindDescriptor × Change ClusterObject)} (h : s.Roomed)
    (hadv : Outcome.Advances s (.caller id) final? o) (notes : List Note) :
    Move s (concludeCaller id o).1 notes ∧ (concludeCaller id o).1.Roomed := by
  have hqueue := queue_concludeCaller id o
  have hext : s.registry.Extends (concludeCaller id o).1.registry :=
    registry_concludeCaller id o ▸ hadv.registry
  rcases hadv.pending with ⟨hp, -⟩ | ⟨hp, -, hopen⟩
  · exact move_of_extends h hext (by rw [hqueue, hp]) (by rw [hqueue, hadv.closed]) notes
  · refine ⟨.quiet hext, h.of_extends hext (fun g => ?_) ?_⟩
    · rw [hqueue, hp, List.count_append]
      simp
    · rw [hqueue, hadv.closed, hopen]
      exact fun hc => absurd hc (by simp)

/-- A worker that waits is handling a change. -/
theorem exists_of_awaiting? {a : Awaiting} (h : s.awaiting? (.worker gvr) = some a) :
    ∃ w e rest, s.registry.watcher? gvr = some w ∧ w.worker = .handling e rest a := by
  unfold awaiting? at h
  simp only at h
  split at h
  · next kind cache readers inbox e rest a' hw =>
    cases h
    exact ⟨_, e, rest, hw, rfl⟩
  · cases h

theorem conclude_worker {w : Watcher} {a : Awaiting} (hw : s.registry.watcher? gvr = some w)
    (hhandling : w.worker = .handling e rest a) (o : Outcome) :
    s.conclude (.worker gvr) o = concludeWorker gvr w.kind e rest o := by
  obtain ⟨kind, cache, readers, inbox, worker⟩ := w
  cases hhandling
  simp only [conclude, hw]

/-- Whoever waits for something else than room goes on with what was to be done. -/
theorem move_conclude {party : Party} {a : Awaiting} (h : s.Roomed)
    (ha : s.awaiting? party = some a) (hroom : a ≠ .room)
    (hadv : Outcome.Advances s party a.final? o) :
    Move s (s.conclude party o).1 (s.conclude party o).2 ∧ (s.conclude party o).1.Roomed := by
  cases party with
  | caller id => exact move_concludeCaller h hadv _
  | worker gvr =>
    obtain ⟨w, e, rest, hw, hhandling⟩ := exists_of_awaiting? ha
    rw [conclude_worker hw hhandling]
    refine move_of_advances h (Registry.core?_of_watcher? hw) ?_ hadv (.inr ⟨a, hhandling, rfl⟩)
    rw [show w.core.worker = w.worker from rfl, hhandling]
    cases a with
    | discovery => rfl
    | access => rfl
    | room => exact absurd rfl hroom

/-- The turn of a worker that need not wait for room any longer. -/
theorem move_of_room {w : Watcher} (h : s.Roomed) (hw : s.registry.watcher? gvr = some w)
    (hhandling : w.worker = .handling e rest .room) (hregistry : o.system.registry = s.registry)
    (hown : o.system.queue.pending.count (.worker gvr) = 0)
    (hothers : ∀ g, g ≠ gvr → o.system.queue.pending.count (.worker g) ≤
      s.queue.pending.count (.worker g))
    (hclosed : o.system.queue.closed = true → o.system.queue.pending = []) :
    Move s (s.conclude (.worker gvr) o).1 (s.conclude (.worker gvr) o).2 ∧
      (s.conclude (.worker gvr) o).1.Roomed := by
  have hcore := Registry.core?_of_watcher? hw
  rw [conclude_worker hw hhandling]
  constructor
  · exact .turn (c := w.core) ⟨hcore, hregistry ▸ .refl _, .inr ⟨.room, hhandling,
      fun hf => absurd hf (by simp [Awaiting.final?])⟩⟩
  · refine roomed_concludeWorker (hregistry ▸ hcore) ?_ (fun g hg => ?_) hclosed
    · rw [hown]
      exact Nat.zero_le _
    · rw [hregistry]
      exact Nat.le_trans (hothers g hg) (h.once g)

theorem move_enterQueue {party : Party} {q : BoundedQueue Party Batch} (h : s.Roomed)
    (hq : s.queue.enter? party = some q) :
    Move s (s.conclude party ⟨s.setQueue q, [], .finished (.ok ())⟩).1
        (s.conclude party ⟨s.setQueue q, [], .finished (.ok ())⟩).2 ∧
      (s.conclude party ⟨s.setQueue q, [], .finished (.ok ())⟩).1.Roomed := by
  obtain ⟨hmem, hpending, hclosed⟩ := BoundedQueue.pending_enter? hq
  have hle : ∀ g, q.pending.count (.worker g) ≤ s.queue.pending.count (.worker g) := fun g => by
    rw [hpending]
    exact List.erase_sublist.count_le _
  have hempty : q.closed = true → q.pending = [] := fun hc => by
    rw [hpending, h.closed (hclosed ▸ hc)]
    rfl
  cases party with
  | caller id => exact ⟨.quiet (.refl _), h.of_extends (.refl _) hle hempty⟩
  | worker gvr =>
    have hqueued := h.isQueued_of_mem hmem
    have hone : s.queue.pending.count (.worker gvr) = 1 := by
      have hpos := List.count_pos_iff.mpr hmem
      have honce := h.once gvr
      rw [hqueued, Bool.toNat_true] at honce
      omega
    obtain ⟨w, e, rest, hw, hhandling⟩ := exists_of_isQueued hqueued
    refine move_of_room h hw hhandling rfl ?_ (fun g _ => hle g) hempty
    change q.pending.count (.worker gvr) = 0
    rw [hpending, List.count_erase_self, hone]

theorem move_refuse {party : Party} (h : s.Roomed) (ha : s.awaiting? party = some .room)
    (hc : s.queue.closed = true) :
    Move s (s.conclude party ⟨s, [], .finished (.error .queueClosed)⟩).1
        (s.conclude party ⟨s, [], .finished (.error .queueClosed)⟩).2 ∧
      (s.conclude party ⟨s, [], .finished (.error .queueClosed)⟩).1.Roomed := by
  cases party with
  | caller id => exact ⟨.quiet (.refl _), h.once, h.closed⟩
  | worker gvr =>
    obtain ⟨w, e, rest, hw, hhandling⟩ := exists_of_awaiting? ha
    refine move_of_room h hw hhandling rfl ?_ (fun g _ => Nat.le_refl _) h.closed
    rw [h.closed hc]
    rfl

/-- The work of a party is a worker's turn, or touches no worker. -/
theorem Works.move {action : Action} {party : Party} (h : s.Roomed)
    (hworks : s.Works action party o) :
    Move s (s.conclude party o).1 (s.conclude party o).2 ∧ (s.conclude party o).1.Roomed := by
  cases hworks with
  | called ho => exact move_concludeCaller h (s.begin_advances ho) _
  | @discovered party a c rest next reply ha =>
    exact move_conclude h ha (by simp) (s.onDiscovery_advances party a c rest next reply)
  | @checked party kind scopes scope rest next reply ha =>
    exact move_conclude h ha (by simp) (s.onAccess_advances party kind scopes scope rest next reply)
  | entered hq => exact move_enterQueue h hq
  | refused ha hclosed => exact move_refuse h ha hclosed

/-- A queue that recedes goes on knowing the workers that wait for room. -/
theorem Roomed.of_recedes (h : s.Roomed) (hext : s.registry.Extends s'.registry)
    (hqueue : s.queue.Recedes s'.queue) : s'.Roomed := by
  refine h.of_extends hext (fun g => hqueue.pending.count_le _) fun hclosed => ?_
  rcases hqueue.closed with hsame | hnone
  · exact List.sublist_nil.mp (h.closed (hsame ▸ hclosed) ▸ hqueue.pending)
  · rw [BoundedQueue.pending, hnone]
    rfl

/-- **Every step of a running engine is a move**, and the queue goes on knowing who waits for
room. -/
theorem Step.move {action : Action} (hstep : Step s action s' notes) (h : s.Roomed) :
    Move s s' notes ∧ s'.Roomed := by
  induction hstep with
  | works hworks => exact hworks.move h
  | @begins s gvr w e rest hw hready =>
    refine move_of_advances h (Registry.core?_of_watcher? hw) ?_
      (s.handle_advances (.worker gvr) w e) (.inl ⟨hready, rfl⟩)
    rw [show w.core.worker = w.worker from rfl, hready]
    rfl
  | @passes s gvr w e inbox hw hidle hinbox hchanges =>
    have hquiet : Move (s.taken gvr w e inbox) (s.taken gvr w e inbox) [] := .quiet (.refl _)
    refine ⟨?_, roomed_taken h hw hidle e inbox⟩
    rw [← List.append_nil (e.notes w.kind)]
    exact .took hw hidle hquiet
  | takes hw hidle _ _ ih =>
    obtain ⟨hmove, hroomed⟩ := ih (roomed_taken h hw hidle _ _)
    exact ⟨.took hw hidle hmove, hroomed⟩
  | @flows s action gvr w w' notes hw hflows =>
    have hext : s.registry.Extends (s.setWatcher gvr w').registry :=
      Registry.extends_insert hw hflows.core
    exact move_of_extends h hext rfl rfl notes
  | unread => exact ⟨.quiet (.refl _), h⟩
  | @elsewhere s action pipeline callers notes hshifts hcallers =>
    have hext := s.registry.extends_growAll (s.growth action)
    exact ⟨.quiet hext, h.of_recedes hext hshifts.recedes⟩

theorem step_move {action : Action} (h : s.Roomed) (hrun : action.stops = false)
    (hs : s.step action = some (s', notes)) : Move s s' notes ∧ s'.Roomed :=
  (step_cases hs hrun).move h

/-! ## 5. Runs -/

/-- The engine before anything is watched. -/
def fresh (applicationKind : KindDescriptor) (namespacesKey : String) (namespaces : List String)
    (capacity window now : Nat) : System where
  registry := {
    applicationKind := applicationKind
    namespacesKey := namespacesKey
    filter := .ofList namespaces }
  pipeline := .fresh Party capacity window now

theorem roomed_fresh (applicationKind : KindDescriptor) (namespacesKey : String)
    (namespaces : List String) (capacity window now : Nat) :
    (fresh applicationKind namespacesKey namespaces capacity window now).Roomed :=
  ⟨fun _ => Nat.zero_le _, fun _ => rfl⟩

/-- Up to one of its steps a run takes only actions of its own. -/
theorem subset_of_split {before after actions : List Action} {action : Action}
    (h : actions = before ++ action :: after) : before ++ [action] ⊆ actions := by
  rw [h, List.append_cons before action after]
  exact List.subset_append_left _ _

/-- A run by the given actions has made a step into a state, with the notes of that step. -/
def Stepped (s : System) (actions : List Action) (s₂ : System) (notes₂ : List Note) : Prop :=
  ∃ before action after s₁ notes₁, actions = before ++ action :: after ∧
    s.run before = some (s₁, notes₁) ∧ s₁.step action = some (s₂, notes₂)

theorem run_cons {action : Action} {actions : List Action}
    (h : s.run (action :: actions) = some (s', notes)) :
    ∃ s₁ notes₁ notes₂, s.step action = some (s₁, notes₁) ∧ s₁.run actions = some (s', notes₂) ∧
      notes = notes₁ ++ notes₂ := by
  obtain ⟨⟨s₁, notes₁⟩, hstep, h⟩ := Option.bind_eq_some_iff.mp h
  obtain ⟨⟨s₂, notes₂⟩, hrun, h⟩ := Option.bind_eq_some_iff.mp h
  obtain ⟨rfl, rfl⟩ := Prod.mk.inj (Option.some.inj h)
  exact ⟨s₁, notes₁, notes₂, hstep, hrun, rfl⟩

theorem run_cons_of_step {action : Action} {actions : List Action} {s₁ : System}
    {notes₁ notes₂ : List Note} (hstep : s.step action = some (s₁, notes₁))
    (hrun : s₁.run actions = some (s', notes₂)) :
    s.run (action :: actions) = some (s', notes₁ ++ notes₂) := by
  simp only [run, hstep, hrun, bind, Option.bind, pure]

theorem Stepped.head {action : Action} (h : s.step action = some (s', notes))
    (actions : List Action) : s.Stepped (action :: actions) s' notes :=
  ⟨[], action, actions, s, [], rfl, rfl, h⟩

theorem Stepped.tail {action : Action} {actions : List Action} {s₂ : System} {notes₂ : List Note}
    (h : s.step action = some (s', notes)) (hrest : s'.Stepped actions s₂ notes₂) :
    s.Stepped (action :: actions) s₂ notes₂ := by
  obtain ⟨before, a, after, s₁, notes₁, rfl, hrun, hstep⟩ := hrest
  exact ⟨action :: before, a, after, s₁, notes ++ notes₁, rfl, run_cons_of_step h hrun, hstep⟩

end System

end AppWatch
