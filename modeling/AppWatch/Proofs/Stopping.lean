/-
# To stop is final

Whatever the workers and readers are in the middle of, once the engine is stopped there are none of
them, and none comes back by itself: only a call from outside can have a kind watched.  So all that
is left to happen has to do with the batch queue, the processor behind it and the callers that were
waiting for room in it (`Subsides`, `Halted.subsides`).  A stopped engine stays stopped
(`Halted.step`), and whatever is watched later starts from nothing.

The one thing that has to be ruled out is a call from outside that is about to watch a kind while
the engine is stopped: it goes on afterwards (`System.NoneRegisters`).
-/
import AppWatch.Proofs.Openings
import AppWatch.Proofs.Shipments

namespace AppWatch

/-! ## 1. What a stopped engine can do -/

/-- Whether a note shows a request to the cluster or a batch on its way into the queue. -/
def Note.isDeed : Note → Bool
  | .request _ | .sent _ _ => true
  | _ => false

theorem Note.isDeed_of_isDelivery {n : Note} (h : n.isDelivery = true) : n.isDeed = false := by
  cases n <;> first | rfl | cases h

namespace System

/-- Whether an action is a call from outside. -/
def Action.isCall : Action → Bool
  | .call _ _ => true
  | _ => false

/-- No call from outside is about to watch a kind: those that have not returned wait for room in the
batch queue. -/
def NoneRegisters (s : System) : Prop :=
  ∀ id a, s.callers.get? id = some a → a = .room

/-- The callers that wait for room in the batch queue, with their batches. -/
def outsiders (s : System) : List (Party × Batch) :=
  (s.queue.granted ++ s.queue.waiting).filter fun x => x.1.isCaller

/-- Nothing is watched, and nobody is about to watch anything; whoever waits with a batch is one of
the given callers. -/
structure Halted (outsiders : List (Party × Batch)) (s : System) : Prop where
  watchers : s.registry.watchers = .empty
  callers : s.NoneRegisters
  senders : s.queue.granted ++ s.queue.waiting ⊆ outsiders
  outside : ∀ x ∈ outsiders, x.1.isCaller = true

/-- What may happen while nothing is watched. -/
inductive Subsides (s : System) : Action → System → List Note → Prop where
  /-- A caller uses the room it was given in the queue. -/
  | enters {id : Nat} {q : BoundedQueue Party Batch} (h : s.queue.enter? (.caller id) = some q) :
      Subsides s (.enterQueue (.caller id))
        { s.setQueue q with callers := s.callers.erase id } [.returned id (.ok ())]
  /-- The queue and the callers become fewer at most. -/
  | recedes {s' : System} {action : Action} {notes : List Note}
      (hparty : ∀ gvr, action.party? ≠ some (.worker gvr))
      (hpassing : ∀ gvr, (s.registry.watcherAt gvr).passing gvr action = {})
      (hwatchers : s'.registry.watchers = .empty)
      (hcallers : ∀ id a, s'.callers.get? id = some a → s.callers.get? id = some a)
      (hqueue : s.queue.Recedes s'.queue) (hnotes : ∀ n ∈ notes, n.isDeed = false) :
      Subsides s action s' notes

variable {s s' : System} {action : Action} {notes : List Note} {party : Party} {a : Awaiting}
  {left : List (Party × Batch)}

/-- Where nothing is watched only callers wait, and for room. -/
theorem Halted.awaiting?_eq (h : s.Halted left) (ha : s.awaiting? party = some a) :
    a = .room ∧ ∃ id, party = .caller id := by
  cases party with
  | worker gvr =>
    simp [awaiting?, Registry.watcher?, h.watchers] at ha
  | caller id => exact ⟨h.callers id a ha, id, rfl⟩

/-- A caller that does not wait any more. -/
theorem get?_callers_erase {id id' : Nat} (h : (s.callers.erase id).get? id' = some a) :
    s.callers.get? id' = some a := by
  rw [SortedMap.get?_erase] at h
  split at h
  · cases h
  · exact h

/-- The work that is done while nothing is watched is that of a caller, who is let into the queue or
turned away. -/
theorem Halted.subsides_of_works {o : Outcome} (h : s.Halted left) (hcall : action.isCall = false)
    (hworks : s.Works action party o) :
    Subsides s action (s.conclude party o).1 (s.conclude party o).2 := by
  cases hworks with
  | called _ => cases hcall
  | discovered ha => cases (h.awaiting?_eq ha).1
  | checked ha => cases (h.awaiting?_eq ha).1
  | entered hq =>
    -- No worker is left among the senders, so whoever is let in is a caller.
    obtain ⟨before, b, after, hsenders, -⟩ := BoundedQueue.senders_enter? hq
    have hcaller := h.outside _ (h.senders (hsenders ▸ List.mem_append_right _ List.mem_cons_self))
    cases party with
    | worker gvr => cases hcaller
    | caller id => exact .enters hq
  | refused ha _ =>
    obtain ⟨-, id, rfl⟩ := h.awaiting?_eq ha
    exact .recedes (by simp [Action.party?]) (fun _ => rfl) h.watchers
      (fun _ _ => get?_callers_erase) (.refl _) (by simp [conclude, concludeCaller, Note.isDeed])

/-- **Nothing else can happen while nothing is watched**, until the next call from outside. -/
theorem Halted.subsides (h : s.Halted left) (hcall : action.isCall = false)
    (hstep : s.step action = some (s', notes)) : Subsides s action s' notes := by
  -- Whatever a worker or a reader does needs a watcher.
  have hnone : ∀ gvr {w}, s.registry.watcher? gvr ≠ some w := fun gvr => by
    simp [Registry.watcher?, h.watchers]
  cases hstop : action.stops with
  | true =>
    cases action with
    | stop =>
      cases hstep
      exact .recedes (by simp [Action.party?]) (fun _ => rfl) rfl (fun _ _ => id)
        (s.queue.recedes_keepSenders Party.isCaller) (by simp)
    | stopWatcher gvr =>
      cases hstep
      refine .recedes (by simp [Action.party?]) (fun _ => rfl) ?_ (fun _ _ => id)
        (s.queue.recedes_keepSenders (· ≠ Party.worker gvr)) (by simp)
      change s.registry.watchers.modify gvr Watcher.stop = .empty
      rw [h.watchers]
      rfl
    | _ => cases hstop
  | false =>
    cases step_cases hstep hstop with
    | works hworks => exact h.subsides_of_works hcall hworks
    | begins hw _ => exact absurd hw (hnone _)
    | passes hw _ _ _ => exact absurd hw (hnone _)
    | takes hw _ _ _ => exact absurd hw (hnone _)
    | flows hw _ => exact absurd hw (hnone _)
    | unread hw hstream =>
      refine .recedes ?_ (passing_unread hw hstream) h.watchers (fun _ _ => id) (.refl _) (by simp)
      rcases hstream with rfl | ⟨items, rfl⟩ <;> simp [Action.party?]
    | elsewhere hshifts hcallers =>
      refine .recedes ?_ (fun gvr => passing_of_isElsewhere hshifts.isElsewhere _ gvr) ?_
        (fun id a ha => ?_) hshifts.recedes
        fun n hn => Note.isDeed_of_isDelivery (hshifts.isDelivery n hn)
      · intro gvr
        cases hshifts <;> simp [Action.party?]
      · cases hshifts <;> exact h.watchers
      · rw [hcallers] at ha
        split at ha
        · cases ha
        · exact ha

/-- A stopped engine stays stopped. -/
theorem Halted.step (h : s.Halted left) (hstep : Subsides s action s' notes) :
    s'.Halted left := by
  cases hstep with
  | @enters id q henter =>
    refine ⟨h.watchers, fun id' a ha => h.callers id' a (get?_callers_erase ha), ?_, h.outside⟩
    obtain ⟨before, b, after, hsenders, -, hsenders', -⟩ := BoundedQueue.senders_enter? henter
    intro x hx
    change x ∈ q.granted ++ q.waiting at hx
    refine h.senders ?_
    rw [hsenders'] at hx
    rw [hsenders]
    simp only [List.mem_append, List.mem_cons] at hx ⊢
    tauto
  | recedes _ _ hwatchers hcallers hqueue _ =>
    exact ⟨hwatchers, fun id a ha => h.callers id a (hcallers id a ha),
      fun x hx => h.senders (hqueue.senders.subset hx), h.outside⟩

/-- **A stopped engine stays stopped until the next call from outside.** -/
theorem Halted.run {actions : List Action} (h : s.Halted left)
    (hrun : s.run actions = some (s', notes)) (hcalls : ∀ a ∈ actions, a.isCall = false) :
    s'.Halted left := by
  induction actions generalizing s notes with
  | nil =>
    cases hrun
    exact h
  | cons action actions ih =>
    obtain ⟨hcall, hcalls⟩ := List.forall_mem_cons.mp hcalls
    obtain ⟨s₁, notes₁, notes₂, hstep, hrest, -⟩ := run_cons hrun
    exact ih (h.step (h.subsides hcall hstep)) hrest hcalls

/-- The engine after it was stopped. -/
theorem halted_stop (h : s.NoneRegisters) (hstep : s.step .stop = some (s', notes)) :
    s'.Halted s.outsiders := by
  cases hstep
  refine ⟨rfl, h, fun x hx => ?_, fun x hx => (List.mem_filter.mp hx).2⟩
  rw [outsiders]
  rw [queue, keepParties, setQueue, BoundedQueue.senders_keepSenders] at hx
  exact hx

/-! ## 2. What a stopped engine does not do -/

/-- A step in which no worker has a turn, no event passes through a watcher, no request is made and
no batch is sent.  The queue loses batches at most, unless one comes in with which one of the given
callers was waiting. -/
structure Still (outsiders : List (Party × Batch)) (s : System) (action : Action) (s' : System)
    (notes : List Note) : Prop where
  workers : ∀ gvr, action.party? ≠ some (.worker gvr)
  watchers : ∀ gvr, (s.registry.watcherAt gvr).passing gvr action = {}
  requests : ∀ c, Note.request c ∉ notes
  batches : ∀ party b, Note.sent party b ∉ notes
  queue : s'.queue.items <:+ s.queue.items ∨ ∃ id b, action = .enterQueue (.caller id) ∧
    (.caller id, b) ∈ outsiders ∧ s'.queue.items = s.queue.items ++ [b]

/-- **A stopped engine does nothing of its own.** -/
theorem Halted.still (h : s.Halted left) (hstep : Subsides s action s' notes) :
    Still left s action s' notes := by
  have hnotes : ∀ {n : Note} {notes : List Note}, (∀ x ∈ notes, x.isDeed = false) →
      n.isDeed = true → n ∉ notes := fun hnotes hn hmem =>
    absurd ((hnotes _ hmem).symm.trans hn) (by simp)
  cases hstep with
  | @enters id q henter =>
    have hreturned : ∀ x ∈ [Note.returned id (.ok ())], x.isDeed = false := by simp [Note.isDeed]
    refine ⟨by simp [Action.party?], fun _ => rfl, fun _ => hnotes hreturned rfl,
      fun _ _ => hnotes hreturned rfl, .inr ?_⟩
    obtain ⟨before, b, after, hsenders, -, -, hitems, -⟩ := BoundedQueue.senders_enter? henter
    exact ⟨id, b, rfl,
      h.senders (hsenders ▸ List.mem_append_right _ List.mem_cons_self), hitems⟩
  | recedes hparty hpassing _ _ hqueue hplain =>
    exact ⟨hparty, hpassing, fun _ => hnotes hplain rfl, fun _ _ => hnotes hplain rfl,
      .inl hqueue.items⟩

/-! ## 3. A later start -/

end System

/-- A watcher that has just been made for some scopes: nothing is cached, nothing has come in, and
the worker has nothing to do. -/
structure Watcher.IsNew (w : Watcher) (kind : KindDescriptor) (scopes : List String) : Prop where
  core : w.core = .fresh kind
  inbox : w.inbox = { capacity := inboxRoom }
  readers : ∀ scope, w.readers.get? scope = if scope ∈ scopes then some {} else none

namespace Registry

theorem isNew_openScopes (kind : KindDescriptor) (scopes : List String) :
    (openScopes { kind := kind } scopes).1.IsNew kind scopes where
  core := core_openScopes { kind := kind } scopes
  inbox := (sameIntake_openScopes { kind := kind } scopes).inbox
  readers scope := by
    rw [get?_readers_openScopes]
    exact Option.none_or

end Registry

namespace System

variable {s s' s₀ : System} {notes : List Note}

/-- Where nothing is watched, a start makes the watcher of applications, and no other. -/
theorem exists_start_anew (hwatchers : s.registry.watchers = .empty) (id : Nat) :
    ∃ s' notes w, s.run (.call id (.addToWatch s.registry.applicationKind) ::
        List.replicate (s.registry.scopesFor s.registry.applicationKind).length
          (.checked (.caller id) (.ok ()))) = some (s', notes) ∧
      .returned id (.ok ()) ∈ notes ∧
      w.IsNew s.registry.applicationKind (s.registry.scopesFor s.registry.applicationKind) ∧
      ∀ gvr, s'.registry.watcher? gvr =
        if gvr = s.registry.applicationKind.gvr then some w else none := by
  have hnone : ∀ gvr, s.registry.watcher? gvr = none := fun gvr => by
    simp [Registry.watcher?, hwatchers]
  generalize hkind : s.registry.applicationKind = kind
  have hnew : s.registry.newScopes kind = s.registry.scopesFor kind := by
    rw [Registry.newScopes, hnone]
  generalize s.registry.scopesFor kind = scopes at hnew
  obtain ⟨s', notes, hrun, hregistry, hreturned⟩ := exists_run_checked (s := s) id kind scopes scopes
  have hstep : s.step (.call id (.addToWatch kind)) =
      some (concludeCaller id (s.checkScopes (.caller id) kind scopes scopes .done)) := by
    rw [← hnew]
    rfl
  refine ⟨s', _, _, run_cons_of_step hstep hrun, hreturned,
    Registry.isNew_openScopes kind scopes, fun gvr => ?_⟩
  rw [hregistry, Registry.watcher?_openWatches, hnone, hnone]
  rfl

/-- Whatever is watched after nothing was has cached what the events since have made of nothing. -/
theorem cache_of_unwatched {later : List Action} {gvr : GroupVersionResource} {w : Watcher}
    (hwatchers : s₀.registry.watchers = .empty) (hrun : s₀.run later = some (s', notes))
    (hstop : ∀ a ∈ later, a.stops = false) (hw : s'.registry.watcher? gvr = some w) :
    w.cache = (WatchCache.applyAll {} (s₀.passage gvr later).applied).1 := by
  have hempty : s₀.registry.watcherAt gvr = { kind := ⟨gvr, "", false⟩ } := by
    simp [Registry.watcherAt, Registry.watcher?, hwatchers]
  have hpasses := lossless_run hrun hstop gvr (hempty ▸ Watcher.orderly_empty _)
  rw [Registry.watcherAt_of_watcher? hw, hempty] at hpasses
  exact hpasses.cache

/-- **To stop is final.**  Take any state of the engine, with workers and readers in the middle of
whatever they do, in which no call from outside is about to watch a kind.  The engine can be
stopped, and then the following holds after any further run.

* If there was no call from outside, nothing is watched and nothing is cached.  Whatever happens
  next without one is `Still`: no worker has a turn, no event passes, no request is made, no batch
  is sent, and only a caller who was waiting when the engine was stopped can bring one in; if there
  was none, the queue only loses batches.  A start then makes a new watcher of applications.
* If the engine was not stopped again, each cache is what the events since have made of nothing. -/
theorem stop_is_final (s : System) (hcallers : s.NoneRegisters) :
    ∃ s₀, s.step .stop = some (s₀, []) ∧
      ∀ later s' notes, s₀.run later = some (s', notes) →
        ((∀ a ∈ later, a.isCall = false) →
          s'.registry.watchedKinds = [] ∧ (∀ gvr, s'.registry.watcher? gvr = none) ∧
          (∀ gvr, s'.registry.objects gvr = []) ∧
          (∀ action s'' notes', action.isCall = false →
            s'.step action = some (s'', notes') →
              Still s.outsiders s' action s'' notes' ∧
                (s.outsiders = [] → s''.queue.items <:+ s'.queue.items)) ∧
          ∀ id, ∃ s'' notes' w, s'.run (.call id (.addToWatch s'.registry.applicationKind) ::
              List.replicate (s'.registry.scopesFor s'.registry.applicationKind).length
                (.checked (.caller id) (.ok ()))) = some (s'', notes') ∧
            .returned id (.ok ()) ∈ notes' ∧
            w.IsNew s'.registry.applicationKind
              (s'.registry.scopesFor s'.registry.applicationKind) ∧
            ∀ gvr, s''.registry.watcher? gvr =
              if gvr = s'.registry.applicationKind.gvr then some w else none) ∧
        ((∀ a ∈ later, a.stops = false) →
          ∀ gvr w, s'.registry.watcher? gvr = some w →
            w.cache = (WatchCache.applyAll {} (s₀.passage gvr later).applied).1) := by
  obtain ⟨s₀, hstop⟩ : ∃ s₀, s.step .stop = some (s₀, []) := ⟨_, rfl⟩
  have hhalted := halted_stop hcallers hstop
  refine ⟨s₀, hstop, fun later s' notes hrun => ⟨fun hcalls => ?_, fun hstops gvr w hw =>
    cache_of_unwatched hhalted.watchers hrun hstops hw⟩⟩
  have hstill := hhalted.run hrun hcalls
  have hnone : ∀ gvr, s'.registry.watcher? gvr = none := fun gvr => by
    simp [Registry.watcher?, hstill.watchers]
  refine ⟨by simp [Registry.watchedKinds, hstill.watchers]; rfl, hnone,
    fun gvr => by simp [Registry.objects, hnone], fun action s'' notes' hcall hstep => ?_,
    exists_start_anew hstill.watchers⟩
  have h := hstill.still (hstill.subsides hcall hstep)
  refine ⟨h, fun hnobody => h.queue.resolve_right ?_⟩
  rintro ⟨id, b, -, hmem, -⟩
  rw [hnobody] at hmem
  exact absurd hmem (List.not_mem_nil)

/-- A queue with room for one batch.  A deployment fills it, its update waits for room, and then the
stream fails; an application waits for an answer of discovery. -/
def sampleBusy : List Action :=
  let applications := sampleApplications.gvr
  let deployments := sampleDeployments.gvr
  [.call 0 (.addToWatch sampleApplications), .checked (.caller 0) (.ok ()),
    .permit deployments "default", .call 0 (.addToWatch sampleDeployments),
    .checked (.caller 0) (.ok ()),
    .feed deployments "default" [.event (.apply sampleWeb), .event (.apply sampleWeb),
      .failure .queueClosed],
    .read deployments "default", .read deployments "default", .read deployments "default",
    .take deployments, .take deployments,
    .feed applications "" [.event (.apply sampleShop)], .read applications "", .take applications]

/-- After the stop the pause would be over and room becomes free. -/
def sampleLull : List Action :=
  [.tick 1000, .feed sampleDeployments.gvr "default" [.event .init], .process 0, .tick 10,
    .process 0]

/-- One worker waits for an answer, another for room, and a reader pauses; nobody waits outside. -/
def isBusy (s : System) : Bool :=
  (s.awaiting? (.worker sampleApplications.gvr)).any (fun a => a ≠ .room) &&
    s.awaiting? (.worker sampleDeployments.gvr) = some .room &&
    ((s.registry.watcherAt sampleDeployments.gvr).readers.get? "default").any (fun r =>
      r.state = .pausing 1000) &&
    s.callers.entries.isEmpty && s.outsiders.length = 0 &&
    ((s.step .stop).bind fun r => r.1.run sampleLull).isSome

/-- The sample engine is stopped while it is busy, and then nothing comes back. -/
theorem stop_is_final_busy :
    ∃ s notes s₀ s' notes', (fresh sampleApplications "namespaces" [] 1 10 0).run sampleBusy =
        some (s, notes) ∧
      s.awaiting? (.worker sampleDeployments.gvr) = some .room ∧
      s.step .stop = some (s₀, []) ∧ s₀.run sampleLull = some (s', notes') ∧
      s'.registry.watchedKinds = [] ∧
      ∀ action s'' notes'', action.isCall = false → s'.step action = some (s'', notes'') →
        s''.queue.items <:+ s'.queue.items := by
  have hend : ((fresh sampleApplications "namespaces" [] 1 10 0).run sampleBusy).any
      (fun r => isBusy r.1) = true := by decide
  obtain ⟨⟨s, notes⟩, hrun, hend⟩ := (Option.any_eq_true _ _).mp hend
  simp only [isBusy, Bool.and_eq_true, List.isEmpty_iff, decide_eq_true_eq,
    List.length_eq_zero_iff] at hend
  obtain ⟨⟨⟨⟨⟨-, hroom⟩, -⟩, hcallers⟩, hnobody⟩, hlull⟩ := hend
  have hnone : s.NoneRegisters := fun id a ha => by
    rw [SortedMap.get?_eq_some_iff, hcallers] at ha
    exact absurd ha (List.not_mem_nil)
  obtain ⟨s₀, hstop, hafter⟩ := stop_is_final s hnone
  rw [hstop, Option.bind_some] at hlull
  obtain ⟨⟨s', notes'⟩, hlater⟩ := Option.isSome_iff_exists.mp hlull
  obtain ⟨hkinds, -, -, hstill, -⟩ :=
    (hafter sampleLull s' notes' hlater).1 (by simp [sampleLull, Action.isCall])
  exact ⟨s, notes, s₀, s', notes', hrun, hroom, hstop, hlater, hkinds,
    fun action s'' notes'' hcall hstep => (hstill action s'' notes'' hcall hstep).2 hnobody⟩

end System

end AppWatch
