/-
# What a step of the engine is

A step belongs to one of three sides.  A party may go on with its work until it has to wait again
(`Works`); a reader may act on its stream and its inbox (`Watcher.Flows`); or something happens to
the batch queue and its processor that no watch has to do with (`Pipeline.Shifts`).  `Step` tells
the cases apart with everything they determine (`step_cases`).  This is the one place where the
actions are taken apart: an invariant of the engine needs one argument for each case of `Step` and
none for each action.  Only the two actions that stop watchers are left out.
-/
import AppWatch.Proofs.Windows
import AppWatch.Proofs.Works

namespace AppWatch

/-! ## 1. Readers and streams -/

/-- What happens between a stream of a kind, its reader and the inbox, with what is noted. -/
inductive Watcher.Flows (w : Watcher) (gvr : GroupVersionResource) (now : Nat) :
    System.Action → Watcher → List Note → Prop where
  /-- A stream is over. -/
  | ends {scope : String} {r : Reader} (hr : w.readers.get? scope = some r)
      (hreading : r.state = .reading) (hunread : r.unread = []) (hover : r.isOpen = false) :
      Flows w gvr now (.read gvr scope)
        { w with readers := w.readers.insert scope { r with state := .ended } } []
  /-- A stream has failed, and its reader pauses. -/
  | fails {scope : String} {r : Reader} {f : Failure} {rest : List StreamItem}
      (hr : w.readers.get? scope = some r) (hreading : r.state = .reading)
      (hunread : r.unread = .failure f :: rest) :
      Flows w gvr now (.read gvr scope)
        { w with
          readers := w.readers.insert scope
            { r with
              unread := rest
              failures := min (r.failures + 1) maxFailures
              state := .pausing (now + retryDelay) } }
        (if isReported (min (r.failures + 1) maxFailures) then
          [.notice (.streamFailed w.kind scope (min (r.failures + 1) maxFailures) f)] else [])
  /-- An event goes into the inbox. -/
  | brings {scope : String} {r : Reader} {e : WatchEvent} {rest : List StreamItem}
      {q : BoundedQueue String ScopedEvent} (hr : w.readers.get? scope = some r)
      (hreading : r.state = .reading) (hunread : r.unread = .event e :: rest)
      (hoffer : w.inbox.offer scope ⟨scope, e⟩ = .accepted q) :
      Flows w gvr now (.read gvr scope)
        { w with
          inbox := q
          readers := w.readers.insert scope { r with unread := rest, failures := 0 } } []
  /-- The reader has to wait for room with an event. -/
  | holds {scope : String} {r : Reader} {e : WatchEvent} {rest : List StreamItem}
      {q : BoundedQueue String ScopedEvent} (hr : w.readers.get? scope = some r)
      (hreading : r.state = .reading) (hunread : r.unread = .event e :: rest)
      (hoffer : w.inbox.offer scope ⟨scope, e⟩ = .waits q) :
      Flows w gvr now (.read gvr scope)
        { w with
          inbox := q
          readers := w.readers.insert scope
            { r with unread := rest, failures := 0, state := .holding } } []
  /-- The worker is gone, and the reader gives up. -/
  | gives {scope : String} {r : Reader} {e : WatchEvent} {rest : List StreamItem}
      (hr : w.readers.get? scope = some r) (hreading : r.state = .reading)
      (hunread : r.unread = .event e :: rest)
      (hoffer : w.inbox.offer scope ⟨scope, e⟩ = .refused) :
      Flows w gvr now (.read gvr scope)
        { w with
          readers := w.readers.insert scope
            { r with unread := rest, failures := 0, state := .ended } } []
  /-- A pause is over. -/
  | wakes {scope : String} {r : Reader} {resumes : Nat} (hr : w.readers.get? scope = some r)
      (hpausing : r.state = .pausing resumes) (hover : resumes ≤ now) :
      Flows w gvr now (.wake gvr scope)
        { w with readers := w.readers.insert scope { r with state := .reading } } []
  /-- The reader uses the room it was given. -/
  | enters {scope : String} {q : BoundedQueue String ScopedEvent}
      (henter : w.inbox.enter? scope = some q) :
      Flows w gvr now (.enterInbox gvr scope)
        { w with
          inbox := q
          readers := w.readers.modify scope fun r => { r with state := .reading } } []
  /-- A stream yields items. -/
  | yields {scope : String} {items : List StreamItem} :
      Flows w gvr now (.feed gvr scope items)
        { w with
          readers := w.readers.modify scope fun r =>
            if r.isOpen ∧ r.state ≠ .ended then { r with unread := r.unread ++ items } else r } []
  /-- A stream will yield nothing more. -/
  | closes {scope : String} :
      Flows w gvr now (.endStream gvr scope)
        { w with readers := w.readers.modify scope fun r => { r with isOpen := false } } []

/-- What flows between a stream and the inbox leaves the core as it is. -/
theorem Watcher.Flows.core {w w' : Watcher} {gvr : GroupVersionResource} {now : Nat}
    {action : System.Action} {notes : List Note} (h : w.Flows gvr now action w' notes) :
    w'.core = w.core := by
  cases h <;> rfl

/-- Whether a note is a notice. -/
def Note.isNotice : Note → Bool
  | .notice _ => true
  | _ => false

theorem Note.isPlain_of_isNotice {n : Note} (h : n.isNotice = true) : n.isPlain = true := by
  cases n <;> first | rfl | cases h

theorem Watcher.Flows.isNotice {w w' : Watcher} {gvr : GroupVersionResource} {now : Nat}
    {action : System.Action} {notes : List Note} (h : w.Flows gvr now action w' notes) :
    ∀ n ∈ notes, n.isNotice = true := by
  cases h with
  | fails =>
    split
    · simp [Note.isNotice]
    · simp
  | _ => simp

/-! ## 2. The batch queue and the processor -/

/-- What happens to the processor and its queue while neither a reader nor a party acts, with what
is noted. -/
inductive Pipeline.Shifts (p : Pipeline Party) :
    System.Action → Pipeline Party → List Note → Prop where
  /-- The processor goes on. -/
  | processes {duration : Nat} {p' : Pipeline Party} {call : Option TimedCall}
      (h : p.step (fun _ => duration) = some (p', call)) :
      Shifts p (.process duration) p' (call.toList.map .callback)
  /-- Time passes. -/
  | ticks {ms : Nat} : Shifts p (.tick ms) { p with now := p.now + ms } []
  /-- A caller that has given up does not wait for room any more. -/
  | leaves {id : Nat} :
      Shifts p (.giveUp id)
        { p with queue := p.queue.keepSenders fun sender => sender ≠ .caller id } []
  /-- A namespace is permitted. -/
  | permits {gvr : GroupVersionResource} {ns : String} : Shifts p (.permit gvr ns) p []
  /-- Another receiver takes a batch. -/
  | receives {b : Batch} {q : BoundedQueue Party Batch} (h : p.queue.take? = some (b, q)) :
      Shifts p .receive { p with queue := q } [.received b]
  /-- Nobody receives batches any more. -/
  | closes : Shifts p .closeQueue { p with queue := p.queue.close } []

/-- Whether a note shows what a receiver of batches does. -/
def Note.isDelivery : Note → Bool
  | .callback _ | .received _ => true
  | _ => false

theorem Note.isPlain_of_isDelivery {n : Note} (h : n.isDelivery = true) : n.isPlain = true := by
  cases n <;> first | rfl | cases h

/-- Whether an action has nothing to do with watches and the parties' work. -/
def System.Action.isElsewhere : System.Action → Bool
  | .process _ | .tick _ | .giveUp _ | .permit _ _ | .receive | .closeQueue => true
  | _ => false

namespace Pipeline

variable {p p' : Pipeline Party} {action : System.Action} {notes : List Note}

theorem Shifts.isElsewhere (h : p.Shifts action p' notes) : action.isElsewhere = true := by
  cases h <;> rfl

theorem Shifts.isDelivery (h : p.Shifts action p' notes) : ∀ n ∈ notes, n.isDelivery = true := by
  cases h with
  | @processes _ _ call h => cases call <;> simp [Note.isDelivery]
  | receives => simp [Note.isDelivery]
  | _ => simp

/-- The queue loses batches and senders at most. -/
theorem Shifts.recedes (h : p.Shifts action p' notes) : p.queue.Recedes p'.queue := by
  cases h with
  | processes h =>
    rcases (step_frame h).2 with hq | ⟨b, hq⟩
    · rw [hq]
      exact .refl _
    · exact BoundedQueue.recedes_take? hq
  | @leaves id => exact p.queue.recedes_keepSenders (· ≠ .caller id)
  | receives h => exact BoundedQueue.recedes_take? h
  | closes => exact BoundedQueue.recedes_close _
  | _ => exact .refl _

end Pipeline

/-! ## 3. Steps -/

/-- What is noted of an event that a worker takes. -/
def ScopedEvent.notes (e : ScopedEvent) (kind : KindDescriptor) : List Note :=
  if e.event.isNameless then [.notice (.namelessObject kind)] else []

theorem ScopedEvent.isNotice_notes (e : ScopedEvent) (kind : KindDescriptor) :
    ∀ n ∈ e.notes kind, n.isNotice = true := by
  unfold notes
  split
  · simp [Note.isNotice]
  · simp

namespace System

/-- Whether an action stops a watcher. -/
def Action.stops : Action → Bool
  | .stop | .stopWatcher _ => true
  | _ => false

/-- The state in which a worker has taken an event and faces the changes it makes. -/
def taken (s : System) (gvr : GroupVersionResource) (w : Watcher) (e : ScopedEvent)
    (inbox : BoundedQueue String ScopedEvent) : System :=
  s.setWatcher gvr { w with
    inbox := inbox
    cache := (w.cache.apply e.scope e.event).1
    worker := .facing (w.cache.apply e.scope e.event).2 }

/-- **What a step is.** -/
inductive Step : System → Action → System → List Note → Prop where
  /-- A party goes on with its work. -/
  | works {s : System} {action : Action} {party : Party} {o : Outcome}
      (h : s.Works action party o) :
      Step s action (s.conclude party o).1 (s.conclude party o).2
  /-- A worker begins the change before it. -/
  | begins {s : System} {gvr : GroupVersionResource} {w : Watcher} {e : ResourceEvent}
      {rest : List ResourceEvent} (hw : s.registry.watcher? gvr = some w)
      (hready : w.worker = .ready e rest) :
      Step s (.proceed gvr) (concludeWorker gvr w.kind e rest (s.handle (.worker gvr) w e)).1
        (concludeWorker gvr w.kind e rest (s.handle (.worker gvr) w e)).2
  /-- A worker takes an event that changes nothing. -/
  | passes {s : System} {gvr : GroupVersionResource} {w : Watcher} {e : ScopedEvent}
      {inbox : BoundedQueue String ScopedEvent} (hw : s.registry.watcher? gvr = some w)
      (hidle : w.worker = .idle) (hinbox : w.inbox.take? = some (e, inbox))
      (hchanges : (w.cache.apply e.scope e.event).2 = []) :
      Step s (.take gvr) (s.taken gvr w e inbox) (e.notes w.kind)
  /-- A worker takes an event and begins the first of the changes it makes. -/
  | takes {s s' : System} {gvr : GroupVersionResource} {w : Watcher} {e : ScopedEvent}
      {inbox : BoundedQueue String ScopedEvent} {notes : List Note}
      (hw : s.registry.watcher? gvr = some w) (hidle : w.worker = .idle)
      (hinbox : w.inbox.take? = some (e, inbox))
      (after : Step (s.taken gvr w e inbox) (.proceed gvr) s' notes) :
      Step s (.take gvr) s' (e.notes w.kind ++ notes)
  /-- A reader or its stream acts. -/
  | flows {s : System} {action : Action} {gvr : GroupVersionResource} {w w' : Watcher}
      {notes : List Note} (hw : s.registry.watcher? gvr = some w)
      (h : w.Flows gvr s.pipeline.now action w' notes) : Step s action (s.setWatcher gvr w') notes
  /-- A stream that nobody reads acts. -/
  | unread {s : System} {action : Action} {gvr : GroupVersionResource} {scope : String}
      (hw : s.registry.watcher? gvr = none)
      (h : action = .endStream gvr scope ∨ ∃ items, action = .feed gvr scope items) :
      Step s action s []
  /-- Something happens elsewhere; at most a namespace is permitted or a call given up. -/
  | elsewhere {s : System} {action : Action} {pipeline : Pipeline Party}
      {callers : SortedMap Nat Awaiting} {notes : List Note}
      (h : s.pipeline.Shifts action pipeline notes)
      (hcallers : ∀ id, callers.get? id =
        if action.party? = some (.caller id) then none else s.callers.get? id) :
      Step s action
        ⟨(s.registry.growAll (s.growth action)).1, pipeline, callers⟩ notes

variable {s s' : System} {gvr : GroupVersionResource} {scope : String} {notes : List Note}

theorem step_read (h : s.read gvr scope = some (s', notes)) :
    Step s (.read gvr scope) s' notes := by
  obtain ⟨w, hw, h⟩ := Option.bind_eq_some_iff.mp h
  obtain ⟨r, hr, h⟩ := Option.bind_eq_some_iff.mp h
  simp only at h
  split at h
  · cases h
  · next hreading =>
    have hreading : r.state = .reading := Decidable.not_not.mp hreading
    split at h
    · next hunread =>
      split at h
      · cases h
      · next hover =>
        cases h
        exact .flows hw (.ends hr hreading hunread (Bool.not_eq_true _ ▸ hover))
    · next f rest hunread =>
      cases h
      exact .flows hw (.fails hr hreading hunread)
    · next e rest hunread =>
      split at h
      · next q hoffer =>
        cases h
        exact .flows hw (.brings hr hreading hunread hoffer)
      · next q hoffer =>
        cases h
        exact .flows hw (.holds hr hreading hunread hoffer)
      · next hoffer =>
        cases h
        exact .flows hw (.gives hr hreading hunread hoffer)

theorem step_wake (h : s.wake gvr scope = some s') : Step s (.wake gvr scope) s' [] := by
  obtain ⟨w, hw, h⟩ := Option.bind_eq_some_iff.mp h
  obtain ⟨r, hr, h⟩ := Option.bind_eq_some_iff.mp h
  split at h
  · next resumes hpausing =>
    split at h
    · next hover =>
      cases h
      exact .flows hw (.wakes hr hpausing hover)
    · cases h
  · cases h

theorem step_enterInbox (h : s.enterInbox gvr scope = some s') :
    Step s (.enterInbox gvr scope) s' [] := by
  obtain ⟨w, hw, h⟩ := Option.bind_eq_some_iff.mp h
  obtain ⟨q, henter, h⟩ := Option.bind_eq_some_iff.mp h
  cases h
  exact .flows hw (.enters henter)

theorem step_proceed (h : s.proceed gvr = some (s', notes)) : Step s (.proceed gvr) s' notes := by
  obtain ⟨w, hw, h⟩ := Option.bind_eq_some_iff.mp h
  split at h
  · next e rest hready =>
    obtain ⟨rfl, rfl⟩ := Prod.ext_iff.mp (Option.some.inj h)
    exact .begins hw hready
  · cases h

theorem step_take (h : s.take gvr = some (s', notes)) : Step s (.take gvr) s' notes := by
  obtain ⟨w, hw, h⟩ := Option.bind_eq_some_iff.mp h
  simp only at h
  split at h
  · cases h
  · next hidle =>
    have hidle : w.worker = .idle := Decidable.not_not.mp hidle
    obtain ⟨⟨e, q⟩, hinbox, h⟩ := Option.bind_eq_some_iff.mp h
    simp only at h
    split at h
    · next hproceed =>
      cases h
      refine .passes hw hidle hinbox ?_
      cases hchanges : (w.cache.apply e.scope e.event).2 with
      | nil => rfl
      | cons change rest =>
        simp only [proceed, setWatcher, Registry.watcher?, SortedMap.get?_insert_self, hchanges,
          Worker.facing, Option.bind_eq_bind, Option.bind_some] at hproceed
        cases hproceed
    · next s'' more hproceed =>
      cases h
      exact .takes hw hidle hinbox (step_proceed (s := s.taken gvr w e q) hproceed)

theorem step_modifyReader {w : Watcher} {action : Action} {f : Reader → Reader}
    (hw : s.registry.watcher? gvr = some w)
    (h : w.Flows gvr s.pipeline.now action { w with readers := w.readers.modify scope f } []) :
    Step s action (s.modifyReader gvr scope f) [] := by
  have hflows := Step.flows hw h
  simp only [modifyReader, hw]
  exact hflows

/-- **Every step of a running engine is one of these.** -/
theorem step_cases {action : Action} (h : s.step action = some (s', notes))
    (hrun : action.stops = false) : Step s action s' notes := by
  cases action with
  | read gvr scope => exact step_read h
  | wake gvr scope =>
    obtain ⟨s'', hwake, heq⟩ := Option.map_eq_some_iff.mp h
    cases heq
    exact step_wake hwake
  | enterInbox gvr scope =>
    obtain ⟨s'', henter, heq⟩ := Option.map_eq_some_iff.mp h
    cases heq
    exact step_enterInbox henter
  | take gvr => exact step_take h
  | proceed gvr => exact step_proceed h
  | discovered party reply =>
    simp only [step] at h
    split at h
    · next a c rest next ha =>
      obtain ⟨rfl, rfl⟩ := Prod.ext_iff.mp (Option.some.inj h)
      exact .works (.discovered ha)
    · cases h
  | checked party reply =>
    simp only [step] at h
    split at h
    · next kind scopes scope rest next ha =>
      obtain ⟨rfl, rfl⟩ := Prod.ext_iff.mp (Option.some.inj h)
      exact .works (.checked ha)
    · cases h
  | enterQueue party =>
    simp only [step] at h
    split at h
    · next q hq =>
      obtain ⟨rfl, rfl⟩ := Prod.ext_iff.mp (Option.some.inj h)
      exact .works (.entered hq)
    · cases h
  | refuse party =>
    simp only [step] at h
    split at h
    · next ha =>
      obtain ⟨rfl, rfl⟩ := Prod.ext_iff.mp (Option.some.inj h)
      exact .works (.refused ha.1 ha.2)
    · cases h
  | call id c =>
    obtain ⟨o, ho, heq⟩ := Option.map_eq_some_iff.mp h
    obtain ⟨rfl, rfl⟩ := Prod.ext_iff.mp heq
    exact .works (.called ho)
  | feed gvr scope items =>
    cases h
    cases hw : s.registry.watcher? gvr with
    | some w => exact step_modifyReader hw .yields
    | none =>
      simp only [modifyReader, hw]
      exact .unread hw (.inr ⟨items, rfl⟩)
  | endStream gvr scope =>
    cases h
    cases hw : s.registry.watcher? gvr with
    | some w => exact step_modifyReader hw .closes
    | none =>
      simp only [modifyReader, hw]
      exact .unread hw (.inl rfl)
  | process duration =>
    simp only [step] at h
    split at h
    · next p call hp =>
      cases h
      exact .elsewhere (.processes hp) fun _ => rfl
    · cases h
  | tick ms =>
    cases h
    exact .elsewhere .ticks fun _ => rfl
  | giveUp id =>
    cases h
    refine .elsewhere .leaves fun id' => ?_
    simp only [Action.party?, Option.some.injEq, Party.caller.injEq]
    rw [SortedMap.get?_erase]
    exact if_congr eq_comm rfl rfl
  | permit gvr ns =>
    cases h
    exact .elsewhere .permits fun _ => rfl
  | receive =>
    simp only [step] at h
    split at h
    · next b q hq =>
      cases h
      exact .elsewhere (.receives hq) fun _ => rfl
    · cases h
  | closeQueue =>
    cases h
    exact .elsewhere .closes fun _ => rfl
  | stopWatcher gvr => exact absurd hrun (by simp [Action.stops])
  | stop => exact absurd hrun (by simp [Action.stops])

/-- A worker that goes on begins the change before it. -/
theorem Step.begun (h : Step s (.proceed gvr) s' notes) :
    ∃ w e rest, s.registry.watcher? gvr = some w ∧ w.worker = .ready e rest ∧
      (s', notes) = concludeWorker gvr w.kind e rest (s.handle (.worker gvr) w e) := by
  cases h with
  | works h => cases h
  | begins hw hready => exact ⟨_, _, _, hw, hready, rfl⟩
  | flows _ h => cases h
  | unread _ h => rcases h with h | ⟨items, h⟩ <;> cases h
  | elsewhere h => cases h

/-- Only who waits for discovery is given its answer. -/
theorem Step.discovered {party : Party} {reply : Except Failure (Option KindDescriptor)}
    (h : Step s (.discovered party reply) s' notes) :
    ∃ a c rest next, s.awaiting? party = some (.discovery a c rest next) ∧
      (s', notes) = s.conclude party (s.onDiscovery party a c rest next reply) := by
  cases h with
  | works h =>
    cases h with
    | discovered ha => exact ⟨_, _, _, _, ha, rfl⟩
  | flows _ h => cases h
  | unread _ h => rcases h with h | ⟨items, h⟩ <;> cases h
  | elsewhere h => cases h

/-- Only who waits for a check is given its answer. -/
theorem Step.checked {party : Party} {reply : Except Failure Unit}
    (h : Step s (.checked party reply) s' notes) :
    ∃ kind scopes scope rest next, s.awaiting? party = some (.access kind scopes scope rest next) ∧
      (s', notes) = s.conclude party (s.onAccess party kind scopes scope rest next reply) := by
  cases h with
  | works h =>
    cases h with
    | checked ha => exact ⟨_, _, _, _, _, ha, rfl⟩
  | flows _ h => cases h
  | unread _ h => rcases h with h | ⟨items, h⟩ <;> cases h
  | elsewhere h => cases h

/-- Whether an action is that of a reader. -/
def Action.isReaders : Action → Bool
  | .read _ _ | .wake _ _ | .enterInbox _ _ => true
  | _ => false

/-- What a reader does, it does between its stream and the inbox. -/
theorem Step.exists_flows {action : Action} (h : Step s action s' notes)
    (hreader : action.isReaders = true) :
    ∃ g w w', s.registry.watcher? g = some w ∧ w.Flows g s.pipeline.now action w' notes ∧
      s' = s.setWatcher g w' := by
  cases h with
  | works h => cases h <;> cases hreader
  | flows hw h => exact ⟨_, _, _, hw, h, rfl⟩
  | unread _ h => rcases h with rfl | ⟨items, rfl⟩ <;> cases hreader
  | elsewhere h => cases h <;> cases hreader
  | _ => cases hreader

end System

end AppWatch
