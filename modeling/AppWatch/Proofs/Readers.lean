/-
# One reader among the others

Seen from the reader of one scope, nearly all that happens in the engine is nothing: other readers
act, workers take events, the registry grows.  What is left are nine things that can happen to it
(`Reader.Turn`), each with what comes to its diary: what its stream has given, what it has read and
when, what it has sent.  Every step is one of them or none (`takesTurn_of_step`), so what is said
about a reader needs one argument for each, however the engine goes on around it.

Who waits for room in the inbox is orderly as long as the inbox is open (`Watcher.Orderly`).  A
watcher that was stopped keeps a closed one, and readers that are opened for it later find nobody
there (`Watcher.Shut`).  No watcher is ever anything else (`Kept`).
-/
import AppWatch.Proofs.Conveyance
import AppWatch.Proofs.Deeds
import AppWatch.Proofs.Shipments
import AppWatch.Proofs.Timing

namespace AppWatch

/-! ## 1. The clock -/

/-- To send a batch takes no time. -/
theorem Outcome.Posts.now_eq {s : System} {party : Party} {o : Outcome} {b : Batch}
    {final? : Option (KindDescriptor × Change ClusterObject)} (h : Posts s party final? o b) :
    o.system.pipeline.now = s.pipeline.now := by
  rcases h.pipeline with ⟨-, hp⟩ | ⟨-, q, -, hp⟩ <;> rw [hp]

theorem Pipeline.Shifts.now_le {p p' : Pipeline Party} {action : System.Action}
    {notes : List Note} (h : p.Shifts action p' notes) : p.now ≤ p'.now := by
  cases h with
  | processes h => exact Nat.le_of_eq (Pipeline.advance_of_step h).now_eq.symm
  | ticks => exact Nat.le_add_right _ _
  | _ => exact Nat.le_refl _

namespace System

variable {s s' : System} {action : Action} {party : Party} {o : Outcome} {notes : List Note}

theorem now_begin {id : Nat} {c : Call} (h : s.begin id c = some o) :
    o.system.pipeline.now = s.pipeline.now := by
  cases c with
  | addToWatch _ | watchComponents _ =>
    obtain ⟨b, hposts⟩ := begin_posts h rfl
    exact hposts.now_eq
  | handleApplication gvr e =>
    obtain ⟨w, -, rfl⟩ := Option.map_eq_some_iff.mp h
    obtain ⟨b, hposts⟩ := s.handleApplication_posts (.caller id) w.kind w.cache e
    exact hposts.now_eq
  | handleResource gvr e =>
    obtain ⟨w, -, rfl⟩ := Option.map_eq_some_iff.mp h
    have hposts : ∃ b, Outcome.Posts s (.caller id) (some (w.kind, w.cache.latestChange e))
        (s.sendChange (.caller id) w.kind (w.cache.latestChange e) Batch.ofResourceChange) b :=
      s.sendChange_posts (.caller id) fun _ _ => .inl rfl
    obtain ⟨b, hposts⟩ := hposts
    exact hposts.now_eq
  | send b =>
    cases h
    unfold send
    split
    · rfl
    · split <;> rfl

theorem Works.now_eq (h : s.Works action party o) : o.system.pipeline.now = s.pipeline.now := by
  cases h with
  | called h => exact now_begin h
  | @discovered party a c rest next reply h =>
    obtain ⟨b, hposts⟩ := s.onDiscovery_posts party a c rest next reply
    exact hposts.now_eq
  | @checked party kind scopes scope rest next reply h =>
    obtain ⟨b, hposts⟩ := s.onAccess_posts party kind scopes scope rest next reply
    exact hposts.now_eq
  | entered h => rfl
  | refused h hclosed => rfl

theorem pipeline_conclude (s : System) (party : Party) (o : Outcome) :
    (s.conclude party o).1.pipeline = o.system.pipeline := by
  unfold conclude
  split
  · exact pipeline_concludeCaller _ o
  · split
    · exact pipeline_concludeWorker ..
    · rfl

theorem Step.now_le (h : Step s action s' notes) : s.pipeline.now ≤ s'.pipeline.now := by
  induction h with
  | works h => exact Nat.le_of_eq (by rw [pipeline_conclude, h.now_eq])
  | @begins s gvr w e rest hw hready =>
    obtain ⟨b, hposts⟩ := s.handle_posts (.worker gvr) w e
    exact Nat.le_of_eq (by rw [pipeline_concludeWorker, hposts.now_eq])
  | takes _ _ _ _ ih => exact ih
  | elsewhere h => exact h.now_le
  | _ => exact Nat.le_refl _

/-- **The clock is never put back.** -/
theorem now_le_of_step (h : s.step action = some (s', notes)) :
    s.pipeline.now ≤ s'.pipeline.now := by
  cases hstop : action.stops with
  | true =>
    obtain ⟨keep, hp⟩ := pipeline_of_stops h hstop
    exact Nat.le_of_eq (congrArg Pipeline.now hp).symm
  | false => exact (step_cases h hstop).now_le

end System

/-! ## 2. What leaves readers alone -/

/-- Every reader of a watcher and everybody who waits for room is as before; events have gone from
the front of the inbox at most. -/
structure Watcher.Spares (w w' : Watcher) : Prop where
  kind : w'.kind = w.kind
  readers : ∀ scope r, w.readers.get? scope = some r → w'.readers.get? scope = some r
  items : w'.inbox.items <:+ w.inbox.items
  senders : w'.inbox.granted ++ w'.inbox.waiting = w.inbox.granted ++ w.inbox.waiting
  closed : w'.inbox.closed = w.inbox.closed

theorem Watcher.Spares.refl (w : Watcher) : w.Spares w :=
  ⟨rfl, fun _ _ hr => hr, List.suffix_refl _, rfl, rfl⟩

theorem Watcher.Spares.trans {w w' w'' : Watcher} (h : w.Spares w') (h' : w'.Spares w'') :
    w.Spares w'' where
  kind := h'.kind.trans h.kind
  readers scope r hr := h'.readers scope r (h.readers scope r hr)
  items := h'.items.trans h.items
  senders := h'.senders.trans h.senders
  closed := h'.closed.trans h.closed

namespace Registry

variable {r r' r'' : Registry} {g : GroupVersionResource} {w w' : Watcher}

/-- A registry has every watcher of another, with its readers left alone. -/
def Spares (r r' : Registry) : Prop :=
  ∀ gvr w, r.watcher? gvr = some w → ∃ w', r'.watcher? gvr = some w' ∧ w.Spares w'

theorem Spares.refl (r : Registry) : r.Spares r := fun _ w hw => ⟨w, hw, .refl w⟩

theorem Spares.trans (h : r.Spares r') (h' : r'.Spares r'') : r.Spares r'' := by
  intro gvr w hw
  obtain ⟨w', hw', hspares⟩ := h gvr w hw
  obtain ⟨w'', hw'', hspares'⟩ := h' gvr w' hw'
  exact ⟨w'', hw'', hspares.trans hspares'⟩

theorem spares_growAll (r : Registry) (gs : List Growth) : r.Spares (r.growAll gs).1 := by
  intro gvr w hw
  obtain ⟨w', hw', hkind, hreaders⟩ := r.keeps_growAll gs gvr w hw
  have hsame := r.sameIntake_growAll gs gvr
  rw [watcherAt_of_watcher? hw, watcherAt_of_watcher? hw'] at hsame
  have hinbox : w'.inbox = w.inbox := hsame.inbox
  exact ⟨w', hw', hkind, hreaders, hinbox ▸ List.suffix_refl _, by rw [hinbox], by rw [hinbox]⟩

theorem spares_insert (hw : r.watcher? g = some w) (h : w.Spares w') :
    r.Spares { r with watchers := r.watchers.insert g w' } := by
  intro gvr v hv
  rw [watcher?_insert]
  by_cases hg : gvr = g
  · rw [hg, hw] at hv
    obtain rfl := Option.some.inj hv
    exact ⟨w', if_pos hg, h⟩
  · exact ⟨v, (if_neg hg).trans hv, .refl v⟩

end Registry

namespace System

variable {s s' : System} {action : Action} {party : Party} {o : Outcome} {notes : List Note}
  {g : GroupVersionResource} {w : Watcher}

theorem spares_setWorker (s : System) (g : GroupVersionResource) (worker : Worker) :
    s.registry.Spares (s.setWorker g worker).registry := by
  unfold setWorker
  split
  · exact .refl _
  · next w hw =>
    exact Registry.spares_insert hw ⟨rfl, fun _ _ hr => hr, List.suffix_refl _, rfl, rfl⟩

theorem spares_taken {e : ScopedEvent} {inbox : BoundedQueue String ScopedEvent}
    (hw : s.registry.watcher? g = some w) (hinbox : w.inbox.take? = some (e, inbox)) :
    s.registry.Spares (s.taken g w e inbox).registry := by
  obtain ⟨hitems, -, hclosed⟩ := BoundedQueue.take?_eq_some hinbox
  refine Registry.spares_insert hw ⟨rfl, fun _ _ hr => hr, ?_, ?_, hclosed⟩
  · rw [hitems]
    exact List.suffix_cons e inbox.items
  · exact (BoundedQueue.senders_take? hinbox).1

theorem Works.spares (h : s.Works action party o) :
    s.registry.Spares (s.conclude party o).1.registry := by
  have hgrown : s.registry.Spares o.system.registry := by
    rw [h.grows.registry]
    exact s.registry.spares_growAll _
  refine hgrown.trans ?_
  cases party with
  | caller id =>
    change o.system.registry.Spares (concludeCaller id o).1.registry
    rw [registry_concludeCaller]
    exact .refl _
  | worker gvr =>
    unfold conclude
    simp only
    split
    · rw [concludeWorker_system]
      exact spares_setWorker _ _ _
    · exact .refl _

/-- Nothing is given to a reader and nothing is read in an action. -/
def Action.PassesBy (action : Action) (s : System) : Prop :=
  ∀ gvr scope, ((s.registry.watcherAt gvr).passing gvr action).given scope = [] ∧
    ((s.registry.watcherAt gvr).passing gvr action).yielded scope = []

theorem passesBy_of_empty (h : ∀ gvr, (s.registry.watcherAt gvr).passing gvr action = {}) :
    action.PassesBy s := by
  intro gvr scope
  rw [h]
  exact ⟨rfl, rfl⟩

/-- **A step leaves all readers alone, or a reader or its stream acts.** -/
theorem Step.spares_or_flows (h : Step s action s' notes) :
    s.registry.Spares s'.registry ∧ action.PassesBy s ∨
      ∃ g w w', s.registry.watcher? g = some w ∧ w.Flows g s.pipeline.now action w' notes ∧
        s' = s.setWatcher g w' := by
  induction h with
  | works h => exact .inl ⟨h.spares, passesBy_of_empty fun gvr => h.passing _ gvr⟩
  | @begins s g w e rest hw hready =>
    refine .inl ⟨?_, fun gvr scope => ?_⟩
    · rw [concludeWorker_system]
      refine Registry.Spares.trans ?_ (spares_setWorker _ _ _)
      rw [(s.handle_grows (.worker g) w e).registry]
      exact s.registry.spares_growAll _
    · rw [passing_proceed hw]
      split <;> exact ⟨rfl, rfl⟩
  | passes hw hidle hinbox _ =>
    refine .inl ⟨spares_taken hw hinbox, fun gvr scope => ?_⟩
    rw [passing_take hw hinbox]
    split <;> exact ⟨rfl, rfl⟩
  | takes hw hidle hinbox _ ih =>
    refine .inl ⟨?_, fun gvr scope => ?_⟩
    · rcases ih with ⟨hspares, -⟩ | ⟨g', v, v', -, hflows, -⟩
      · exact (spares_taken hw hinbox).trans hspares
      · cases hflows
    · rw [passing_take hw hinbox]
      split <;> exact ⟨rfl, rfl⟩
  | @flows s action g w w' notes hw h => exact .inr ⟨g, w, w', hw, h, rfl⟩
  | unread hw h => exact .inl ⟨.refl _, passesBy_of_empty fun gvr => passing_unread hw h gvr⟩
  | elsewhere h =>
    exact .inl ⟨Registry.spares_growAll _ _,
      passesBy_of_empty fun gvr => passing_of_isElsewhere h.isElsewhere _ gvr⟩

end System

/-! ## 3. Open inboxes and closed ones -/

namespace Watcher

variable {w w' : Watcher}

/-- The inbox is closed, and nobody waits for room in it. -/
structure Shut (w : Watcher) : Prop where
  closed : w.inbox.closed = true
  senders : w.inbox.granted ++ w.inbox.waiting = []

/-- The inbox of a watcher is open and in order, or closed for good. -/
def Kept (w : Watcher) : Prop := w.Orderly ∨ w.Shut

theorem Shut.held (h : w.Shut) (scope : String) : w.held scope = [] := by
  rw [Watcher.held, h.senders]
  rfl

theorem Shut.enter? (h : w.Shut) (scope : String) : w.inbox.enter? scope = none := by
  have hgranted : w.inbox.granted = [] := (List.append_eq_nil_iff.mp h.senders).1
  simp [BoundedQueue.enter?, hgranted]

theorem Shut.of_spares (h : w.Shut) (hspares : w.Spares w') : w'.Shut :=
  ⟨hspares.closed.trans h.closed, hspares.senders.trans h.senders⟩

/-- A closed inbox refuses what is offered. -/
theorem Shut.offer (h : w.Shut) (scope : String) (e : ScopedEvent) :
    w.inbox.offer scope e = .refused := by
  rw [BoundedQueue.offer, if_pos h.closed]

theorem Shut.of_flows {gvr : GroupVersionResource} {now : Nat} {action : System.Action}
    {notes : List Note} (h : w.Shut) (hflows : w.Flows gvr now action w' notes) : w'.Shut := by
  cases hflows with
  | brings _ _ _ hoffer => cases (h.offer _ _).symm.trans hoffer
  | holds _ _ _ hoffer => cases (h.offer _ _).symm.trans hoffer
  | enters henter => cases (h.enter? _).symm.trans henter
  | _ => exact ⟨h.closed, h.senders⟩

end Watcher

namespace System

variable {s s' : System} {action : Action} {notes : List Note}

/-- Every watcher is kept, and a kind that is not watched has an empty one. -/
def Kept (s : System) : Prop := ∀ gvr, (s.registry.watcherAt gvr).Kept

theorem Kept.step (h : s.Kept) (hstep : s.step action = some (s', notes)) : s'.Kept := by
  intro gvr
  cases hstop : action.stops with
  | true =>
    cases action with
    | stop =>
      cases hstep
      exact .inl (Watcher.orderly_empty _)
    | stopWatcher g =>
      cases hstep
      change ((s.registry.stopWatcher g).watcherAt gvr).Kept
      rw [Registry.watcherAt, Registry.watcher?_stopWatcher]
      split
      · cases s.registry.watcher? g with
        | none => exact .inl (Watcher.orderly_empty _)
        | some w => exact .inr ⟨rfl, rfl⟩
      · exact h gvr
    | _ => cases hstop
  | false =>
    have hcases := step_cases hstep hstop
    rcases h gvr with ho | hshut
    · exact .inl (hcases.lossless gvr ho).orderly
    · -- a watcher that is missing is not shut
      cases hw : s.registry.watcher? gvr with
      | none =>
        have hopen : (s.registry.watcherAt gvr).inbox.closed = false := by
          rw [Registry.watcherAt, hw]
          rfl
        cases hopen.symm.trans hshut.closed
      | some w =>
        rw [Registry.watcherAt_of_watcher? hw] at hshut
        refine .inr ?_
        rcases hcases.spares_or_flows with ⟨hspares, -⟩ | ⟨g, v, v', hv, hflows, rfl⟩
        · obtain ⟨w', hw', hspares⟩ := hspares gvr w hw
          rw [Registry.watcherAt_of_watcher? hw']
          exact hshut.of_spares hspares
        · rw [setWatcher, Registry.watcherAt_insert]
          by_cases hg : gvr = g
          · rw [if_pos hg]
            rw [← hg, hw] at hv
            obtain rfl := Option.some.inj hv
            exact hshut.of_flows hflows
          · rw [if_neg hg, Registry.watcherAt_of_watcher? hw]
            exact hshut

theorem Kept.run {actions : List Action} (h : s.Kept) (hrun : s.run actions = some (s', notes)) :
    s'.Kept := by
  induction actions generalizing s notes with
  | nil =>
    cases hrun
    exact h
  | cons action actions ih =>
    obtain ⟨s₁, notes₁, notes₂, hstep, hrest, -⟩ := run_cons hrun
    exact ih (h.step hstep) hrest

end System

/-! ## 4. The diary of a reader -/

/-- An item that a reader has read: when, and what was noted at that. -/
structure StreamReading where
  time : Nat
  item : StreamItem
  notes : List Note

/-- What is to be told of a reader. -/
structure Diary where
  /-- What its stream was given. -/
  given : List StreamItem := []
  /-- What it has read. -/
  readings : List StreamReading := []
  /-- What it has put into the inbox. -/
  sent : List WatchEvent := []

namespace Diary

instance : Append Diary :=
  ⟨fun d e => ⟨d.given ++ e.given, d.readings ++ e.readings, d.sent ++ e.sent⟩⟩

@[simp] theorem mk_append_mk (gs hs : List StreamItem) (xs ys : List StreamReading)
    (es fs : List WatchEvent) :
    (⟨gs, xs, es⟩ : Diary) ++ (⟨hs, ys, fs⟩ : Diary) = ⟨gs ++ hs, xs ++ ys, es ++ fs⟩ := rfl

@[simp] theorem append_empty (d : Diary) : d ++ ({} : Diary) = d := by
  obtain ⟨_, _, _⟩ := d
  simp

@[simp] theorem empty_append (d : Diary) : ({} : Diary) ++ d = d := rfl

@[simp] theorem readings_append (d e : Diary) : (d ++ e).readings = d.readings ++ e.readings := rfl

theorem append_assoc (d e f : Diary) : d ++ e ++ f = d ++ (e ++ f) := by
  obtain ⟨_, _, _⟩ := d
  obtain ⟨_, _, _⟩ := e
  obtain ⟨_, _, _⟩ := f
  simp

/-- The items that the reader has read. -/
def items (d : Diary) : List StreamItem := d.readings.map StreamReading.item

end Diary

/-- What an action that makes one watcher of another adds to the diary of a scope's reader. -/
def Watcher.entry (w w' : Watcher) (gvr : GroupVersionResource) (scope : String) (now : Nat)
    (action : System.Action) (notes : List Note) : Diary where
  given := (w.passing gvr action).given scope
  readings := ((w.passing gvr action).yielded scope).map (⟨now, ·, notes⟩)
  sent := ScopedEvent.within scope (w'.inbox.items.drop w.inbox.items.length)

/-- What a reader notes when its stream has failed so many times in a row. -/
def Reader.report (kind : KindDescriptor) (scope : String) (count : Nat) (f : Failure) :
    List Note :=
  if isReported count then [.notice (.streamFailed kind scope count f)] else []

/-- What happens to a reader with the events that it holds, and what its diary says of it. -/
inductive Reader.Turn (kind : KindDescriptor) (scope : String) (now : Nat) (closed : Bool)
    (r : Reader) (held : List WatchEvent) : Diary → Reader → List WatchEvent → Prop
  /-- Others act. -/
  | rests : Turn kind scope now closed r held {} r held
  /-- The stream has failed. -/
  | fails {f : Failure} {rest : List StreamItem} (hreading : r.state = .reading)
      (hunread : r.unread = .failure f :: rest) :
      Turn kind scope now closed r held
        { readings := [⟨now, .failure f, report kind scope (min (r.failures + 1) maxFailures) f⟩] }
        { r with
          unread := rest
          failures := min (r.failures + 1) maxFailures
          state := .pausing (now + retryDelay) } held
  /-- An event goes into the inbox. -/
  | sends {e : WatchEvent} {rest : List StreamItem} (hreading : r.state = .reading)
      (hunread : r.unread = .event e :: rest) (hopen : closed = false) (hnone : held = []) :
      Turn kind scope now closed r held { readings := [⟨now, .event e, []⟩], sent := [e] }
        { r with unread := rest, failures := 0 } []
  /-- The reader has to wait for room. -/
  | holds {e : WatchEvent} {rest : List StreamItem} (hreading : r.state = .reading)
      (hunread : r.unread = .event e :: rest) (hopen : closed = false) (hnone : held = []) :
      Turn kind scope now closed r held { readings := [⟨now, .event e, []⟩] }
        { r with unread := rest, failures := 0, state := .holding } [e]
  /-- The inbox is closed, and the reader gives up. -/
  | gives {e : WatchEvent} {rest : List StreamItem} (hreading : r.state = .reading)
      (hunread : r.unread = .event e :: rest) (hclosed : closed = true) :
      Turn kind scope now closed r held { readings := [⟨now, .event e, []⟩] }
        { r with unread := rest, failures := 0, state := .ended } held
  /-- A pause is over. -/
  | wakes {resumes : Nat} (hpausing : r.state = .pausing resumes) (hover : resumes ≤ now) :
      Turn kind scope now closed r held {} { r with state := .reading } held
  /-- The event that was held goes into the inbox. -/
  | enters {e : WatchEvent} (hholding : r.state = .holding) (hheld : held = [e])
      (hopen : closed = false) :
      Turn kind scope now closed r held { sent := [e] } { r with state := .reading } []
  /-- The stream is over. -/
  | ends (hreading : r.state = .reading) (hunread : r.unread = []) (hover : r.isOpen = false) :
      Turn kind scope now closed r held {} { r with state := .ended } held
  /-- The stream yields items. -/
  | yields {items : List StreamItem} (hopen : r.isOpen = true) (hlistening : r.state ≠ .ended) :
      Turn kind scope now closed r held { given := items }
        { r with unread := r.unread ++ items } held
  /-- The stream will yield nothing more. -/
  | closes : Turn kind scope now closed r held {} { r with isOpen := false } held

/-- The scope whose reader or stream acts. -/
def System.Action.scope? : System.Action → Option String
  | .read _ scope | .wake _ scope | .enterInbox _ scope | .feed _ scope _
  | .endStream _ scope => some scope
  | _ => none

namespace Watcher

variable {w w' : Watcher} {gvr : GroupVersionResource} {scope other : String} {now : Nat}
  {action : System.Action} {notes : List Note} {r r' : Reader} {d : Diary}
  {held : List WatchEvent}

/-- The reader of a scope is there after an action, and that was its turn. -/
def HasTurn (w w' : Watcher) (gvr : GroupVersionResource) (scope : String) (now : Nat)
    (action : System.Action) (notes : List Note) (r : Reader) : Prop :=
  ∃ r', w'.readers.get? scope = some r' ∧
    r.Turn w.kind scope now w.inbox.closed (w.held scope)
      (w.entry w' gvr scope now action notes) r' (w'.held scope)

theorem HasTurn.of_entry (hr' : w'.readers.get? scope = some r')
    (hentry : w.entry w' gvr scope now action notes = d) (hheld : w'.held scope = held)
    (hturn : r.Turn w.kind scope now w.inbox.closed (w.held scope) d r' held) :
    w.HasTurn w' gvr scope now action notes r := by
  refine ⟨r', hr', ?_⟩
  rw [hentry, hheld]
  exact hturn

/-- Nothing of a scope has come into an inbox that has become no longer. -/
theorem within_drop_suffix {items items' : List ScopedEvent} (h : items' <:+ items) :
    ScopedEvent.within scope (items'.drop items.length) = [] := by
  rw [List.drop_eq_nil_of_le h.length_le]
  rfl

theorem within_drop_concat (items : List ScopedEvent) (e : WatchEvent) :
    ScopedEvent.within other ((items ++ [(⟨scope, e⟩ : ScopedEvent)]).drop items.length) =
      if other = scope then [e] else [] := by
  rw [List.drop_left, ScopedEvent.within_cons]
  exact List.append_nil _

/-- Who finds no room stands behind all others. -/
theorem held_waits {e : WatchEvent}
    (hinbox : w'.inbox = { w.inbox with waiting := w.inbox.waiting ++ [(scope, ⟨scope, e⟩)] })
    (other : String) : w'.held other = w.held other ++ if other = scope then [e] else [] := by
  rw [held, held, hinbox, ← List.append_assoc, List.map_append, ScopedEvent.within_append]
  exact congrArg _ ((ScopedEvent.within_cons other scope e []).trans (List.append_nil _))

/-- Who does not wait for room holds nothing. -/
theorem Kept.held_eq_nil (h : w.Kept) (hr : w.readers.get? scope = some r)
    (hfree : r.state ≠ .holding) : w.held scope = [] := by
  rcases h with ho | hshut
  · exact ho.held_eq_nil hr hfree
  · exact hshut.held scope

theorem Kept.orderly (h : w.Kept) (hopen : w.inbox.closed = false) : w.Orderly :=
  h.resolve_right fun hshut => by cases hopen.symm.trans hshut.closed

/-- Nobody is given room in an inbox that is closed. -/
theorem Kept.orderly_of_enter? {sender : String} {q : BoundedQueue String ScopedEvent}
    (h : w.Kept) (henter : w.inbox.enter? sender = some q) : w.Orderly :=
  h.resolve_right fun hshut => by cases (hshut.enter? _).symm.trans henter

/-- A reader holds one event while it waits for room in an open inbox, and none otherwise. -/
theorem Orderly.length_held (h : w.Orderly) (hr : w.readers.get? scope = some r) :
    (w.held scope).length = if r.state = .holding then 1 else 0 := by
  rw [h.held scope, isHolding_of_get? hr]
  by_cases hholding : r.state = .holding <;> simp [hholding]

/-- Who holds an event holds no other. -/
theorem Orderly.holding_of_held {e : WatchEvent} (h : w.Orderly)
    (hr : w.readers.get? scope = some r) (hheld : w.held scope = [e] ++ held) :
    r.state = .holding ∧ held = [] := by
  have hlength := h.held scope
  rw [isHolding_of_get? hr, hheld, List.length_append, List.length_singleton] at hlength
  have hle := Bool.toNat_le (decide (r.state = .holding))
  refine ⟨?_, List.length_eq_zero_iff.mp (by omega)⟩
  by_contra hfree
  rw [decide_eq_false hfree, Bool.toNat_false] at hlength
  omega

/-- A reader that uses the room it was given brings in the one event it has waited with. -/
theorem Orderly.brings {q : BoundedQueue String ScopedEvent} (h : w.Orderly)
    (hr : w.readers.get? scope = some r) (henter : w.inbox.enter? scope = some q) :
    ∃ e, r.state = .holding ∧ w.held scope = [e] ∧ { w with inbox := q }.held scope = [] ∧
      q.items = w.inbox.items ++ [⟨scope, e⟩] := by
  have hinbox : { w with inbox := q }.inbox = q := rfl
  obtain ⟨e, hitems, -, hheld, -, -⟩ := held_enters henter h.owned hinbox
  have hbrought := hheld scope
  rw [if_pos rfl] at hbrought
  obtain ⟨hholding, hrest⟩ := h.holding_of_held hr hbrought
  exact ⟨e, hholding, by rw [hbrought, hrest, List.append_nil], hrest, hitems⟩

/-- **A reader waits only for want of room.**  It was given room, or it stands among those who wait
while every place in the inbox is taken. -/
theorem Orderly.granted_or_full (h : w.Orderly) (hr : w.readers.get? scope = some r)
    (hholding : r.state = .holding) :
    scope ∈ w.inbox.granted.map (·.1) ∨
      scope ∈ w.inbox.waiting.map (·.1) ∧ w.inbox.taken = inboxRoom := by
  have hone : (w.held scope).length = 1 := (h.length_held hr).trans (if_pos hholding)
  obtain ⟨e, he⟩ := List.exists_mem_of_length_pos (Nat.lt_of_lt_of_eq Nat.one_pos hone.symm)
  obtain ⟨x, hx, -⟩ := List.mem_map.mp he
  obtain ⟨hx, hscope⟩ := List.mem_filter.mp hx
  obtain ⟨g, hg, rfl⟩ := List.mem_map.mp hx
  have hsender : g.1 = scope := (h.owned g hg).symm.trans (of_decide_eq_true hscope)
  rcases List.mem_append.mp hg with hgranted | hwaiting
  · exact .inl (List.mem_map.mpr ⟨g, hgranted, hsender⟩)
  · refine .inr ⟨List.mem_map.mpr ⟨g, hwaiting, hsender⟩, ?_⟩
    exact (BoundedQueue.taken_eq_capacity h.fits h.fair (List.ne_nil_of_mem hwaiting)).trans
      h.capacity

theorem entry_read (hr : w.readers.get? scope = some r) {item : StreamItem}
    {rest : List StreamItem} (hunread : r.unread = item :: rest) :
    w.entry w' gvr scope now (.read gvr scope) notes =
      ⟨[], [⟨now, item, notes⟩],
        ScopedEvent.within scope (w'.inbox.items.drop w.inbox.items.length)⟩ := by
  simp [entry, passing, unread_of_get? hr, hunread]

/-- Where nothing of a scope changes, its reader rests. -/
theorem HasTurn.rests (hr : w.readers.get? scope = some r)
    (hr' : w'.readers.get? scope = w.readers.get? scope)
    (hgiven : (w.passing gvr action).given scope = [])
    (hyielded : (w.passing gvr action).yielded scope = [])
    (hsent : ScopedEvent.within scope (w'.inbox.items.drop w.inbox.items.length) = [])
    (hheld : w'.held scope = w.held scope) : w.HasTurn w' gvr scope now action notes r := by
  refine .of_entry (hr'.trans hr) ?_ hheld .rests
  simp [entry, hgiven, hyielded, hsent]

theorem Flows.closed (h : w.Flows gvr now action w' notes) : w'.inbox.closed = w.inbox.closed := by
  cases h with
  | brings _ _ _ hoffer =>
    obtain ⟨-, -, rfl⟩ := BoundedQueue.offer_eq_accepted hoffer
    rfl
  | holds _ _ _ hoffer =>
    obtain ⟨-, -, rfl⟩ := BoundedQueue.offer_eq_waits hoffer
    rfl
  | enters henter =>
    obtain ⟨_, _, _, -, -, -, -, -, hclosed⟩ := BoundedQueue.senders_enter? henter
    exact hclosed
  | _ => rfl

/-- A reader has no turn when that of another scope acts, or its stream. -/
theorem Flows.rests (h : w.Flows gvr now action w' notes) (hkept : w.Kept)
    (hr : w.readers.get? scope = some r) (hother : action.scope? ≠ some scope) :
    w.HasTurn w' gvr scope now action notes r := by
  have hinserted : ∀ s r', scope ≠ s →
      (w.readers.insert s r').get? scope = w.readers.get? scope :=
    fun s r' hne => SortedMap.get?_insert_of_ne _ hne _
  have hmodified : ∀ s f, scope ≠ s →
      (w.readers.modify s f).get? scope = w.readers.get? scope := fun s f hne => by
    rw [SortedMap.get?_modify, if_neg hne]
  have hsame : ScopedEvent.within scope (w.inbox.items.drop w.inbox.items.length) = [] :=
    within_drop_suffix (List.suffix_refl _)
  have hne : ∀ s, action.scope? = some s → scope ≠ s := fun s hs he => hother (he ▸ hs)
  cases h with
  | @ends s | @fails s | @gives s =>
    have hne := hne s rfl
    exact .rests hr (hinserted s _ hne) rfl (if_neg fun h => hne h.2) hsame rfl
  | @wakes s =>
    have hne := hne s rfl
    exact .rests hr (hinserted s _ hne) rfl rfl hsame rfl
  | @brings s r₁ e rest q hr₁ hreading hunread hoffer =>
    have hne := hne s rfl
    obtain ⟨-, -, rfl⟩ := BoundedQueue.offer_eq_accepted hoffer
    refine .rests hr (hinserted s _ hne) rfl (if_neg fun h => hne h.2) ?_ rfl
    exact (within_drop_concat _ e).trans (if_neg hne)
  | @holds s r₁ e rest q hr₁ hreading hunread hoffer =>
    have hne := hne s rfl
    obtain ⟨-, -, rfl⟩ := BoundedQueue.offer_eq_waits hoffer
    refine .rests hr (hinserted s _ hne) rfl (if_neg fun h => hne h.2) hsame ?_
    exact (held_waits rfl scope).trans (by rw [if_neg hne, List.append_nil])
  | @enters s q henter =>
    have hne := hne s rfl
    have hinbox : ({ w with inbox := q } : Watcher).inbox = q := rfl
    obtain ⟨e, hitems, -, hheld, -, -⟩ :=
      held_enters henter (hkept.orderly_of_enter? henter).owned hinbox
    refine .rests hr (hmodified s _ hne) rfl rfl ?_ ?_
    · rw [hitems]
      exact (within_drop_concat _ e).trans (if_neg hne)
    · rw [hheld scope, if_neg hne]
      rfl
  | @yields s items =>
    have hne := hne s rfl
    exact .rests hr (hmodified s _ hne) (if_neg fun h => hne h.2.1) rfl hsame rfl
  | @closes s =>
    have hne := hne s rfl
    exact .rests hr (hmodified s _ hne) rfl rfl hsame rfl

/-- A reader has one of its turns when it or its stream acts. -/
theorem Flows.turns (h : w.Flows gvr now action w' notes) (hkept : w.Kept)
    (hr : w.readers.get? scope = some r) (hown : action.scope? = some scope) :
    w.HasTurn w' gvr scope now action notes r := by
  have hinserted : ∀ r', (w.readers.insert scope r').get? scope = some r' :=
    fun r' => SortedMap.get?_insert_self _ _ _
  have hmodified : ∀ f, (w.readers.modify scope f).get? scope = some (f r) := fun f => by
    rw [SortedMap.get?_modify, if_pos rfl, hr]
    rfl
  have hsame : ScopedEvent.within scope (w.inbox.items.drop w.inbox.items.length) = [] :=
    within_drop_suffix (List.suffix_refl _)
  have hentry : ∀ (w' : Watcher) action, w'.inbox = w.inbox →
      w.entry w' gvr scope now action notes =
        { given := (w.passing gvr action).given scope
          readings := ((w.passing gvr action).yielded scope).map (⟨now, ·, notes⟩) } := by
    intro w' action hinbox
    rw [entry, hinbox, hsame]
  cases h with
  | ends hr₁ hreading hunread hover =>
    obtain rfl := Option.some.inj hown
    obtain rfl := Option.some.inj (hr.symm.trans hr₁)
    refine .of_entry (hinserted _) ((hentry _ _ rfl).trans ?_) rfl
      (.ends hreading hunread hover)
    simp [passing, unread_of_get? hr, hunread]
  | fails hr₁ hreading hunread =>
    obtain rfl := Option.some.inj hown
    obtain rfl := Option.some.inj (hr.symm.trans hr₁)
    refine .of_entry (hinserted _) ((entry_read hr hunread).trans ?_) rfl (.fails hreading hunread)
    rw [hsame]
    rfl
  | @brings s r₁ e rest q hr₁ hreading hunread hoffer =>
    obtain rfl := Option.some.inj hown
    obtain rfl := Option.some.inj (hr.symm.trans hr₁)
    have hnone : w.held s = [] := hkept.held_eq_nil hr (by simp [hreading])
    obtain ⟨hopen, -, rfl⟩ := BoundedQueue.offer_eq_accepted hoffer
    refine .of_entry (hinserted _) ((entry_read hr hunread).trans ?_) hnone
      (.sends hreading hunread hopen hnone)
    rw [within_drop_concat, if_pos rfl]
  | @holds s r₁ e rest q hr₁ hreading hunread hoffer =>
    obtain rfl := Option.some.inj hown
    obtain rfl := Option.some.inj (hr.symm.trans hr₁)
    have hnone : w.held s = [] := hkept.held_eq_nil hr (by simp [hreading])
    obtain ⟨hopen, -, rfl⟩ := BoundedQueue.offer_eq_waits hoffer
    refine .of_entry (hinserted _) ((entry_read hr hunread).trans ?_) ?_
      (.holds hreading hunread hopen hnone)
    · rw [hsame]
    · exact (held_waits rfl s).trans (by rw [hnone, if_pos rfl, List.nil_append])
  | @gives s r₁ e rest hr₁ hreading hunread hoffer =>
    obtain rfl := Option.some.inj hown
    obtain rfl := Option.some.inj (hr.symm.trans hr₁)
    refine .of_entry (hinserted _) ((entry_read hr hunread).trans ?_) rfl
      (.gives hreading hunread (BoundedQueue.closed_of_offer_refused hoffer))
    rw [hsame]
  | wakes hr₁ hpausing hover =>
    obtain rfl := Option.some.inj hown
    obtain rfl := Option.some.inj (hr.symm.trans hr₁)
    exact .of_entry (hinserted _) (hentry _ _ rfl) rfl (.wakes hpausing hover)
  | @enters s q henter =>
    obtain rfl := Option.some.inj hown
    have ho := hkept.orderly_of_enter? henter
    obtain ⟨e, hholding, hheld, hnone, hitems⟩ := ho.brings hr henter
    refine .of_entry (hmodified _) ?_ hnone (.enters hholding hheld ho.isOpen)
    rw [entry, hitems, within_drop_concat, if_pos rfl]
    rfl
  | @yields s items =>
    obtain rfl := Option.some.inj hown
    by_cases hlistening : r.isOpen = true ∧ r.state ≠ .ended
    · have hgiven : (w.passing gvr (.feed gvr s items)).given s = items := by
        simp [passing, isListening, hr, hlistening]
      refine .of_entry (hmodified _) ((hentry _ _ rfl).trans ?_) rfl ?_ (d := ⟨items, [], []⟩)
      · rw [hgiven]
        rfl
      · rw [if_pos hlistening]
        exact .yields hlistening.1 hlistening.2
    · have hgiven : (w.passing gvr (.feed gvr s items)).given s = [] := by
        simpa [passing, isListening, hr] using fun h h' => absurd ⟨h, h'⟩ hlistening
      refine .rests hr ?_ hgiven rfl hsame rfl
      rw [hmodified, if_neg hlistening, hr]
  | closes =>
    obtain rfl := Option.some.inj hown
    exact .of_entry (hmodified _) (hentry _ _ rfl) rfl .closes

end Watcher

/-! ## 5. Every step is a turn -/

namespace System

variable {s s' : System} {gvr : GroupVersionResource} {scope : String} {action : Action}
  {actions : List Action} {notes : List Note} {w : Watcher} {r : Reader}

/-- What a step from one state to another adds to the diary of a reader. -/
def entry (s s' : System) (gvr : GroupVersionResource) (scope : String) (action : Action)
    (notes : List Note) : Diary :=
  (s.registry.watcherAt gvr).entry (s'.registry.watcherAt gvr) gvr scope s.pipeline.now action notes

/-- The diary of a scope's reader along a run by the given actions. -/
def diary (s : System) (gvr : GroupVersionResource) (scope : String) : List Action → Diary
  | [] => {}
  | action :: actions =>
    match s.step action with
    | none => {}
    | some (s', notes) => s.entry s' gvr scope action notes ++ s'.diary gvr scope actions

/-- In a step the reader of a scope has one of its turns. -/
def TakesTurn (s s' : System) (gvr : GroupVersionResource) (scope : String) (action : Action)
    (notes : List Note) (w : Watcher) (r : Reader) : Prop :=
  ∃ w' r', s'.registry.watcher? gvr = some w' ∧ w'.kind = w.kind ∧
    w'.inbox.closed = w.inbox.closed ∧ w'.readers.get? scope = some r' ∧
    r.Turn w.kind scope s.pipeline.now w.inbox.closed (w.held scope)
      (s.entry s' gvr scope action notes) r' (w'.held scope)

/-- A watcher whose readers are left alone gives them a turn in which they rest. -/
theorem takesTurn_of_spares {w' : Watcher} (hw : s.registry.watcher? gvr = some w)
    (hr : w.readers.get? scope = some r) (hw' : s'.registry.watcher? gvr = some w')
    (hspares : w.Spares w') (hpasses : (w.passing gvr action).given scope = [] ∧
      (w.passing gvr action).yielded scope = []) :
    s.TakesTurn s' gvr scope action notes w r := by
  have hentry : s.entry s' gvr scope action notes = {} := by
    rw [entry, Registry.watcherAt_of_watcher? hw, Registry.watcherAt_of_watcher? hw',
      Watcher.entry, hpasses.1, hpasses.2, Watcher.within_drop_suffix hspares.items]
    rfl
  have hheld : w'.held scope = w.held scope := by
    rw [Watcher.held, Watcher.held, hspares.senders]
  refine ⟨w', r, hw', hspares.kind, hspares.closed, hspares.readers scope r hr, ?_⟩
  rw [hentry, hheld]
  exact .rests

/-- What a watcher's own turn is in the engine. -/
theorem takesTurn_of_hasTurn {w' : Watcher} (hw : s.registry.watcher? gvr = some w)
    (hw' : s'.registry.watcher? gvr = some w') (hkind : w'.kind = w.kind)
    (hclosed : w'.inbox.closed = w.inbox.closed)
    (hturn : w.HasTurn w' gvr scope s.pipeline.now action notes r) :
    s.TakesTurn s' gvr scope action notes w r := by
  obtain ⟨r', hr', hturn⟩ := hturn
  refine ⟨w', r', hw', hkind, hclosed, hr', ?_⟩
  rw [entry, Registry.watcherAt_of_watcher? hw, Registry.watcherAt_of_watcher? hw']
  exact hturn

/-- **Every step is a turn of every reader** that is there and is not stopped in it. -/
theorem takesTurn_of_step (hkept : s.Kept) (hstep : s.step action = some (s', notes))
    (hw : s.registry.watcher? gvr = some w) (hr : w.readers.get? scope = some r)
    (hstop : action ≠ .stop) (hstay : action ≠ .stopWatcher gvr) :
    s.TakesTurn s' gvr scope action notes w r := by
  cases hstops : action.stops with
  | true =>
    cases action with
    | stop => exact absurd rfl hstop
    | stopWatcher g =>
      cases hstep
      have hg : gvr ≠ g := fun he => hstay (congrArg Action.stopWatcher he.symm)
      refine takesTurn_of_spares hw hr ?_ (.refl w) ⟨rfl, rfl⟩
      change (s.registry.stopWatcher g).watcher? gvr = some w
      rw [Registry.watcher?_stopWatcher, if_neg hg, hw]
    | _ => cases hstops
  | false =>
    rcases (step_cases hstep hstops).spares_or_flows with ⟨hspares, hpasses⟩ | hflows
    · obtain ⟨w', hw', hspares⟩ := hspares gvr w hw
      have hnothing := hpasses gvr scope
      rw [Registry.watcherAt_of_watcher? hw] at hnothing
      exact takesTurn_of_spares hw hr hw' hspares hnothing
    obtain ⟨g, v, v', hv, hflows, rfl⟩ := hflows
    have hv' : (s.setWatcher g v').registry.watcher? gvr =
        if gvr = g then some v' else s.registry.watcher? gvr := Registry.watcher?_insert ..
    by_cases hg : gvr = g
    · subst hg
      rw [if_pos rfl] at hv'
      obtain rfl := Option.some.inj (hw.symm.trans hv)
      have hwatcher := hkept gvr
      rw [Registry.watcherAt_of_watcher? hw] at hwatcher
      refine takesTurn_of_hasTurn hw hv' (congrArg Core.kind hflows.core) hflows.closed ?_
      by_cases hown : action.scope? = some scope
      · exact hflows.turns hwatcher hr hown
      · exact hflows.rests hwatcher hr hown
    · rw [if_neg hg, hw] at hv'
      refine takesTurn_of_spares hw hr hv' (.refl w) ?_
      rw [hflows.passing_eq_empty (Ne.symm hg)]
      exact ⟨rfl, rfl⟩

end System

end AppWatch
