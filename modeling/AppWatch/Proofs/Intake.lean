/-
# What passes through a watcher

Between the streams of a kind and its handler an event passes four places: the stream itself, the
reader that holds it while the inbox is full, the inbox, and the cache with the changes it makes.
A `Passage` says what has passed them; what passes in one action can be read off the watcher
before it (`Watcher.passing`).

`Watcher.Passes` says of two states of a watcher that nothing was lost between them: what was
before a place and what has come to it is what has left it and what is before it now, in this
order.  Such passages follow one another (`Passes.trans`), so each kind of step needs one argument.
A call of the handler that fails is a call like any other here.

A reader holds an event exactly while it stands among the senders of the inbox, and it stands there
once (`Watcher.Orderly`); that is why the event it holds is younger than all of its scope in the
inbox, and why it brings in its own.
-/
import AppWatch.Proofs.Recompute
import AppWatch.Proofs.Waits

namespace AppWatch

/-! ## 1. What a watcher has before it -/

/-- The events of one scope among others. -/
def ScopedEvent.within (scope : String) (events : List ScopedEvent) : List WatchEvent :=
  (events.filter fun e => e.scope = scope).map ScopedEvent.event

/-- The event of an item. -/
def StreamItem.event? : StreamItem → Option WatchEvent
  | .event e => some e
  | .failure _ => none

/-- The change that a worker is handling. -/
def Worker.handled? : Worker → Option ResourceEvent
  | .handling e _ _ => some e
  | _ => none

namespace Watcher

/-- What the stream of a scope holds ready for its reader. -/
def unread (w : Watcher) (scope : String) : List StreamItem :=
  ((w.readers.get? scope).map Reader.unread).getD []

/-- Whether the reader of a scope waits for room with an event. -/
def isHolding (w : Watcher) (scope : String) : Bool :=
  (w.readers.get? scope).any fun r => r.state = .holding

/-- Whether a scope has a reader whose stream may yield more. -/
def isListening (w : Watcher) (scope : String) : Bool :=
  (w.readers.get? scope).any fun r => r.isOpen ∧ r.state ≠ .ended

/-- The events of a scope that wait for room in the inbox. -/
def held (w : Watcher) (scope : String) : List WatchEvent :=
  ScopedEvent.within scope ((w.inbox.granted ++ w.inbox.waiting).map (·.2))

/-- The events of a scope that its reader has taken and the worker has not. -/
def ahead (w : Watcher) (scope : String) : List WatchEvent :=
  ScopedEvent.within scope w.inbox.items ++ w.held scope

/-- Every reader that holds an event waits with it for room, once, and nobody else waits; the inbox
is open, has no more in it than there is room for, and lets nobody wait while there is room. -/
structure Orderly (w : Watcher) : Prop where
  held : ∀ scope, (w.held scope).length = (w.isHolding scope).toNat
  owned : ∀ g ∈ w.inbox.granted ++ w.inbox.waiting, g.2.scope = g.1
  fits : w.inbox.Fits
  fair : w.inbox.Fair
  capacity : w.inbox.capacity = inboxRoom
  isOpen : w.inbox.closed = false

/-- Two watchers have the same before their readers, in their hands and in the inbox. -/
structure SameIntake (w w' : Watcher) : Prop where
  unread : ∀ scope, w'.unread scope = w.unread scope
  holding : ∀ scope, w'.isHolding scope = w.isHolding scope
  inbox : w'.inbox = w.inbox

variable {w w' w'' : Watcher} {scope : String} {r r' : Reader} {f : Reader → Reader}

theorem SameIntake.refl (w : Watcher) : w.SameIntake w := ⟨fun _ => rfl, fun _ => rfl, rfl⟩

theorem SameIntake.trans (h : w.SameIntake w') (h' : w'.SameIntake w'') : w.SameIntake w'' :=
  ⟨fun scope => (h'.unread scope).trans (h.unread scope),
    fun scope => (h'.holding scope).trans (h.holding scope), h'.inbox.trans h.inbox⟩

theorem SameIntake.held_eq (h : w.SameIntake w') (scope : String) :
    w'.held scope = w.held scope := by
  unfold held
  rw [h.inbox]

theorem SameIntake.ahead_eq (h : w.SameIntake w') (scope : String) :
    w'.ahead scope = w.ahead scope := by
  rw [ahead, ahead, h.held_eq, h.inbox]

theorem SameIntake.orderly (h : w.SameIntake w') (ho : w.Orderly) : w'.Orderly := by
  refine ⟨fun scope => ?_, ?_, ?_, ?_, ?_, ?_⟩
  · rw [h.held_eq, h.holding]
    exact ho.held scope
  · rw [h.inbox]
    exact ho.owned
  · rw [h.inbox]
    exact ho.fits
  · rw [h.inbox]
    exact ho.fair
  · rw [h.inbox]
    exact ho.capacity
  · rw [h.inbox]
    exact ho.isOpen

/-- A watcher without readers has nothing before it. -/
theorem orderly_empty (kind : KindDescriptor) : ({ kind := kind } : Watcher).Orderly :=
  ⟨fun _ => rfl, fun _ hg => absurd hg (by simp), Nat.zero_le _, fun _ => rfl, rfl, rfl⟩

theorem unread_of_get? (h : w.readers.get? scope = some r) : w.unread scope = r.unread := by
  rw [unread, h]
  rfl

theorem isHolding_of_get? (h : w.readers.get? scope = some r) :
    w.isHolding scope = decide (r.state = .holding) := by
  rw [isHolding, h]
  rfl

theorem unread_of_insert (h : w'.readers = w.readers.insert scope r) (other : String) :
    w'.unread other = if other = scope then r.unread else w.unread other := by
  simp only [unread, h, SortedMap.get?_insert]
  split <;> rfl

theorem isHolding_of_insert (h : w'.readers = w.readers.insert scope r) (other : String) :
    w'.isHolding other = if other = scope then decide (r.state = .holding)
      else w.isHolding other := by
  simp only [isHolding, h, SortedMap.get?_insert]
  split <;> rfl

/-- A reader that held nothing and holds nothing now. -/
theorem isHolding_of_insert_free (h : w'.readers = w.readers.insert scope r')
    (hr : w.readers.get? scope = some r) (hfree : r.state ≠ .holding)
    (hfree' : r'.state ≠ .holding) (other : String) : w'.isHolding other = w.isHolding other := by
  rw [isHolding_of_insert h]
  split
  · next he => rw [he, isHolding_of_get? hr, decide_eq_false hfree, decide_eq_false hfree']
  · rfl

theorem sameIntake_insert (hr : w.readers.get? scope = some r) (hunread : r'.unread = r.unread)
    (hfree : r.state ≠ .holding) (hfree' : r'.state ≠ .holding) :
    w.SameIntake { w with readers := w.readers.insert scope r' } := by
  refine ⟨fun other => ?_, isHolding_of_insert_free rfl hr hfree hfree', rfl⟩
  rw [unread_of_insert rfl]
  split
  · next he => rw [he, unread_of_get? hr, hunread]
  · rfl

/-- A reader that changes what it is doing leaves its stream alone. -/
theorem unread_of_modify (h : w'.readers = w.readers.modify scope f)
    (hf : ∀ r, (f r).unread = r.unread) (other : String) :
    w'.unread other = w.unread other := by
  simp only [unread, h, SortedMap.get?_modify]
  split
  · next he =>
    rw [he, Option.map_map]
    exact congrArg (fun g => ((w.readers.get? scope).map g).getD []) (funext hf)
  · rfl

theorem isHolding_of_modify (h : w'.readers = w.readers.modify scope f)
    (hf : ∀ r, (f r).state = r.state) (other : String) :
    w'.isHolding other = w.isHolding other := by
  simp only [isHolding, h, SortedMap.get?_modify]
  split
  · next he =>
    rw [he, Option.any_map]
    refine congrArg ((w.readers.get? scope).any ·) (funext fun r => ?_)
    exact congrArg (fun state => decide (state = ReaderState.holding)) (hf r)
  · rfl

end Watcher

theorem ScopedEvent.within_append (scope : String) (es es' : List ScopedEvent) :
    within scope (es ++ es') = within scope es ++ within scope es' := by
  rw [within, List.filter_append, List.map_append]
  rfl

theorem ScopedEvent.within_cons (other scope : String) (e : WatchEvent) (es : List ScopedEvent) :
    within other (⟨scope, e⟩ :: es) = (if other = scope then [e] else []) ++ within other es := by
  unfold within
  by_cases h : other = scope
  · simp [h]
  · simp [h, Ne.symm h]

theorem ScopedEvent.within_eq_nil {scope : String} {es : List ScopedEvent}
    (h : ∀ e ∈ es, e.scope ≠ scope) : within scope es = [] := by
  rw [within, List.filter_eq_nil_iff.mpr, List.map_nil]
  intro e he
  simpa using h e he

/-! ## 2. What passes through a watcher -/

/-- What has passed through the watcher of a kind. -/
structure Passage where
  /-- What the stream of each scope was given while it was read. -/
  given : String → List StreamItem := fun _ => []
  /-- What the stream of each scope has yielded to its reader. -/
  yielded : String → List StreamItem := fun _ => []
  /-- The events that the worker has taken and applied. -/
  applied : List ScopedEvent := []
  /-- The changes that the worker has called the handler for. -/
  called : List ResourceEvent := []

/-- What has passed, and then some more. -/
def Passage.append (p q : Passage) : Passage where
  given scope := p.given scope ++ q.given scope
  yielded scope := p.yielded scope ++ q.yielded scope
  applied := p.applied ++ q.applied
  called := p.called ++ q.called

instance : Append Passage := ⟨Passage.append⟩

namespace Watcher

/-- What passes through a watcher in an action. -/
def passing (w : Watcher) (gvr : GroupVersionResource) : System.Action → Passage
  | .feed g scope items =>
    { given := fun other =>
        if g = gvr ∧ other = scope ∧ w.isListening scope then items else [] }
  | .read g scope =>
    { yielded := fun other =>
        if g = gvr ∧ other = scope then (w.unread scope).take 1 else [] }
  | .take g =>
    if g = gvr then
      { applied := w.inbox.items.take 1
        called := (w.cache.applyAll (w.inbox.items.take 1)).2.take 1 }
    else {}
  | .proceed g => if g = gvr then { called := w.worker.unbegun.take 1 } else {}
  | _ => {}

/-- **Nothing is lost between two states of a watcher**, and nothing overtakes within a scope: what
passes is the oldest of what was there or has come.  The calls that are not under way any more have
been made before the one that is. -/
structure Passes (w : Watcher) (p : Passage) (w' : Watcher) : Prop where
  orderly : w'.Orderly
  unread : ∀ scope, w.unread scope ++ p.given scope = p.yielded scope ++ w'.unread scope
  ahead : ∀ scope, w.ahead scope ++ (p.yielded scope).filterMap StreamItem.event? =
    ScopedEvent.within scope p.applied ++ w'.ahead scope
  cache : w'.cache = (w.cache.applyAll p.applied).1
  unbegun : w.worker.unbegun ++ (w.cache.applyAll p.applied).2 = p.called ++ w'.worker.unbegun
  handled : ∃ returned,
    w.worker.handled?.toList ++ p.called = returned ++ w'.worker.handled?.toList

end Watcher

/-- Events are applied one after the other. -/
theorem WatchCache.applyAll_append (c : WatchCache) (es es' : List ScopedEvent) :
    c.applyAll (es ++ es') = (((c.applyAll es).1.applyAll es').1,
      (c.applyAll es).2 ++ ((c.applyAll es).1.applyAll es').2) := by
  induction es generalizing c with
  | nil => rfl
  | cons e es ih =>
    simp only [List.cons_append, applyAll, ih, List.append_assoc]

theorem WatchCache.applyAll_concat (c : WatchCache) (es : List ScopedEvent) (e : ScopedEvent) :
    (c.applyAll (es ++ [e])).1 = ((c.applyAll es).1.apply e.scope e.event).1 := by
  rw [applyAll_append]
  rfl

namespace Watcher

variable {w w' w'' : Watcher} {p q : Passage} {called : List ResourceEvent}

theorem Passes.trans (h : w.Passes p w') (h' : w'.Passes q w'') : w.Passes (p ++ q) w'' := by
  have happly := w.cache.applyAll_append p.applied q.applied
  refine ⟨h'.orderly, fun scope => ?_, fun scope => ?_, ?_, ?_, ?_⟩
  · change w.unread scope ++ (p.given scope ++ q.given scope) =
      p.yielded scope ++ q.yielded scope ++ w''.unread scope
    rw [← List.append_assoc, h.unread, List.append_assoc, h'.unread, List.append_assoc]
  · change w.ahead scope ++ (p.yielded scope ++ q.yielded scope).filterMap StreamItem.event? =
      ScopedEvent.within scope (p.applied ++ q.applied) ++ w''.ahead scope
    rw [List.filterMap_append, ← List.append_assoc, h.ahead, List.append_assoc, h'.ahead,
      ScopedEvent.within_append, List.append_assoc]
  · change w''.cache = (w.cache.applyAll (p.applied ++ q.applied)).1
    rw [happly, h'.cache, h.cache]
  · change w.worker.unbegun ++ (w.cache.applyAll (p.applied ++ q.applied)).2 =
      p.called ++ q.called ++ w''.worker.unbegun
    rw [happly, ← List.append_assoc, h.unbegun, List.append_assoc, ← h.cache, h'.unbegun,
      List.append_assoc]
  · obtain ⟨past, hpast⟩ := h.handled
    obtain ⟨past', hpast'⟩ := h'.handled
    refine ⟨past ++ past', ?_⟩
    change w.worker.handled?.toList ++ (p.called ++ q.called) = _
    rw [← List.append_assoc, hpast, List.append_assoc, hpast', List.append_assoc]

/-- What happens between a stream and the inbox reaches neither cache nor worker. -/
theorem Passes.of_core (ho : w'.Orderly) (hcore : w'.core = w.core) (happlied : p.applied = [])
    (hcalled : p.called = [])
    (hunread : ∀ scope, w.unread scope ++ p.given scope = p.yielded scope ++ w'.unread scope)
    (hahead : ∀ scope, w.ahead scope ++ (p.yielded scope).filterMap StreamItem.event? =
      w'.ahead scope) : w.Passes p w' := by
  have hcache : w'.cache = w.cache := congrArg Core.cache hcore
  have hworker : w'.worker = w.worker := congrArg Core.worker hcore
  refine ⟨ho, hunread, fun scope => ?_, ?_, ?_, [], ?_⟩
  · rw [happlied]
    exact hahead scope
  · rw [happlied]
    exact hcache
  · rw [happlied, hcalled, hworker]
    exact List.append_nil _
  · rw [hcalled, hworker]
    exact List.append_nil _

/-- What a worker does with the changes before it leaves the intake alone. -/
theorem Passes.of_sameIntake (ho : w.Orderly) (h : w.SameIntake w') (hcache : w'.cache = w.cache)
    (hunbegun : w.worker.unbegun = called ++ w'.worker.unbegun)
    (hhandled : ∃ returned,
      w.worker.handled?.toList ++ called = returned ++ w'.worker.handled?.toList) :
    w.Passes { called := called } w' := by
  refine ⟨h.orderly ho, fun scope => ?_, fun scope => ?_, hcache, ?_, hhandled⟩
  · rw [h.unread]
    exact List.append_nil _
  · rw [h.ahead_eq]
    exact List.append_nil _
  · exact (List.append_nil _).trans hunbegun

/-- Where nothing changes, nothing has passed. -/
theorem Passes.unchanged (ho : w.Orderly) (h : w.SameIntake w') (hcache : w'.cache = w.cache)
    (hworker : w'.worker = w.worker) : w.Passes {} w' :=
  .of_sameIntake ho h hcache (by rw [hworker]; rfl) ⟨[], by rw [hworker]; exact List.append_nil _⟩

/-! ## 3. Streams, readers and the inbox -/

variable {gvr : GroupVersionResource} {scope : String} {now : Nat} {action : System.Action}
  {notes : List Note} {r r' : Reader} {item : StreamItem} {rest : List StreamItem}

/-- A reader that takes an item leaves the others behind it. -/
theorem unread_read (hr : w.readers.get? scope = some r) (hunread : r.unread = item :: rest)
    (hw' : w'.readers = w.readers.insert scope r') (hrest : r'.unread = rest) (other : String) :
    w.unread other ++ (w.passing gvr (.read gvr scope)).given other =
      (w.passing gvr (.read gvr scope)).yielded other ++ w'.unread other := by
  have hscope : w.unread scope = item :: rest := (unread_of_get? hr).trans hunread
  rw [unread_of_insert hw', hrest]
  simp only [passing, List.append_nil, true_and, hscope]
  split
  · next he =>
    rw [he, hscope]
    rfl
  · rfl

/-- The event of the item that a reader takes. -/
theorem yielded_read (hr : w.readers.get? scope = some r) (hunread : r.unread = item :: rest)
    (other : String) :
    ((w.passing gvr (.read gvr scope)).yielded other).filterMap StreamItem.event? =
      if other = scope then item.event?.toList else [] := by
  have hscope : w.unread scope = item :: rest := (unread_of_get? hr).trans hunread
  simp only [passing, true_and, hscope]
  split
  · cases item <;> rfl
  · rfl

/-- A reader that does not wait for room holds nothing. -/
theorem Orderly.held_eq_nil (h : w.Orderly) (hr : w.readers.get? scope = some r)
    (hfree : r.state ≠ .holding) : w.held scope = [] := by
  have hlength := h.held scope
  rw [isHolding_of_get? hr, decide_eq_false hfree] at hlength
  exact List.length_eq_zero_iff.mp hlength

/-- An event that finds room is the last of its scope, since its reader holds none. -/
theorem ahead_brings {e : WatchEvent} (hnone : w.held scope = [])
    (readers : SortedMap String Reader) (other : String) :
    w.ahead other ++ (if other = scope then [e] else []) =
      ({ w with
        inbox := { w.inbox with items := w.inbox.items ++ [⟨scope, e⟩] }
        readers := readers } : Watcher).ahead other := by
  change w.ahead other ++ _ =
    ScopedEvent.within other (w.inbox.items ++ [⟨scope, e⟩]) ++ w.held other
  rw [ahead, ScopedEvent.within_append, ScopedEvent.within_cons]
  by_cases he : other = scope
  · rw [he, hnone, if_pos rfl, List.append_nil, List.append_nil]
    rfl
  · rw [if_neg he, List.append_nil, List.nil_append]
    exact (congrArg (· ++ w.held other) (List.append_nil _)).symm

/-- Who brings in an event holds it no longer. -/
theorem isHolding_enters
    (h : w'.readers = w.readers.modify scope fun r => { r with state := .reading })
    (other : String) :
    w'.isHolding other = if other = scope then false else w.isHolding other := by
  simp only [isHolding, h, SortedMap.get?_modify]
  split
  · rw [Option.any_map]
    cases w.readers.get? scope <;> rfl
  · rfl

/-- A reader that finds no room holds its event. -/
theorem passes_holds {e : WatchEvent} (hr : w.readers.get? scope = some r)
    (hfree : r.state ≠ .holding) (hunread : r.unread = .event e :: rest) (ho : w.Orderly)
    (hfair : w'.inbox.Fair)
    (hinbox : w'.inbox = { w.inbox with waiting := w.inbox.waiting ++ [(scope, ⟨scope, e⟩)] })
    (hcore : w'.core = w.core)
    (hreaders : w'.readers =
      w.readers.insert scope { r with unread := rest, failures := 0, state := .holding }) :
    w.Passes (w.passing gvr (.read gvr scope)) w' := by
  have hsenders : w'.inbox.granted ++ w'.inbox.waiting =
      w.inbox.granted ++ w.inbox.waiting ++ [(scope, ⟨scope, e⟩)] := by
    rw [hinbox, List.append_assoc]
  have hheld : ∀ other, w'.held other = w.held other ++ if other = scope then [e] else [] :=
    fun other => by
      rw [held, held, hsenders, List.map_append, ScopedEvent.within_append]
      exact congrArg _ ((ScopedEvent.within_cons other scope e []).trans (List.append_nil _))
  refine .of_core ⟨fun other => ?_, fun g hg => ?_, ?_, ?_, ?_, ?_⟩ hcore rfl rfl
    (unread_read hr hunread hreaders rfl) fun other => ?_
  · rw [hheld, isHolding_of_insert hreaders, List.length_append]
    by_cases he : other = scope
    · rw [he, ho.held_eq_nil hr hfree]
      simp
    · rw [if_neg he, if_neg he]
      exact ho.held other
  · rw [hsenders] at hg
    rcases List.mem_append.mp hg with hg | hg
    · exact ho.owned g hg
    · rw [List.mem_singleton.mp hg]
  · rw [hinbox]
    exact ho.fits
  · exact hfair
  · rw [hinbox]
    exact ho.capacity
  · rw [hinbox]
    exact ho.isOpen
  · rw [yielded_read hr hunread, ahead, ahead, hheld, hinbox, List.append_assoc]
    rfl

/-- The event that a reader brings in is its own, and nobody else's moves. -/
theorem held_enters {q : BoundedQueue String ScopedEvent} (henter : w.inbox.enter? scope = some q)
    (howned : ∀ g ∈ w.inbox.granted ++ w.inbox.waiting, g.2.scope = g.1) (hinbox : w'.inbox = q) :
    ∃ e, q.items = w.inbox.items ++ [⟨scope, e⟩] ∧
      (∀ g ∈ q.granted ++ q.waiting, g ∈ w.inbox.granted ++ w.inbox.waiting) ∧
      (∀ other, w.held other = (if other = scope then [e] else []) ++ w'.held other) ∧
      q.capacity = w.inbox.capacity ∧ q.closed = w.inbox.closed := by
  obtain ⟨before, ⟨s, e⟩, after, hsenders, hbefore, hleft, hitems, hframe⟩ :=
    BoundedQueue.senders_enter? henter
  rw [hsenders] at howned
  obtain rfl : s = scope := howned (scope, ⟨s, e⟩) (List.mem_append_right _ List.mem_cons_self)
  have hfirst : ScopedEvent.within s (before.map (·.2)) = [] := by
    refine ScopedEvent.within_eq_nil fun x hx => ?_
    obtain ⟨g, hg, rfl⟩ := List.mem_map.mp hx
    rw [howned g (List.mem_append_left _ hg)]
    exact hbefore g hg
  refine ⟨e, hitems, fun g hg => ?_, fun other => ?_, hframe⟩
  · rw [hleft] at hg
    rw [hsenders]
    rcases List.mem_append.mp hg with hg | hg
    · exact List.mem_append_left _ hg
    · exact List.mem_append_right _ (List.mem_cons_of_mem _ hg)
  · rw [held, held, hinbox, hleft, hsenders, List.map_append, List.map_append, List.map_cons,
      ScopedEvent.within_append, ScopedEvent.within_append, ScopedEvent.within_cons]
    by_cases he : other = s
    · rw [he, hfirst, List.nil_append, List.nil_append]
    · rw [if_neg he, List.nil_append, List.nil_append]

/-- A reader brings in the event that it holds. -/
theorem passes_enters {q : BoundedQueue String ScopedEvent}
    (henter : w.inbox.enter? scope = some q) (ho : w.Orderly)
    (hinbox : w'.inbox = q) (hcore : w'.core = w.core)
    (hreaders : w'.readers = w.readers.modify scope fun r => { r with state := .reading }) :
    w.Passes {} w' := by
  obtain ⟨e, hitems, hsenders, hheld, hcapacity, hclosed⟩ := held_enters henter ho.owned hinbox
  refine .of_core ⟨fun other => ?_, fun g hg => ?_, ?_, ?_, ?_, ?_⟩ hcore rfl rfl (fun other => ?_)
    fun other => ?_
  · rw [isHolding_enters hreaders]
    have hlength := ho.held other
    rw [hheld, List.length_append] at hlength
    by_cases he : other = scope
    · rw [if_pos he, List.length_singleton] at hlength
      have hle := Bool.toNat_le (w.isHolding other)
      rw [if_pos he, Bool.toNat_false]
      omega
    · rw [if_neg he, List.length_nil, Nat.zero_add] at hlength
      rw [if_neg he]
      exact hlength
  · rw [hinbox] at hg
    exact ho.owned g (hsenders g hg)
  · rw [hinbox]
    exact BoundedQueue.fits_enter? ho.fits henter
  · rw [hinbox]
    exact BoundedQueue.fair_enter? ho.fair henter
  · rw [hinbox, hcapacity]
    exact ho.capacity
  · rw [hinbox, hclosed]
    exact ho.isOpen
  · rw [unread_of_modify hreaders fun _ => rfl]
    exact List.append_nil _
  · rw [ahead, ahead, hheld, hinbox, hitems, ScopedEvent.within_append, ScopedEvent.within_cons]
    simp [ScopedEvent.within]

/-- What a stream yields comes after what it holds ready already. -/
theorem unread_yields (w : Watcher) (gvr : GroupVersionResource) (scope : String)
    (items : List StreamItem) (other : String) :
    w.unread other ++ (w.passing gvr (.feed gvr scope items)).given other =
      ({ w with
        readers := w.readers.modify scope fun r =>
          if r.isOpen ∧ r.state ≠ .ended then { r with unread := r.unread ++ items } else r } :
        Watcher).unread other := by
  simp only [passing, unread, isListening, SortedMap.get?_modify, true_and]
  by_cases he : other = scope
  · rw [he, if_pos rfl]
    cases w.readers.get? scope with
    | none => simp
    | some r =>
      by_cases hlistening : r.isOpen = true ∧ r.state ≠ .ended
      · simp [hlistening]
      · simp [hlistening]
  · simp [he]

/-- **A reader and its stream keep the intake in order and lose nothing.** -/
theorem Flows.passes (h : w.Flows gvr now action w' notes) (ho : w.Orderly) :
    w.Passes (w.passing gvr action) w' := by
  have hcore := h.core
  cases h with
  | @ends scope r hr hreading hunread =>
    have hnothing : w.passing gvr (.read gvr scope) = {} := by
      simp [passing, unread_of_get? hr, hunread]
    rw [hnothing]
    exact .unchanged ho (sameIntake_insert hr rfl (by simp [hreading]) (by simp)) rfl rfl
  | @fails scope r f rest hr hreading hunread =>
    have hfree : r.state ≠ .holding := by simp [hreading]
    refine .of_core ⟨fun other => ?_, ho.owned, ho.fits, ho.fair, ho.capacity, ho.isOpen⟩
      hcore rfl rfl
      (unread_read hr hunread rfl rfl) fun other => ?_
    · exact (ho.held other).trans
        (congrArg Bool.toNat (isHolding_of_insert_free rfl hr hfree (by simp) other).symm)
    · rw [yielded_read hr hunread]
      split <;> exact List.append_nil _
  | @brings scope r e rest q hr hreading hunread hoffer =>
    have hfree : r.state ≠ .holding := by simp [hreading]
    have hfits := BoundedQueue.fits_offer ho.fits hoffer
    have hfair := BoundedQueue.fair_offer_accepted ho.fair hoffer
    obtain ⟨-, -, rfl⟩ := BoundedQueue.offer_eq_accepted hoffer
    refine .of_core ⟨fun other => ?_, ho.owned, hfits, hfair, ho.capacity, ho.isOpen⟩ hcore rfl rfl
      (unread_read hr hunread rfl rfl) fun other => ?_
    · exact (ho.held other).trans
        (congrArg Bool.toNat (isHolding_of_insert_free rfl hr hfree (by exact hfree) other).symm)
    · rw [yielded_read hr hunread]
      exact ahead_brings (ho.held_eq_nil hr hfree) _ other
  | @holds scope r e rest q hr hreading hunread hoffer =>
    have hfair := BoundedQueue.fair_offer_waits hoffer
    obtain ⟨-, -, rfl⟩ := BoundedQueue.offer_eq_waits hoffer
    exact passes_holds hr (by simp [hreading]) hunread ho hfair rfl hcore rfl
  | @gives scope r e rest hr hreading hunread hoffer =>
    cases ho.isOpen.symm.trans (BoundedQueue.closed_of_offer_refused hoffer)
  | @wakes scope r resumes hr hpausing hover =>
    exact .unchanged ho (sameIntake_insert hr rfl (by simp [hpausing]) (by simp)) rfl rfl
  | enters henter => exact passes_enters henter ho rfl hcore rfl
  | @yields scope items =>
    have hstate : ∀ r : Reader,
        (if r.isOpen ∧ r.state ≠ .ended then { r with unread := r.unread ++ items } else r).state =
          r.state := fun r => by split <;> rfl
    refine .of_core ⟨fun other => ?_, ho.owned, ho.fits, ho.fair, ho.capacity, ho.isOpen⟩
      hcore rfl rfl
      (w.unread_yields gvr scope items) fun other => ?_
    · exact (ho.held other).trans
        (congrArg Bool.toNat (isHolding_of_modify rfl hstate other).symm)
    · exact List.append_nil _
  | @closes scope =>
    exact .unchanged ho
      ⟨unread_of_modify rfl fun _ => rfl, isHolding_of_modify rfl fun _ => rfl, rfl⟩ rfl rfl

/-! ## 4. Workers -/

/-- **What a worker has taken it applies**, and all the changes are before it. -/
theorem passes_taken {e : ScopedEvent} {inbox : BoundedQueue String ScopedEvent}
    (hidle : w.worker = .idle) (hinbox : w.inbox.take? = some (e, inbox)) (ho : w.Orderly) :
    w.Passes { applied := [e] }
      { w with
        inbox := inbox
        cache := (w.cache.apply e.scope e.event).1
        worker := .facing (w.cache.apply e.scope e.event).2 } := by
  obtain ⟨hitems, -, hclosed⟩ := BoundedQueue.take?_eq_some hinbox
  obtain ⟨hsenders, hcapacity⟩ := BoundedQueue.senders_take? hinbox
  have hchanges : (w.cache.applyAll [e]).2 = (w.cache.apply e.scope e.event).2 :=
    List.append_nil _
  have hheld : ∀ scope, ScopedEvent.within scope ((inbox.granted ++ inbox.waiting).map (·.2)) =
      w.held scope := fun scope => by rw [hsenders, held]
  refine ⟨⟨fun scope => ?_, ?_, BoundedQueue.fits_take? ho.fits hinbox,
      BoundedQueue.fair_take? hinbox, ?_, ?_⟩,
    fun scope => List.append_nil _, fun scope => ?_, rfl, ?_, [], ?_⟩
  · exact (congrArg List.length (hheld scope)).trans (ho.held scope)
  · exact hsenders ▸ ho.owned
  · exact hcapacity.trans ho.capacity
  · exact hclosed.trans ho.isOpen
  · change w.ahead scope ++ [] = ScopedEvent.within scope [e] ++
      (ScopedEvent.within scope inbox.items ++
        ScopedEvent.within scope ((inbox.granted ++ inbox.waiting).map (·.2)))
    rw [ahead, hitems, List.append_nil, hheld, ← List.append_assoc, ← ScopedEvent.within_append]
    rfl
  · rw [hidle, hchanges]
    exact (Worker.unbegun_facing _).symm
  · rw [hidle]
    cases (w.cache.apply e.scope e.event).2 <;> rfl

/-- What flows for one kind passes for it alone. -/
theorem Flows.passing_eq_empty {g : GroupVersionResource} (h : w.Flows g now action w' notes)
    (hg : g ≠ gvr) (other : Watcher) : other.passing gvr action = {} := by
  cases h <;> simp [passing, hg]

/-- **What a worker begins was the first before it**, and what it has begun is the change that it is
handling, if it is not done with it at once. -/
theorem passes_turn {e : ResourceEvent} {rest : List ResourceEvent} (progress : Progress)
    (ho : w.Orderly) (h : w.SameIntake w') (hcache : w'.cache = w.cache)
    (hworker : w'.worker = progress.next e rest) (hunbegun : w.worker.unbegun = called ++ rest)
    (hhandled : w.worker.handled?.toList ++ called = [e]) : w.Passes { called := called } w' := by
  refine .of_sameIntake ho h hcache ?_ ?_
  · rw [hworker, Progress.unbegun_next]
    exact hunbegun
  · rw [hworker, hhandled]
    cases progress with
    | waits a => exact ⟨[], rfl⟩
    | finished r => exact ⟨[e], by cases rest <;> rfl⟩

theorem sameIntake_openScope (w : Watcher) (scope : String) :
    w.SameIntake (w.openScope scope) := by
  unfold openScope
  split
  · exact .refl w
  · next hnew =>
    have hnone : w.readers.get? scope = none := by
      simpa [hasScope, SortedMap.contains] using hnew
    refine ⟨fun other => ?_, fun other => ?_, rfl⟩
    · rw [unread_of_insert rfl]
      split
      · next he => rw [he, unread, hnone]; rfl
      · rfl
    · rw [isHolding_of_insert rfl]
      split
      · next he => rw [he, isHolding, hnone]; rfl
      · rfl

end Watcher

end AppWatch
