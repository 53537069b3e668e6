/-
# Who waits, and what is watched

What a party waits for is nobody's business but its own (`Step.awaiting?_eq`), and where a wait
comes from is told by the work that has ended in it (`Step.awaiting_cases`).  Only the growths of an
action open readers (`Step.grown`).
-/
import AppWatch.Proofs.Moves

namespace AppWatch

/-! ## 1. Who waits for what -/

/-- What a worker waits for. -/
def Worker.awaiting? : Worker → Option Awaiting
  | .handling _ _ a => some a
  | _ => none

theorem Worker.awaiting?_facing (changes : List ResourceEvent) :
    (facing changes).awaiting? = none := by
  cases changes <;> rfl

theorem Progress.eq_waits {p : Progress} {a : Awaiting} (h : p.awaiting? = some a) :
    p = .waits a := by
  cases p with
  | waits b => exact congrArg waits (Option.some.inj h)
  | finished r => cases h

theorem Progress.awaiting?_next (p : Progress) (e : ResourceEvent) (rest : List ResourceEvent) :
    (p.next e rest).awaiting? = p.awaiting? := by
  cases p with
  | waits a => rfl
  | finished r => exact Worker.awaiting?_facing rest

namespace System

variable {s s' : System} {action : Action} {party p : Party} {gvr : GroupVersionResource}
  {c : Core} {e : ResourceEvent} {rest : List ResourceEvent} {o : Outcome} {gs : List Growth}
  {notes : List Note}

theorem awaiting?_worker (s : System) (gvr : GroupVersionResource) :
    s.awaiting? (.worker gvr) = (s.registry.core? gvr).bind fun c => c.worker.awaiting? := by
  simp only [awaiting?, Registry.core?]
  cases s.registry.watcher? gvr with
  | none => rfl
  | some w =>
    obtain ⟨kind, cache, readers, inbox, worker⟩ := w
    cases worker <;> rfl

/-- Growth of the registry changes no worker's wait. -/
theorem awaiting?_worker_of_extends (hext : s.registry.Extends s'.registry)
    (gvr : GroupVersionResource) : s'.awaiting? (.worker gvr) = s.awaiting? (.worker gvr) := by
  rw [awaiting?_worker, awaiting?_worker]
  rcases hext.core gvr with he | ⟨hnone, kind, -, hnew⟩
  · rw [he]
  · rw [hnone, hnew]
    rfl

theorem awaiting?_of_extends (hext : s.registry.Extends s'.registry)
    (hcallers : s'.callers = s.callers) (p : Party) : s'.awaiting? p = s.awaiting? p := by
  cases p with
  | caller id => exact congrArg (·.get? id) hcallers
  | worker gvr => exact awaiting?_worker_of_extends hext gvr

theorem awaiting?_setWorker (hc : s.registry.core? gvr = some c) (worker : Worker) (p : Party) :
    (s.setWorker gvr worker).awaiting? p =
      if p = .worker gvr then worker.awaiting? else s.awaiting? p := by
  cases p with
  | caller id =>
    rw [if_neg (by simp)]
    unfold setWorker
    split <;> rfl
  | worker g =>
    rw [awaiting?_worker, core?_setWorker hc, awaiting?_worker]
    by_cases hg : g = gvr
    · rw [if_pos hg, if_pos (by rw [hg])]
      rfl
    · rw [if_neg hg, if_neg fun he => hg (Party.worker.inj he)]

theorem awaiting?_concludeWorker {kind : KindDescriptor} (h : Outcome.Grows s gs o)
    (hc : s.registry.core? gvr = some c) (p : Party) :
    (concludeWorker gvr kind e rest o).1.awaiting? p =
      if p = .worker gvr then o.progress.awaiting? else s.awaiting? p := by
  rw [concludeWorker_system, awaiting?_setWorker (h.extends.core?_eq_some hc),
    Progress.awaiting?_next, awaiting?_of_extends h.extends h.callers]

theorem awaiting?_concludeCaller {id : Nat} (h : Outcome.Grows s gs o) (p : Party) :
    (concludeCaller id o).1.awaiting? p =
      if p = .caller id then o.progress.awaiting? else s.awaiting? p := by
  cases p with
  | worker g =>
    rw [if_neg (by simp), awaiting?_worker, registry_concludeCaller, ← awaiting?_worker]
    exact awaiting?_of_extends h.extends h.callers _
  | caller id' =>
    unfold concludeCaller
    split
    · next a hwaits =>
      simp only [awaiting?, h.callers, SortedMap.get?_insert, hwaits, Party.caller.injEq]
      rfl
    · next r hfinished =>
      simp only [awaiting?, h.callers, SortedMap.get?_erase, hfinished, Party.caller.injEq]
      rfl

/-- What a party waits for after its work, and what the others do. -/
theorem Works.awaiting? (h : s.Works action party o) :
    (∀ p, p ≠ party → (s.conclude party o).1.awaiting? p = s.awaiting? p) ∧
      ((s.conclude party o).1.awaiting? party = o.progress.awaiting? ∨
        (s.conclude party o).1.awaiting? party = none) := by
  have hgrows := h.grows
  cases party with
  | caller id =>
    refine ⟨fun p hp => ?_, .inl ?_⟩
    · exact (awaiting?_concludeCaller hgrows p).trans (if_neg hp)
    · exact (awaiting?_concludeCaller hgrows _).trans (if_pos rfl)
  | worker gvr =>
    cases ha : s.awaiting? (.worker gvr) with
    | some a =>
      obtain ⟨w, e, rest, hw, hhandling⟩ := exists_of_awaiting? ha
      rw [conclude_worker hw hhandling]
      refine ⟨fun p hp => ?_, .inl ?_⟩
      · rw [awaiting?_concludeWorker hgrows (Registry.core?_of_watcher? hw), if_neg hp]
      · rw [awaiting?_concludeWorker hgrows (Registry.core?_of_watcher? hw), if_pos rfl]
    | none =>
      have hidle : s.conclude (.worker gvr) o = (o.system, o.notes) := by
        unfold conclude
        simp only
        split
        · next hw =>
          simp only [System.awaiting?, hw] at ha
          cases ha
        · rfl
      rw [hidle]
      refine ⟨fun p _ => awaiting?_of_extends hgrows.extends hgrows.callers p, .inr ?_⟩
      exact (awaiting?_of_extends hgrows.extends hgrows.callers _).trans ha

theorem Works.party? (h : s.Works action party o) : action.party? = some party := by
  cases h <;> rfl

/-- A party that was waiting waits for what its work has come to. -/
theorem Works.awaiting?_self {w : Awaiting} (h : s.Works action party o)
    (ha : s.awaiting? party = some w) :
    (s.conclude party o).1.awaiting? party = o.progress.awaiting? := by
  have hgrows := h.grows
  cases party with
  | caller id => exact (awaiting?_concludeCaller hgrows _).trans (if_pos rfl)
  | worker gvr =>
    obtain ⟨w, e, rest, hw, hhandling⟩ := exists_of_awaiting? ha
    rw [conclude_worker hw hhandling,
      awaiting?_concludeWorker hgrows (Registry.core?_of_watcher? hw), if_pos rfl]

/-- A party whose work has come to a wait waits. -/
theorem Works.awaiting?_of_waits {a : Awaiting} (h : s.Works action party o)
    (hwaits : o.progress = .waits a) : (s.conclude party o).1.awaiting? party = some a := by
  have hself : o.progress.awaiting? = some a := by
    rw [hwaits]
    rfl
  cases h with
  | called h =>
    have hgrows := (Works.called h).grows
    exact (awaiting?_concludeCaller hgrows _).trans ((if_pos rfl).trans hself)
  | discovered ha => exact ((Works.discovered ha).awaiting?_self ha).trans hself
  | checked ha => exact ((Works.checked ha).awaiting?_self ha).trans hself
  | entered _ => cases hwaits
  | refused _ _ => cases hwaits

/-- Taking an event changes nobody's wait. -/
theorem awaiting?_taken {w : Watcher} {event : ScopedEvent}
    {inbox : BoundedQueue String ScopedEvent} (hw : s.registry.watcher? gvr = some w)
    (hidle : w.worker = .idle) (p : Party) :
    (s.taken gvr w event inbox).awaiting? p = s.awaiting? p := by
  cases p with
  | caller id => rfl
  | worker g =>
    rw [awaiting?_worker, awaiting?_worker, taken, core?_setWatcher]
    split
    · next hg =>
      rw [hg, Registry.core?_of_watcher? hw]
      simp only [Option.bind_some, Watcher.core, Worker.awaiting?_facing, hidle]
      rfl
    · rfl

/-- **A wait is nobody's business but the party's own.** -/
theorem Step.awaiting?_eq (h : Step s action s' notes) (hp : action.party? ≠ some p) :
    s'.awaiting? p = s.awaiting? p := by
  induction h with
  | works h =>
    refine h.awaiting?.1 p fun he => hp ?_
    rw [he, h.party?]
  | @begins s gvr w e rest hw hready =>
    have hgrows := s.handle_grows (.worker gvr) w e
    rw [awaiting?_concludeWorker hgrows (Registry.core?_of_watcher? hw), if_neg]
    rintro rfl
    exact hp rfl
  | passes hw hidle => exact awaiting?_taken hw hidle p
  | takes hw hidle _ _ ih => exact (ih hp).trans (awaiting?_taken hw hidle p)
  | @flows s action gvr w w' notes hw h =>
    have hext : s.registry.Extends (s.setWatcher gvr w').registry :=
      Registry.extends_insert hw h.core
    exact awaiting?_of_extends hext rfl p
  | unread => rfl
  | @elsewhere s action pipeline callers notes h hcallers =>
    cases p with
    | caller id => exact (hcallers id).trans (if_neg hp)
    | worker g => exact awaiting?_worker_of_extends (s.registry.extends_growAll _) g

/-- Workers do not report that calls have returned. -/
theorem returned_mem_of_concludeWorker {kind : KindDescriptor} {id : Nat}
    {r : Except Failure Unit} (h : .returned id r ∈ (concludeWorker gvr kind e rest o).2) :
    .returned id r ∈ o.notes := by
  unfold concludeWorker at h
  split at h
  · exact h
  · exact h
  · rcases List.mem_append.mp h with h | h
    · exact h
    · cases List.mem_singleton.mp h

/-- **A call returns by an action of its own.** -/
theorem Step.party?_of_returned {id : Nat} {r : Except Failure Unit} (h : Step s action s' notes)
    (hmem : .returned id r ∈ notes) : action.party? = some (.caller id) := by
  induction h with
  | @works s action party o h =>
    have hnot := h.grows.returns id r
    cases party with
    | worker gvr =>
      unfold conclude at hmem
      simp only at hmem
      split at hmem
      · exact absurd (returned_mem_of_concludeWorker hmem) hnot
      · exact absurd hmem hnot
    | caller id' =>
      change .returned id r ∈ (concludeCaller id' o).2 at hmem
      unfold concludeCaller at hmem
      split at hmem
      · exact absurd hmem hnot
      · rcases List.mem_append.mp hmem with hmem | hmem
        · exact absurd hmem hnot
        · cases List.mem_singleton.mp hmem
          exact h.party?
  | @begins s gvr w e rest hw hready =>
    exact absurd (returned_mem_of_concludeWorker hmem)
      ((s.handle_grows (.worker gvr) w e).returns id r)
  | @passes s gvr w e => cases e.isNotice_notes w.kind _ hmem
  | @takes s s' gvr w e inbox notes _ _ _ _ ih =>
    rcases List.mem_append.mp hmem with hmem | hmem
    · cases e.isNotice_notes w.kind _ hmem
    · cases ih hmem
  | flows _ h => cases h.isNotice _ hmem
  | unread => cases hmem
  | elsewhere h => cases h.isDelivery _ hmem

/-- The kind that a party is told to watch. -/
def Action.told? : Action → Option KindDescriptor
  | .discovered _ (.ok (some kind)) | .call _ (.addToWatch kind) => some kind
  | _ => none

theorem Works.progress_of_awaiting? {a : Awaiting} (h : s.Works action party o)
    (ha : (s.conclude party o).1.awaiting? party = some a) : o.progress = .waits a := by
  rcases h.awaiting?.2 with he | hnone
  · exact Progress.eq_waits (he.symm.trans ha)
  · exact absurd (hnone.symm.trans ha) (by simp)

/-- What a party was given when its work has come to a check. -/
theorem Works.access {kind : KindDescriptor} {scopes rest : List String} {scope : String}
    {next : Plan} (h : s.Works action party o)
    (ha : o.progress = .waits (.access kind scopes scope rest next)) :
    (action = .checked party (.ok ()) ∧ ∃ scope',
        s.awaiting? party = some (.access kind scopes scope' (scope :: rest) next)) ∨
      (action.told? = some kind ∧ action.party? = some party ∧ scopes = scope :: rest) := by
  have hno : Awaiting.isAccess (.access kind scopes scope rest next) ≠ false := by
    simp [Awaiting.isAccess]
  cases h with
  | @called id c o h =>
    cases c with
    | addToWatch k =>
      cases h
      obtain ⟨rfl, hscopes, -, hrest⟩ := s.checkScopes_access _ ha
      exact .inr ⟨rfl, rfl, hscopes.trans hrest⟩
    | watchComponents a =>
      cases h
      exact absurd (s.pursue_not_access _ ha) hno
    | handleApplication gvr e =>
      obtain ⟨w, -, rfl⟩ := Option.map_eq_some_iff.mp h
      exact absurd (s.handleApplication_not_access _ ha) hno
    | handleResource gvr e =>
      obtain ⟨w, -, rfl⟩ := Option.map_eq_some_iff.mp h
      cases s.sendChange_waits _ ha
    | send b =>
      cases h
      cases s.send_waits _ ha
  | @discovered party a c rest' next' reply h =>
    cases reply with
    | error f => cases ha
    | ok found =>
      cases found with
      | none => exact absurd (s.pursue_not_access _ ha) hno
      | some k =>
        obtain ⟨rfl, hscopes, -, hrest⟩ := checkScopes_access _ _ ha
        exact .inr ⟨rfl, rfl, hscopes.trans hrest⟩
  | @checked party k ss scope' rest' next' reply h =>
    cases reply with
    | error f => cases ha
    | ok _ =>
      obtain ⟨rfl, rfl, rfl, rfl⟩ := s.checkScopes_access _ ha
      exact .inl ⟨rfl, scope', h⟩
  | entered _ => cases ha
  | refused _ _ => cases ha

/-- **Where a wait comes from.**  A party that acts and then waits has come to it with the work of
the action, or, as a worker, with the change that it has begun. -/
theorem Step.awaiting_cases {a : Awaiting} (h : Step s action s' notes)
    (hp : action.party? = some p) (ha : s'.awaiting? p = some a) :
    (∃ o, s.Works action p o ∧ o.progress = .waits a ∧ s' = (s.conclude p o).1) ∨
      ∃ (s₁ : System) (w : Watcher) (e : ResourceEvent),
        (s₁.handle p w e).progress = .waits a := by
  induction h with
  | works h =>
    obtain rfl := Option.some.inj (h.party?.symm.trans hp)
    exact .inl ⟨_, h, h.progress_of_awaiting? ha, rfl⟩
  | @begins s gvr w e rest hw hready =>
    cases hp
    have hgrows := s.handle_grows (.worker gvr) w e
    rw [awaiting?_concludeWorker hgrows (Registry.core?_of_watcher? hw), if_pos rfl] at ha
    exact .inr ⟨s, w, e, Progress.eq_waits ha⟩
  | @passes s gvr w e inbox hw hidle =>
    cases hp
    rw [awaiting?_taken hw hidle, awaiting?_worker, Registry.core?_of_watcher? hw] at ha
    simp [Watcher.core, hidle, Worker.awaiting?] at ha
  | takes _ _ _ _ ih =>
    cases hp
    rcases ih rfl ha with ⟨o, hworks, -⟩ | hbegins
    · cases hworks
    · exact .inr hbegins
  | flows _ h => cases h <;> cases hp
  | unread _ h =>
    rcases h with rfl | ⟨items, rfl⟩
    · cases hp
    · cases hp
  | elsewhere h hcallers =>
    cases h <;> cases hp
    exact absurd (((hcallers _).trans (if_pos rfl)).symm.trans ha) (by simp)

/-- **Where a check comes from.**  It was under way before, or it is the next one after a scope was
found listable, or the first for a kind that the party is told to watch. -/
theorem Step.access {kind : KindDescriptor} {scopes rest : List String} {scope : String}
    {next : Plan} (h : Step s action s' notes)
    (ha : s'.awaiting? p = some (.access kind scopes scope rest next)) :
    s.awaiting? p = some (.access kind scopes scope rest next) ∧ action.party? ≠ some p ∨
      (action = .checked p (.ok ()) ∧ ∃ scope',
        s.awaiting? p = some (.access kind scopes scope' (scope :: rest) next)) ∨
      (action.told? = some kind ∧ action.party? = some p ∧ scopes = scope :: rest) := by
  by_cases hp : action.party? = some p
  case neg => exact .inl ⟨(h.awaiting?_eq hp).symm.trans ha, hp⟩
  rcases h.awaiting_cases hp ha with ⟨o, hworks, hwaits, -⟩ | ⟨s₁, w, e, hwaits⟩
  · exact .inr (hworks.access hwaits)
  · exact absurd (s₁.handle_not_access _ hwaits) (by simp [Awaiting.isAccess])

end System

/-! ## 2. What is watched -/

theorem Note.watches_of_isNotice {notes : List Note} (h : ∀ n ∈ notes, n.isNotice = true) :
    watches notes = [] :=
  watches_of_isPlain fun n hn => isPlain_of_isNotice (h n hn)

/-- The kind of a watcher, and which scopes it has a reader for. -/
def Watcher.watching (w : Watcher) : KindDescriptor × (String → Bool) := (w.kind, w.hasScope)

theorem Watcher.hasScope_insert {w : Watcher} {scope : String} {r : Reader}
    (hr : w.readers.get? scope = some r) (r' : Reader) :
    ({ w with readers := w.readers.insert scope r' } : Watcher).hasScope = w.hasScope := by
  funext other
  simp only [hasScope, SortedMap.contains, SortedMap.get?_insert]
  split
  · next h => rw [h, hr, Option.isSome_some, Option.isSome_some]
  · rfl

theorem Watcher.hasScope_modify (w : Watcher) (scope : String) (f : Reader → Reader) :
    ({ w with readers := w.readers.modify scope f } : Watcher).hasScope = w.hasScope := by
  funext other
  simp only [hasScope, SortedMap.contains, SortedMap.get?_modify]
  split
  · next h => rw [h, Option.isSome_map]
  · rfl

/-- What flows between a stream and the inbox opens no reader and closes none. -/
theorem Watcher.Flows.watching {w w' : Watcher} {gvr : GroupVersionResource} {now : Nat}
    {action : System.Action} {notes : List Note} (h : w.Flows gvr now action w' notes) :
    w'.watching = w.watching := by
  cases h with
  | ends hr => exact congrArg (Prod.mk _) (hasScope_insert hr _)
  | fails hr => exact congrArg (Prod.mk _) (hasScope_insert hr _)
  | brings hr => exact congrArg (Prod.mk _) (hasScope_insert hr _)
  | holds hr => exact congrArg (Prod.mk _) (hasScope_insert hr _)
  | gives hr => exact congrArg (Prod.mk _) (hasScope_insert hr _)
  | wakes hr => exact congrArg (Prod.mk _) (hasScope_insert hr _)
  | enters => exact congrArg (Prod.mk _) (w.hasScope_modify _ _)
  | yields => exact congrArg (Prod.mk _) (w.hasScope_modify _ _)
  | closes => exact congrArg (Prod.mk _) (w.hasScope_modify _ _)

namespace Registry

variable {r r' r'' : Registry} {gvr : GroupVersionResource} {w w' : Watcher}

/-- Two registries permit the same namespaces and watch the same kinds in the same scopes. -/
structure SameWatches (r r' : Registry) : Prop extends r.SameSettings r' where
  filter : r'.filter = r.filter
  watching : ∀ gvr,
    (r'.watcher? gvr).map Watcher.watching = (r.watcher? gvr).map Watcher.watching

theorem SameWatches.refl (r : Registry) : r.SameWatches r := ⟨.refl r, rfl, fun _ => rfl⟩

theorem SameWatches.trans (h : r.SameWatches r') (h' : r'.SameWatches r'') :
    r.SameWatches r'' :=
  ⟨h.toSameSettings.trans h'.toSameSettings, h'.filter.trans h.filter,
    fun gvr => (h'.watching gvr).trans (h.watching gvr)⟩

theorem sameWatches_insert (hw : r.watcher? gvr = some w) (h : w'.watching = w.watching) :
    r.SameWatches { r with watchers := r.watchers.insert gvr w' } := by
  refine ⟨⟨rfl, rfl, rfl⟩, rfl, fun g => ?_⟩
  rw [watcher?_insert]
  split
  · next hg => rw [hg, hw, Option.map_some, Option.map_some, h]
  · rfl

end Registry

namespace System

variable {s s' : System} {action : Action} {party : Party} {gvr : GroupVersionResource}
  {o : Outcome} {notes : List Note}

theorem sameWatches_setWorker (s : System) (gvr : GroupVersionResource) (worker : Worker) :
    s.registry.SameWatches (s.setWorker gvr worker).registry := by
  unfold setWorker
  split
  · exact .refl _
  · next w hw =>
    refine Registry.sameWatches_insert hw ?_
    rfl

theorem notes_concludeWorker (gvr : GroupVersionResource) (kind : KindDescriptor)
    (e : ResourceEvent) (rest : List ResourceEvent) (o : Outcome) :
    Note.watches (concludeWorker gvr kind e rest o).2 = Note.watches o.notes := by
  unfold concludeWorker
  split
  · rfl
  · rfl
  · exact (Note.watches_append _ _).trans (List.append_nil _)

/-- A party that concludes its work opens no reader any more. -/
theorem sameWatches_conclude (s : System) (party : Party) (o : Outcome) :
    o.system.registry.SameWatches (s.conclude party o).1.registry ∧
      Note.watches (s.conclude party o).2 = Note.watches o.notes := by
  cases party with
  | caller id =>
    refine ⟨?_, ?_⟩
    · rw [show s.conclude (.caller id) o = concludeCaller id o from rfl, registry_concludeCaller]
      exact .refl _
    · change Note.watches (concludeCaller id o).2 = _
      unfold concludeCaller
      split
      · rfl
      · exact (Note.watches_append _ _).trans (List.append_nil _)
  | worker gvr =>
    unfold conclude
    simp only
    split
    · rw [concludeWorker_system]
      exact ⟨sameWatches_setWorker _ _ _, notes_concludeWorker _ _ _ _ o⟩
    · exact ⟨.refl _, rfl⟩

theorem sameWatches_taken {w : Watcher} (hw : s.registry.watcher? gvr = some w) (e : ScopedEvent)
    (inbox : BoundedQueue String ScopedEvent) :
    s.registry.SameWatches (s.taken gvr w e inbox).registry := by
  refine Registry.sameWatches_insert hw ?_
  rfl

/-- **Only the growths of an action open readers**, and the watches that are asked for in a step are
those of its growths. -/
theorem Step.grown (h : Step s action s' notes) :
    (s.registry.growAll (s.growth action)).1.SameWatches s'.registry ∧
      Note.watches notes = (s.registry.growAll (s.growth action)).2 := by
  induction h with
  | @works s action party o h =>
    have hgrows := h.grows
    obtain ⟨hsame, hnotes⟩ := s.sameWatches_conclude party o
    exact ⟨hgrows.registry ▸ hsame, hnotes.trans hgrows.watches⟩
  | @begins s gvr w e rest hw hready =>
    have hgrows := s.handle_grows (.worker gvr) w e
    rw [concludeWorker_system]
    refine ⟨?_, (notes_concludeWorker ..).trans hgrows.watches⟩
    have hsame := sameWatches_setWorker (s.handle (.worker gvr) w e).system gvr
      ((s.handle (.worker gvr) w e).progress.next e rest)
    rw [hgrows.registry] at hsame
    exact hsame
  | @passes s gvr w e inbox hw =>
    exact ⟨sameWatches_taken hw _ _, Note.watches_of_isNotice (e.isNotice_notes w.kind)⟩
  | @takes s s' gvr w e inbox notes hw _ _ _ ih =>
    refine ⟨(sameWatches_taken hw _ _).trans ih.1, ?_⟩
    rw [Note.watches_append, Note.watches_of_isNotice (e.isNotice_notes w.kind)]
    exact ih.2
  | @flows s action gvr w w' notes hw h =>
    have hgrowth : s.growth action = [] := by
      cases h <;> rfl
    rw [hgrowth]
    exact ⟨Registry.sameWatches_insert hw h.watching, Note.watches_of_isNotice h.isNotice⟩
  | @unread s action gvr scope hw h =>
    have hgrowth : s.growth action = [] := by
      rcases h with rfl | ⟨items, rfl⟩
      · rfl
      · rfl
    rw [hgrowth]
    exact ⟨.refl _, rfl⟩
  | @elsewhere s action pipeline callers notes h hcallers =>
    have hasked : (s.registry.growAll (s.growth action)).2 = [] := by cases h <;> rfl
    have hnone := Note.watches_of_isPlain fun n hn =>
      Note.isPlain_of_isDelivery (h.isDelivery n hn)
    exact ⟨.refl _, hnone.trans hasked.symm⟩

end System

end AppWatch
