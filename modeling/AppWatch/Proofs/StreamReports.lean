/-
# Who reports a failing stream

Much is noted in the engine, by many parties, but that a stream has failed is noted by its reader
alone: nothing else that an action does ends in such a notice (`quiet_of_step`), and a reader notes
it in the step in which it reads the failure.  Since each watcher stands under its own kind, the
kind and the scope of a notice tell whose stream it was.  So the reports that the engine makes of
one stream are those in the diary of its reader, each once and in order (`reports_run`).
-/
import AppWatch.Proofs.Pledges
import AppWatch.Proofs.Readers

namespace AppWatch

/-! ## 1. Notices of failing streams -/

namespace Note

/-- Whether a note is that a stream has failed. -/
def isStreamFailure : Note → Bool
  | .notice (.streamFailed _ _ _ _) => true
  | _ => false

/-- Whether a note is that the stream of a scope has failed. -/
def isFailureOf (kind : KindDescriptor) (scope : String) : Note → Bool
  | .notice (.streamFailed k s _ _) => k = kind && s = scope
  | _ => false

/-- No note is that a stream has failed. -/
def Quiet (notes : List Note) : Prop := ∀ n ∈ notes, n.isStreamFailure = false

variable {notes notes' : List Note} {kind : KindDescriptor} {scope : String}

theorem quiet_nil : Quiet [] := fun _ hn => absurd hn List.not_mem_nil

theorem quiet_singleton {n : Note} (h : n.isStreamFailure = false) : Quiet [n] := by
  intro m hm
  rw [List.mem_singleton.mp hm]
  exact h

theorem Quiet.append (h : Quiet notes) (h' : Quiet notes') : Quiet (notes ++ notes') :=
  fun n hn => (List.mem_append.mp hn).elim (h n) (h' n)

theorem quiet_map {α : Type} {f : α → Note} {l : List α}
    (h : ∀ x ∈ l, (f x).isStreamFailure = false) : Quiet (l.map f) := by
  intro n hn
  obtain ⟨x, hx, rfl⟩ := List.mem_map.mp hn
  exact h x hx

/-- Where nothing is noted of any stream, nothing is noted of one. -/
theorem Quiet.filter_eq_nil (h : Quiet notes) : notes.filter (isFailureOf kind scope) = [] := by
  refine List.filter_eq_nil_iff.mpr fun n hn hfailure => ?_
  have hquiet := h n hn
  cases n with
  | notice x => cases x <;> first | cases hfailure | cases hquiet
  | _ => cases hfailure

end Note

open Note

/-! ## 2. Parties -/

/-- Of a snapshot it is noted at most that objects are no applications. -/
theorem Registry.quiet_parseApplications (r : Registry) (os : List ClusterObject) :
    ∀ x ∈ (r.parseApplications os).2, (Note.notice x).isStreamFailure = false := by
  induction os with
  | nil => simp [parseApplications]
  | cons o os ih =>
    unfold parseApplications
    cases Application.ofObject r.applicationKind r.namespacesKey o with
    | ok a => exact ih
    | error e => exact List.forall_mem_cons.mpr ⟨rfl, ih⟩

namespace System

variable {s s' : System} {party : Party} {action : Action} {o : Outcome} {notes : List Note}
  {gvr g : GroupVersionResource} {scope : String} {w w' : Watcher}

theorem quiet_send (s : System) (party : Party) (b : Batch) : Quiet (s.send party b).notes := by
  unfold send
  split
  · exact quiet_nil
  · split
    · exact quiet_singleton rfl
    · exact quiet_singleton rfl
    · exact quiet_nil

theorem quiet_sendChange (s : System) (party : Party) (kind : KindDescriptor)
    (change : Change ClusterObject) (build : Resolver → Change ResourceInfo → Batch) :
    Quiet (s.sendChange party kind change build).notes := by
  unfold sendChange
  split
  · exact quiet_nil
  · exact (quiet_map (s.registry.quiet_parseApplications _)).append (s.quiet_send party _)

theorem quiet_pursue (s : System) (party : Party) (plan : Plan) :
    Quiet (s.pursue party plan).notes := by
  fun_induction pursue s party plan with
  | case1 => exact quiet_nil
  | case2 a next ih => exact ih
  | case3 a c rest next => exact quiet_singleton rfl
  | case4 kind change => exact s.quiet_sendChange party kind change _

theorem quiet_checkScopes (s : System) (party : Party) (kind : KindDescriptor)
    (scopes rest : List String) (next : Plan) :
    Quiet (s.checkScopes party kind scopes rest next).notes := by
  cases rest with
  | nil => exact (quiet_map fun _ _ => rfl).append (quiet_pursue _ party next)
  | cons scope rest => exact quiet_singleton rfl

theorem quiet_addToWatch (s : System) (party : Party) (kind : KindDescriptor) (next : Plan) :
    Quiet (s.addToWatch party kind next).notes :=
  s.quiet_checkScopes party kind _ _ next

theorem quiet_handleApplication (s : System) (party : Party) (kind : KindDescriptor)
    (cache : WatchCache) (e : ResourceEvent) :
    Quiet (s.handleApplication party kind cache e).notes := by
  unfold handleApplication
  simp only
  split
  · exact s.quiet_pursue party _
  · split
    · exact quiet_nil
    · exact s.quiet_pursue party _

theorem quiet_handle (s : System) (party : Party) (w : Watcher) (e : ResourceEvent) :
    Quiet (s.handle party w e).notes := by
  unfold handle
  split
  · exact s.quiet_handleApplication party _ _ e
  · exact s.quiet_sendChange party _ _ _

/-- The work of a party ends in no report of a stream. -/
theorem Works.quiet (h : s.Works action party o) : Quiet o.notes := by
  cases h with
  | @called id c o h =>
    cases c with
    | addToWatch kind =>
      cases h
      exact s.quiet_addToWatch _ kind .done
    | watchComponents a =>
      cases h
      exact s.quiet_pursue _ _
    | handleApplication gvr e =>
      obtain ⟨w, -, rfl⟩ := Option.map_eq_some_iff.mp h
      exact s.quiet_handleApplication _ _ _ e
    | handleResource gvr e =>
      obtain ⟨w, -, rfl⟩ := Option.map_eq_some_iff.mp h
      exact s.quiet_sendChange _ _ _ _
    | send b =>
      cases h
      exact s.quiet_send _ b
  | @discovered party a c rest next reply h =>
    cases reply with
    | error f => exact quiet_nil
    | ok found =>
      cases found with
      | none => exact (quiet_singleton rfl).append (s.quiet_pursue party _)
      | some kind => exact quiet_addToWatch _ party kind _
  | @checked party kind scopes scope rest next reply h =>
    cases reply with
    | error f => exact quiet_nil
    | ok _ => exact s.quiet_checkScopes party kind scopes rest next
  | entered _ => exact quiet_nil
  | refused _ _ => exact quiet_nil

theorem quiet_concludeWorker (gvr : GroupVersionResource) (kind : KindDescriptor)
    (e : ResourceEvent) (rest : List ResourceEvent) (h : Quiet o.notes) :
    Quiet (concludeWorker gvr kind e rest o).2 := by
  unfold concludeWorker
  split
  · exact h
  · exact h
  · exact h.append (quiet_singleton rfl)

theorem quiet_conclude (s : System) (party : Party) (h : Quiet o.notes) :
    Quiet (s.conclude party o).2 := by
  cases party with
  | caller id =>
    simp only [conclude, concludeCaller]
    split
    · exact h
    · exact h.append (quiet_singleton rfl)
  | worker gvr =>
    simp only [conclude]
    split
    · exact quiet_concludeWorker _ _ _ _ h
    · exact h

/-- A worker that begins a change reports no stream. -/
theorem Step.quiet_proceed (h : Step s (.proceed gvr) s' notes) : Quiet notes := by
  obtain ⟨w, e, rest, -, -, heq⟩ := h.begun
  rw [(Prod.mk.inj heq).2]
  exact quiet_concludeWorker _ _ _ _ (s.quiet_handle _ w e)

theorem quiet_notes (e : ScopedEvent) (kind : KindDescriptor) : Quiet (e.notes kind) := by
  unfold ScopedEvent.notes
  split
  · exact quiet_singleton rfl
  · exact quiet_nil

/-- **Only readers report a failing stream.** -/
theorem quiet_of_step (h : s.step action = some (s', notes))
    (hread : ∀ gvr scope, action ≠ .read gvr scope) : Quiet notes := by
  cases hstop : action.stops with
  | true =>
    rw [(stopped_of_stops h hstop).2]
    exact quiet_nil
  | false =>
    cases step_cases h hstop with
    | works hworks => exact s.quiet_conclude _ hworks.quiet
    | begins hw hready => exact quiet_concludeWorker _ _ _ _ (s.quiet_handle _ _ _)
    | passes => exact quiet_notes _ _
    | takes _ _ _ after => exact (quiet_notes _ _).append after.quiet_proceed
    | flows hw hflows =>
      cases hflows with
      | fails => exact absurd rfl (hread _ _)
      | _ => exact quiet_nil
    | unread => exact quiet_nil
    | elsewhere h =>
      intro n hn
      have hdelivery := h.isDelivery n hn
      cases n <;> first | rfl | cases hdelivery

/-! ## 3. Readers -/

/-- A reader reports nothing when its stream is over, and its own stream at most otherwise. -/
theorem notes_of_read (h : s.step (.read g scope) = some (s', notes)) :
    ∃ w, s.registry.watcher? g = some w ∧
      (notes = [] ∨ w.unread scope ≠ [] ∧
        ∃ count f, notes = [.notice (.streamFailed w.kind scope count f)]) := by
  obtain ⟨_, w, w', hw, hflows, -⟩ := (step_cases h rfl).exists_flows rfl
  cases hflows with
  | fails hr hreading hunread =>
    refine ⟨w, hw, ?_⟩
    split
    · refine .inr ⟨?_, _, _, rfl⟩
      rw [Watcher.unread_of_get? hr, hunread]
      exact List.cons_ne_nil _ _
    · exact .inl rfl
  | _ => exact ⟨w, hw, .inl rfl⟩

/-- **What a step reports of a stream is in the diary of its reader.** -/
theorem reports_of_step (hsound : s.registry.Sound) (h : s.step action = some (s', notes))
    (hw : s.registry.watcher? gvr = some w) :
    notes.filter (isFailureOf w.kind scope) =
      (s.entry s' gvr scope action notes).readings.flatMap StreamReading.notes := by
  have hwatcher := Registry.watcherAt_of_watcher? hw
  by_cases hread : ∃ g other, action = .read g other
  · obtain ⟨g, other, rfl⟩ := hread
    obtain ⟨v, hv, hnotes⟩ := notes_of_read h
    rw [entry, hwatcher, Watcher.entry, Watcher.passing]
    rcases hnotes with rfl | ⟨hunread, count, f, rfl⟩
    · simp [List.flatMap_map]
    · by_cases hown : g = gvr ∧ scope = other
      · obtain ⟨rfl, rfl⟩ := hown
        obtain rfl := Option.some.inj (hw.symm.trans hv)
        obtain ⟨item, rest, hitem⟩ := List.exists_cons_of_ne_nil hunread
        simp [hitem, isFailureOf]
      · -- another stream has another kind or another scope
        have hother : isFailureOf w.kind scope
            (.notice (.streamFailed v.kind other count f)) = false := by
          have hvkind : v.kind.gvr = g := (hsound g v.core (Registry.core?_of_watcher? hv)).1
          have hwkind : w.kind.gvr = gvr := (hsound gvr w.core (Registry.core?_of_watcher? hw)).1
          have hne : ¬ (v.kind = w.kind ∧ other = scope) := by
            rintro ⟨hkind, hscope⟩
            exact hown ⟨by rw [← hvkind, hkind, hwkind], hscope.symm⟩
          simpa [isFailureOf] using hne
        simp [hown, hother]
  · have hquiet := quiet_of_step h fun g other he => hread ⟨g, other, he⟩
    have hnothing : ((s.registry.watcherAt gvr).passing gvr action).yielded scope = [] := by
      cases action with
      | read g other => exact absurd ⟨g, other, rfl⟩ hread
      | take g | proceed g =>
        simp only [Watcher.passing]
        split <;> rfl
      | _ => rfl
    rw [hquiet.filter_eq_nil, entry, Watcher.entry, hnothing]
    rfl

/-- Whatever the parties do, the kinds stay in order. -/
theorem consistent_run {app : GroupVersionResource} {actions : List Action} (hroomed : s.Roomed)
    (hc : s.Consistent app) (hrun : s.run actions = some (s', notes)) :
    s'.Roomed ∧ s'.Consistent app := by
  induction actions generalizing s notes with
  | nil =>
    cases hrun
    exact ⟨hroomed, hc⟩
  | cons action actions ih =>
    obtain ⟨s₁, notes₁, notes₂, hstep, hrest, -⟩ := run_cons hrun
    obtain ⟨hroomed₁, hc₁⟩ := consistent_step hroomed hc hstep
    exact ih hroomed₁ hc₁ hrest

/-- **The reports that the engine makes of a stream are those of its reader.** -/
theorem reports_run {app : GroupVersionResource} {actions : List Action} {r : Reader}
    (hroomed : s.Roomed) (hc : s.Consistent app) (hkept : s.Kept)
    (hrun : s.run actions = some (s', notes))
    (hstay : ∀ a ∈ actions, a ≠ .stop ∧ a ≠ .stopWatcher gvr)
    (hw : s.registry.watcher? gvr = some w) (hr : w.readers.get? scope = some r) :
    notes.filter (isFailureOf w.kind scope) =
      (s.diary gvr scope actions).readings.flatMap StreamReading.notes := by
  induction actions generalizing s notes w r with
  | nil =>
    cases hrun
    rfl
  | cons action actions ih =>
    obtain ⟨s₁, notes₁, notes₂, hstep, hrest, rfl⟩ := run_cons hrun
    obtain ⟨hstop, hhere⟩ := hstay action List.mem_cons_self
    obtain ⟨w₁, r₁, hw₁, hkind, -, hr₁, -⟩ := takesTurn_of_step hkept hstep hw hr hstop hhere
    obtain ⟨hroomed₁, hc₁⟩ := consistent_step hroomed hc hstep
    have hlater := ih hroomed₁ hc₁ (hkept.step hstep) hrest
      (fun a ha => hstay a (List.mem_cons_of_mem _ ha)) hw₁ hr₁
    rw [hkind] at hlater
    rw [diary, hstep, Diary.readings_append, List.filter_append, List.flatMap_append,
      reports_of_step hc.sound hstep hw, hlater]

end System

end AppWatch
