/-
# Batches are well-formed from the builder to the callback

A batch that is well-formed when it is sent stays so wherever it goes: it waits for room, stands in
the queue, is merged into a window and is taken apart into calls.  What is left to show is that it is
well-formed when it is sent.  The worker of a kind that sends it either has its turn with a change
that stands in its cache, or it has come to the end of a plan made for this change; both ways the
batch is the one that is due for the change (`System.handle_ships`, `System.Works.ships`).

The main result holds of every step of every run, with stops, and with calls from outside that do
nothing the engine would not do itself.
-/
import AppWatch.Proofs.Pledges
import AppWatch.Proofs.Reports

namespace AppWatch

namespace System

open Outcome

/-! ## 1. The batch that is due -/

/-- The change that the worker of a kind has its turn with in an action, if it has one. -/
def underway (s : System) (action : Action) (gvr : GroupVersionResource) : Option ResourceEvent :=
  (s.registry.watcherAt gvr).worker.handled?.or
    ((s.registry.watcherAt gvr).passing gvr action).called.head?

section Ways

variable {s s' : System} {app gvr : GroupVersionResource} {party : Party} {action : Action}
  {o : Outcome} {notes : List Note} {w : Watcher} {e : ResourceEvent} {rest : List ResourceEvent}
  {kind : KindDescriptor} {change : Change ClusterObject}
  {change? : GroupVersionResource → Option ResourceEvent}

/-- The batch at the end of a plan is due, if the plan has been made for it. -/
theorem Consistent.ships_planned (hc : s.Consistent app)
    (hext : s.registry.Extends o.system.registry)
    {final? : Option (KindDescriptor × Change ClusterObject)}
    (h : Ships s party (IsPlanned final?) o)
    (hfinal : ∀ kind change, final? = some (kind, change) →
      kind.gvr = app ∧ ∀ g, party = .worker g → g = app ∧
        ∃ d, change? g = some d ∧ change = d.change) :
    Ships s party (fun _ b => b.IsDue app party change?) o := by
  obtain ⟨hproper, happ⟩ := hc.proper hext
  refine h.mono fun b _ hb => ?_
  obtain ⟨kind, change, parsed, hplan, hparsed, rfl⟩ := hb
  obtain ⟨hkind, hworker⟩ := hfinal kind change hplan
  rw [← happ] at hkind ⊢
  refine ⟨Batch.divided_ofApplicationChange hproper, fun g hg => ?_⟩
  obtain ⟨hgvr, d, hd, rfl⟩ := hworker g hg
  refine ⟨d, hd, ?_⟩
  rw [hgvr, ← happ]
  exact Batch.reports_ofApplicationChange hproper hkind hparsed

/-- So is the batch that the handler of the other kinds sends at once. -/
theorem Consistent.ships_resource (hc : s.Consistent app) (hkind : kind.gvr ≠ app)
    (hext : s.registry.Extends
      (s.sendChange party kind change Batch.ofResourceChange).system.registry)
    (hworker : ∀ g, party = .worker g → kind.gvr = g ∧
      ∃ d, change? g = some d ∧ change = d.change) :
    Ships s party (fun _ b => b.IsDue app party change?)
      (s.sendChange party kind change Batch.ofResourceChange) := by
  obtain ⟨hproper, happ⟩ := hc.proper hext
  refine (s.sendChange_ships party kind change _).mono fun b _ hb => ?_
  obtain ⟨parsed, hparsed, rfl⟩ := hb
  have hgvr := ResourceInfo.gvr_ofObject (Change.latest_mapM? hparsed)
  rw [← happ] at hkind ⊢
  refine ⟨Batch.divided_ofResourceChange hproper (hgvr ▸ hkind), fun g hg => ?_⟩
  obtain ⟨rfl, d, hd, rfl⟩ := hworker g hg
  exact ⟨d, hd, Batch.reports_ofResourceChange hkind hparsed⟩

/-- **A party that goes on with its work sends the batch that is due.** -/
theorem Works.ships (h : s.Works action party o) (hc : s.Consistent app) (hp : s.Pledged app)
    (hregular : action.IsRegular app) :
    Ships s party (fun _ b => b.IsDue app party (s.underway action)) o := by
  have hext := h.grows.extends
  have hwaiting : ∀ a, s.awaiting? party = some a → ∀ kind change,
      a.final? = some (kind, change) → kind.gvr = app ∧ ∀ g, party = .worker g → g = app ∧
        ∃ d, s.underway action g = some d ∧ change = d.change := by
    intro a ha kind change hfinal
    obtain ⟨hkind, hworker⟩ := hp.of_awaiting? ha hfinal
    refine ⟨hkind, fun g hg => ?_⟩
    obtain ⟨hgvr, d, hd, hchange⟩ := hworker g hg
    refine ⟨hgvr, d, ?_, hchange⟩
    rw [underway, hd, Option.some_or]
  cases h with
  | @called id c o hbegin =>
    -- whoever calls from outside is no worker
    have hcaller : ∀ g, Party.caller id ≠ .worker g := by simp
    cases c with
    | addToWatch k =>
      cases hbegin
      exact hc.ships_planned hext (s.addToWatch_ships (.caller id) k .done) (by simp [Plan.final?])
    | watchComponents a =>
      cases hbegin
      exact hc.ships_planned hext
        (s.pursue_ships (.caller id) (.components a a.componentKinds .done)) (by simp [Plan.final?])
    | handleApplication g d =>
      obtain ⟨w, hw, rfl⟩ := Option.map_eq_some_iff.mp hbegin
      refine hc.ships_planned hext (s.handleApplication_ships (.caller id) w.kind w.cache d) ?_
      rintro kind change hfinal
      cases hfinal
      exact ⟨(hc.sound g w.core (Registry.core?_of_watcher? hw)).1.trans hregular,
        fun g hg => absurd hg (hcaller g)⟩
    | handleResource g d =>
      obtain ⟨w, hw, rfl⟩ := Option.map_eq_some_iff.mp hbegin
      have hkind : w.kind.gvr = g := (hc.sound g w.core (Registry.core?_of_watcher? hw)).1
      exact hc.ships_resource (hkind ▸ hregular) hext fun g hg => absurd hg (hcaller g)
    | send b =>
      cases hbegin
      refine (s.send_ships (.caller id) b).mono ?_
      rintro c - rfl
      exact ⟨hregular, fun g hg => absurd hg (hcaller g)⟩
  | @discovered party a c rest next reply ha =>
    exact hc.ships_planned hext (s.onDiscovery_ships party a c rest next reply) (hwaiting _ ha)
  | @checked party k scopes scope rest next reply ha =>
    exact hc.ships_planned hext (s.onAccess_ships party k scopes scope rest next reply)
      (hwaiting _ ha)
  | @entered party q hq =>
    exact ships_nothing _ (by simp) (fun b hb => BoundedQueue.mem_line_of_enter? hq hb) rfl
  | refused _ _ => exact ships_nothing _ (by simp) (List.Subset.refl _) rfl

theorem underway_proceed (hw : s.registry.watcher? gvr = some w)
    (hready : w.worker = .ready e rest) : s.underway (.proceed gvr) gvr = some e := by
  rw [underway, passing_proceed hw, if_pos rfl, Registry.watcherAt_of_watcher? hw, hready]
  rfl

/-- **A worker that begins a change sends the batch that is due for it.** -/
theorem handle_ships (hc : s.Consistent app) (hw : s.registry.watcher? gvr = some w)
    (hready : w.worker = .ready e rest) :
    Ships s (.worker gvr) (fun _ b => b.IsDue app (.worker gvr) (s.underway (.proceed gvr)))
      (s.handle (.worker gvr) w e) := by
  have hext := (s.handle_grows (.worker gvr) w e).extends
  have hcore := Registry.core?_of_watcher? hw
  have hgvr : w.kind.gvr = gvr := (hc.sound gvr w.core hcore).1
  have hstands : w.cache.Stands e :=
    hc.faithful gvr w.core hcore e (hready ▸ List.mem_cons_self : e ∈ w.worker.unbegun)
  have hdue := underway_proceed hw hready
  by_cases happ : s.registry.isApplicationKind w.kind = true
  · have hkind : w.kind.gvr = app := (decide_eq_true_iff.mp happ).trans hc.kind
    rw [handle, if_pos happ] at hext ⊢
    refine hc.ships_planned hext (s.handleApplication_ships _ w.kind w.cache e) ?_
    rintro kind change hfinal
    cases hfinal
    refine ⟨hkind, fun g hg => ?_⟩
    cases hg
    exact ⟨hgvr.symm.trans hkind, e, hdue, hstands.latestChange_eq⟩
  · have hkind : w.kind.gvr ≠ app := fun he => happ (decide_eq_true_iff.mpr (he.trans hc.kind.symm))
    rw [handle, if_neg happ] at hext ⊢
    refine hc.ships_resource hkind hext fun g hg => ?_
    cases hg
    exact ⟨hgvr, e, hdue, hstands.latestChange_eq⟩

/-! ## 2. Steps -/

/-- What was sent keeps the way to the callbacks well-formed. -/
theorem wellFormed_of_ships (h : Ships s party (fun _ b => b.IsDue app party change?) o)
    (hpipeline : s.pipeline.WellFormed app) :
    o.system.pipeline.WellFormed app ∧ ∀ n ∈ o.notes, n.IsRight app change? := by
  have hright : ∀ b, Note.sent party b ∈ o.notes →
      b.WellFormed app ∧ b.IsDue app party change? := by
    intro b hb
    obtain ⟨c, hbc, hc, hdue⟩ := h.sent _ hb rfl
    cases hbc
    exact ⟨⟨hdue.toIsDivided, hc⟩, hdue⟩
  refine ⟨⟨fun b hb => ?_, h.phase ▸ hpipeline.phase⟩, fun n hn => ?_⟩
  · rcases h.line b hb with hline | hsent
    · exact hpipeline.line b hline
    · exact (hright b hsent).1
  · cases hshipment : n.isShipment with
    | false => exact Note.isRight_of_not_isShipment hshipment
    | true =>
      obtain ⟨b, rfl, -, -⟩ := h.sent n hn hshipment
      obtain ⟨hb, hdue⟩ := hright b hn
      exact ⟨hb, hdue.reports⟩

/-- A worker that concludes its turn may add that its handler has failed. -/
theorem isRight_concludeWorker (h : ∀ n ∈ o.notes, n.IsRight app change?) :
    ∀ n ∈ (concludeWorker gvr kind e rest o).2, n.IsRight app change? := by
  intro n hn
  unfold concludeWorker at hn
  split at hn
  · exact h n hn
  · exact h n hn
  · rcases List.mem_append.mp hn with hn | hn
    · exact h n hn
    · cases List.mem_singleton.mp hn
      trivial

/-- Whoever concludes its work does nothing to the queue any more. -/
theorem wellFormed_conclude (h : o.system.pipeline.WellFormed app)
    (hnotes : ∀ n ∈ o.notes, n.IsRight app change?) (s : System) (party : Party) :
    (s.conclude party o).1.pipeline.WellFormed app ∧
      ∀ n ∈ (s.conclude party o).2, n.IsRight app change? := by
  cases party with
  | caller id =>
    refine ⟨(pipeline_concludeCaller id o).symm ▸ h, fun n hn => ?_⟩
    rw [conclude, concludeCaller] at hn
    split at hn
    · exact hnotes n hn
    · rcases List.mem_append.mp hn with hn | hn
      · exact hnotes n hn
      · cases List.mem_singleton.mp hn
        trivial
  | worker g =>
    rcases s.conclude_worker_cases g o with ⟨w, e, rest, a, -, -, heq⟩ | ⟨-, heq⟩
    · rw [heq]
      exact ⟨(pipeline_concludeWorker ..).symm ▸ h, isRight_concludeWorker hnotes⟩
    · rw [heq]
      exact ⟨h, hnotes⟩

theorem wellFormed_proceed (hc : s.Consistent app) (hpipeline : s.pipeline.WellFormed app)
    (h : Step s (.proceed gvr) s' notes) :
    s'.pipeline.WellFormed app ∧ ∀ n ∈ notes, n.IsRight app (s.underway (.proceed gvr)) := by
  obtain ⟨w, e, rest, hw, hready, heq⟩ := h.begun
  obtain ⟨rfl, rfl⟩ := Prod.ext_iff.mp heq
  obtain ⟨hafter, hnotes⟩ := wellFormed_of_ships (handle_ships hc hw hready) hpipeline
  exact ⟨(pipeline_concludeWorker ..).symm ▸ hafter, isRight_concludeWorker hnotes⟩

/-- The change that a worker begins when it has taken an event. -/
theorem underway_taken {event : ScopedEvent} {inbox : BoundedQueue String ScopedEvent}
    (hw : s.registry.watcher? gvr = some w) (hidle : w.worker = .idle)
    (hinbox : w.inbox.take? = some (event, inbox)) :
    (s.taken gvr w event inbox).underway (.proceed gvr) = s.underway (.take gvr) := by
  have hw' := watcher?_taken s gvr w event inbox
  funext g
  rw [underway, underway, passing_proceed hw', passing_take hw hinbox, Worker.unbegun_facing]
  by_cases hg : g = gvr
  · subst hg
    rw [if_pos rfl, if_pos rfl, Registry.watcherAt_of_watcher? hw',
      Registry.watcherAt_of_watcher? hw, hidle]
    have hnone : (Worker.facing (w.cache.apply event.scope event.event).2).handled? = none := by
      cases (w.cache.apply event.scope event.event).2 <;> rfl
    rw [hnone]
    rfl
  · have hsame : (s.taken gvr w event inbox).registry.watcherAt g = s.registry.watcherAt g :=
      (Registry.watcherAt_insert s.registry gvr _ g).trans (if_neg hg)
    rw [if_neg (Ne.symm hg), if_neg (Ne.symm hg), hsame]

/-- What is left of a line is well-formed. -/
theorem wellFormed_of_line_subset (h : s.pipeline.WellFormed app) {q : BoundedQueue Party Batch}
    (hq : q.line ⊆ s.queue.line) : (s.setQueue q).pipeline.WellFormed app :=
  ⟨fun b hb => h.line b (hq hb), h.phase⟩

/-- What neither a reader nor a party does. -/
theorem wellFormed_shifts {p : Pipeline Party} (hpipeline : s.pipeline.WellFormed app)
    (h : s.pipeline.Shifts action p notes) :
    p.WellFormed app ∧ ∀ n ∈ notes, n.IsRight app change? := by
  cases h with
  | processes hp =>
    obtain ⟨hafter, hcall⟩ := hpipeline.step hp
    refine ⟨hafter, fun n hn => ?_⟩
    obtain ⟨c, hc, rfl⟩ := List.mem_map.mp hn
    exact hcall c (Option.mem_toList.mp hc)
  | ticks => exact ⟨⟨hpipeline.line, hpipeline.phase⟩, by simp⟩
  | leaves =>
    exact ⟨wellFormed_of_line_subset hpipeline
      (BoundedQueue.line_keepSenders_sublist _ _).subset, by simp⟩
  | permits => exact ⟨hpipeline, by simp⟩
  | @receives b q hq =>
    have hline := BoundedQueue.line_take? hq
    refine ⟨wellFormed_of_line_subset hpipeline ?_, fun n hn => ?_⟩
    · change q.line ⊆ s.pipeline.queue.line
      rw [hline]
      exact List.subset_cons_self _ _
    · cases List.mem_singleton.mp hn
      exact hpipeline.line b (show b ∈ s.pipeline.queue.line from hline ▸ List.mem_cons_self)
  | closes => exact ⟨wellFormed_of_line_subset hpipeline (List.nil_subset _), by simp⟩

/-- **No step brings anything on its way but well-formed batches that report what has changed.** -/
theorem wellFormed_step (hc : s.Consistent app) (hp : s.Pledged app)
    (hpipeline : s.pipeline.WellFormed app) (hregular : action.IsRegular app)
    (hs : s.step action = some (s', notes)) :
    s'.pipeline.WellFormed app ∧ ∀ n ∈ notes, n.IsRight app (s.underway action) := by
  cases hstop : action.stops with
  | true =>
    obtain ⟨keep, hafter⟩ := pipeline_of_stops hs hstop
    rw [hafter, (stopped_of_stops hs hstop).2]
    exact ⟨wellFormed_of_line_subset hpipeline
      (BoundedQueue.line_keepSenders_sublist _ _).subset, by simp⟩
  | false =>
    cases step_cases hs hstop with
    | works h =>
      obtain ⟨hafter, hnotes⟩ := wellFormed_of_ships (h.ships hc hp hregular) hpipeline
      exact wellFormed_conclude hafter hnotes _ _
    | begins hw hready => exact wellFormed_proceed hc hpipeline (.begins hw hready)
    | @passes s gvr w e _ hw _ _ _ =>
      exact ⟨hpipeline, fun n hn => Note.isRight_of_isNotice (e.isNotice_notes w.kind n hn)⟩
    | @takes s s' gvr w e inbox notes hw hidle hinbox after =>
      obtain ⟨hafter, hnotes⟩ :=
        wellFormed_proceed (consistent_taken hc hw e inbox) hpipeline after
      rw [underway_taken hw hidle hinbox] at hnotes
      exact ⟨hafter, fun n hn => (List.mem_append.mp hn).elim
        (fun hn => Note.isRight_of_isNotice (e.isNotice_notes w.kind n hn)) (hnotes n)⟩
    | flows hw h => exact ⟨hpipeline, fun n hn => Note.isRight_of_isNotice (h.isNotice n hn)⟩
    | unread _ _ => exact ⟨hpipeline, by simp⟩
    | elsewhere h _ => exact wellFormed_shifts hpipeline h

end Ways

/-! ## 3. Runs -/

/-- **Along a run everything stays where it belongs.** -/
theorem wellFormed_run {s s' : System} {app : GroupVersionResource} {actions : List Action}
    {notes : List Note} (hroomed : s.Roomed) (hc : s.Consistent app) (hp : s.Pledged app)
    (hpipeline : s.pipeline.WellFormed app) (hregular : ∀ a ∈ actions, a.IsRegular app)
    (hrun : s.run actions = some (s', notes)) :
    s'.Consistent app ∧ s'.Pledged app ∧ s'.pipeline.WellFormed app := by
  induction actions generalizing s notes with
  | nil =>
    cases hrun
    exact ⟨hc, hp, hpipeline⟩
  | cons action actions ih =>
    obtain ⟨s₁, notes₁, notes₂, hstep, hrest, -⟩ := run_cons hrun
    obtain ⟨hnow, hlater⟩ := List.forall_mem_cons.mp hregular
    obtain ⟨hroomed₁, hc₁⟩ := consistent_step hroomed hc hstep
    exact ih hroomed₁ hc₁ (hp.step hc hnow hstep)
      (wellFormed_step hc hp hpipeline hnow hstep).1 hlater hrest

/-- **Batches are well-formed throughout.**  Take any run in which calls from outside send nothing
and handle nothing that the engine would not, with whatever answers and stops.  Every batch in the
queue, on granted room or waiting for it, and every batch that a window has merged, has entries, each
under the key of what it shows; its applications are of the application kind, its resources are not,
and so no key is on both sides.  In any further step `calculateStatus` is called for a key of the
application kind only, and `componentChanged` for no such key.  A batch that is sent is well-formed.
If the worker of a kind sends it, the worker has its turn with a change, and the batch reports this
change: for the application kind no resource and the changed application; for any other kind no
resource but the changed one, and not that either exactly if the change is a deletion. -/
theorem batches_well_formed (applicationKind : KindDescriptor) (namespacesKey : String)
    (namespaces : List String) (capacity window now : Nat) {actions : List Action} {s : System}
    {notes : List Note}
    (hrun : (fresh applicationKind namespacesKey namespaces capacity window now).run actions =
      some (s, notes))
    (hregular : ∀ a ∈ actions, a.IsRegular applicationKind.gvr) :
    (∀ b ∈ s.queue.line, b.WellFormed applicationKind.gvr) ∧
    (∀ pending deadline, s.pipeline.phase = .collecting pending deadline →
      pending.WellFormed applicationKind.gvr) ∧
    (∀ b : Batch, b.WellFormed applicationKind.gvr →
      ∀ k, b.applications.contains k = true → b.resources.contains k = false) ∧
    ∀ action s' notes', action.IsRegular applicationKind.gvr →
      s.step action = some (s', notes') →
        (∀ c, Note.callback c ∈ notes' → c.call.IsProper applicationKind.gvr) ∧
        ∀ party b, Note.sent party b ∈ notes' → b.WellFormed applicationKind.gvr ∧
          ∀ gvr, party = .worker gvr → ∃ e, s.underway action gvr = some e ∧
            b.Reports applicationKind.gvr gvr e.change := by
  obtain ⟨hc, hp, hpipeline⟩ := wellFormed_run (roomed_fresh ..) (consistent_fresh ..)
    (pledged_fresh ..) (Pipeline.wellFormed_fresh ..) hregular hrun
  refine ⟨hpipeline.line, fun pending deadline hphase => ?_,
    fun b hb k happ => hb.toIsDivided.disjoint happ, fun action s' notes' hnow hstep => ?_⟩
  · have hwindow := hpipeline.phase
    rw [hphase] at hwindow
    exact hwindow
  · obtain ⟨-, hright⟩ := wellFormed_step hc hp hpipeline hnow hstep
    exact ⟨fun c hc => hright _ hc, fun party b hb => hright _ hb⟩

/-- The application of the sample run is cached and its batch is in a window; a deployment that it
selects is about to be taken. -/
def sampleWindow : List Action := sampleRun.dropLast ++ [.process 0]

/-- The window is open with the application in it, and the deployment's worker is to send a batch in
its next step. -/
def isSampleWindow (s : System) : Bool :=
  (match s.pipeline.phase with
    | .collecting pending _ => pending.applications.size = 1
    | _ => false) &&
  (s.underway (.take sampleDeployments.gvr) sampleDeployments.gvr =
    some ⟨"default/web", .added sampleWeb⟩) &&
  (s.step (.take sampleDeployments.gvr)).any fun r => r.2.any fun n =>
    match n with
    | .sent (.worker g) b => g = sampleDeployments.gvr && b.applications.size = 1
    | _ => false

/-- In the sample run the window's batch is well-formed, and the one that is sent next has the
deployment besides the application. -/
theorem batches_well_formed_window :
    ∃ s notes pending deadline s' notes' b, sampleStart.run sampleWindow = some (s, notes) ∧
      s.pipeline.phase = .collecting pending deadline ∧ pending.applications.size = 1 ∧
      pending.WellFormed sampleApplications.gvr ∧
      s.step (.take sampleDeployments.gvr) = some (s', notes') ∧
      Note.sent (.worker sampleDeployments.gvr) b ∈ notes' ∧ b.applications.size = 1 ∧
      b.WellFormed sampleApplications.gvr ∧
      b.Reports sampleApplications.gvr sampleDeployments.gvr (.added sampleWeb) := by
  have hend : (sampleStart.run sampleWindow).any (fun r => isSampleWindow r.1) = true := by decide
  obtain ⟨⟨s, notes⟩, hrun, hend⟩ := (Option.any_eq_true _ _).mp hend
  simp only [isSampleWindow, Bool.and_eq_true, Option.any_eq_true, List.any_eq_true,
    decide_eq_true_eq] at hend
  obtain ⟨⟨hphase, hunderway⟩, ⟨s', notes'⟩, hstep, n, hn, hsent⟩ := hend
  obtain ⟨-, hwindow, -, hnext⟩ := batches_well_formed sampleApplications "namespaces" [] 64 0 0
    hrun (by simp [sampleWindow, sampleRun, Action.IsRegular])
  split at hphase
  · next pending deadline hcollecting =>
    split at hsent
    · next g b =>
      simp only [Bool.and_eq_true, decide_eq_true_eq] at hphase hsent
      obtain ⟨rfl, hsize⟩ := hsent
      obtain ⟨hb, hreports⟩ := (hnext (.take sampleDeployments.gvr) s' notes' trivial hstep).2 _ b hn
      obtain ⟨e, he, hreport⟩ := hreports _ rfl
      cases hunderway.symm.trans he
      exact ⟨s, notes, pending, deadline, s', notes', b, hrun, hcollecting, hphase,
        hwindow pending deadline hcollecting, hstep, hn, hsize, hb, hreport⟩
    · cases hsent
  · cases hphase

end System

end AppWatch
