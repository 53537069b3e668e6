/-
# What parties carry through their waits

A party that waits for the cluster has a plan, and only the handler of the application kind leaves a
change at the end of it.  So whatever a party carries is a change to an application, and if the party
is a worker, it is the very change that the worker is handling (`System.Pledged`).  The plan is kept
from one wait to the next (`System.Works.final_cases`); what the cluster answers has no influence on
where it ends.

Calls from outside may send batches and call handlers too.  They are held to what the engine does
itself (`System.Action.IsRegular`).
-/
import AppWatch.Proofs.Contents
import AppWatch.Proofs.Handling

namespace AppWatch

namespace System

/-! ## 1. Regular actions and consistent kinds -/

/-- A call from outside that handles a change does it as the worker of the kind would, and one that
sends a batch has everything in it where it belongs. -/
def Action.IsRegular (app : GroupVersionResource) : Action → Prop
  | .call _ (.handleApplication gvr _) => gvr = app
  | .call _ (.handleResource gvr _) => gvr ≠ app
  | .call _ (.send b) => b.IsDivided app
  | _ => True

/-- The application kind is the given one, each cache is that of its kind, and what the workers have
before them stands there. -/
structure Consistent (app : GroupVersionResource) (s : System) : Prop where
  kind : s.registry.applicationKind.gvr = app
  sound : s.registry.Sound
  faithful : s.registry.Faithful

/-- What a party has at the end of its plan is a change to an application, and if the party is a
worker, it is the one that the worker is handling. -/
structure Pledged (app : GroupVersionResource) (s : System) : Prop where
  workers : ∀ gvr c e rest a, s.registry.core? gvr = some c → c.worker = .handling e rest a →
    ∀ kind change, a.final? = some (kind, change) →
      kind.gvr = app ∧ gvr = app ∧ change = e.change
  callers : ∀ id a, s.callers.get? id = some a → ∀ kind change, a.final? = some (kind, change) →
    kind.gvr = app

section Carry

variable {s s' : System} {app gvr : GroupVersionResource} {party : Party} {action : Action}
  {o : Outcome} {notes : List Note} {gs : List Growth} {w : Watcher} {e : ResourceEvent}
  {rest : List ResourceEvent} {kind : KindDescriptor} {change : Change ClusterObject}

/-- Every resolver that a party builds with is proper, and looks for the application kind. -/
theorem Consistent.proper (h : s.Consistent app) (hext : s.registry.Extends s'.registry) :
    (s'.registry.resolver s'.registry.snapshot.1).Proper ∧
      (s'.registry.resolver s'.registry.snapshot.1).applicationKind = app := by
  have hsound := h.sound.continues (hext.continues (.refl _) fun _ => rfl)
  refine ⟨Registry.snapshot_proper fun w hw => hsound.keyed hw, ?_⟩
  exact (congrArg KindDescriptor.gvr hext.applicationKind).trans h.kind

theorem consistent_taken (h : s.Consistent app) (hw : s.registry.watcher? gvr = some w)
    (event : ScopedEvent) (inbox : BoundedQueue String ScopedEvent) :
    (s.taken gvr w event inbox).Consistent app :=
  ⟨h.kind, sound_taken h.sound hw, faithful_taken h.faithful gvr w event inbox⟩

theorem Move.applicationKind_eq (h : Move s s' notes) :
    s'.registry.applicationKind = s.registry.applicationKind := by
  induction h with
  | quiet hext => exact hext.applicationKind
  | turn h => exact h.continues.applicationKind
  | took _ _ _ ih => exact ih

/-- **No step brings the kinds into disorder.** -/
theorem consistent_step (hroomed : s.Roomed) (h : s.Consistent app)
    (hs : s.step action = some (s', notes)) : s'.Roomed ∧ s'.Consistent app := by
  obtain ⟨hroomed', hfaithful⟩ := faithful_step hroomed h.faithful hs
  refine ⟨hroomed', ?_⟩
  cases hstop : action.stops with
  | false =>
    obtain ⟨hmove, -⟩ := step_move hroomed hstop hs
    exact ⟨hmove.applicationKind_eq ▸ h.kind, hmove.sound h.sound, hfaithful⟩
  | true =>
    refine ⟨?_, fun g c hc => ?_, hfaithful⟩
    · rw [(stopped_of_stops hs hstop).1.settings.applicationKind]
      exact h.kind
    · obtain ⟨c', hc', hcache, hkind, -⟩ := core?_of_stops hs hstop hc
      rw [hcache, hkind]
      exact h.sound g c' hc'

/-! ## 2. Plans -/

/-- New watchers carry nothing, and the others what they did. -/
theorem Pledged.of_extends (h : s.Pledged app) (hext : s.registry.Extends s'.registry)
    (hcallers : ∀ id a, s'.callers.get? id = some a → s.callers.get? id = some a) :
    s'.Pledged app := by
  refine ⟨fun g c d rest a hc hworker => ?_, fun id a ha => h.callers id a (hcallers id a ha)⟩
  rcases hext.core g with heq | ⟨-, kind, -, hnew⟩
  · exact h.workers g c d rest a (heq.symm.trans hc) hworker
  · cases hnew.symm.trans hc
    cases hworker

/-- A worker that has taken an event carries nothing yet. -/
theorem Pledged.taken (h : s.Pledged app) (gvr : GroupVersionResource) (w : Watcher)
    (event : ScopedEvent) (inbox : BoundedQueue String ScopedEvent) :
    (s.taken gvr w event inbox).Pledged app := by
  refine ⟨fun g c d rest a hc hworker => ?_, h.callers⟩
  rw [core?_taken] at hc
  split at hc
  · cases hc
    have hnone := Worker.awaiting?_facing (w.cache.apply event.scope event.event).2
    rw [show Worker.facing _ = _ from hworker] at hnone
    cases hnone
  · exact h.workers g c d rest a hc hworker

/-- What a worker carries after its turn. -/
theorem Pledged.concludeWorker (h : s.Pledged app) (hgrows : Outcome.Grows s gs o)
    (hw : s.registry.watcher? gvr = some w)
    (hnext : ∀ a, o.progress = .waits a → ∀ kind change, a.final? = some (kind, change) →
      kind.gvr = app ∧ gvr = app ∧ change = e.change) :
    (concludeWorker gvr w.kind e rest o).1.Pledged app := by
  have hext := hgrows.extends
  have hbefore := h.of_extends hext fun id a ha => hgrows.callers ▸ ha
  refine ⟨fun g c d rest' a hc hworker => ?_, fun id a ha => ?_⟩
  · rw [core?_concludeWorker (hext.core?_eq_some (Registry.core?_of_watcher? hw))] at hc
    split at hc
    · next hg =>
      cases hc
      cases hprogress : o.progress with
      | waits a' =>
        rw [hprogress] at hworker
        cases hworker
        rw [hg]
        exact hnext a hprogress
      | finished r =>
        have hnone := Worker.awaiting?_facing rest
        rw [hprogress] at hworker
        rw [show Worker.facing rest = _ from hworker] at hnone
        cases hnone
    · exact hbefore.workers g c d rest' a hc hworker
  · have hcaller : (System.concludeWorker gvr w.kind e rest o).1.awaiting? (.caller id) =
        s.awaiting? (.caller id) := by
      rw [awaiting?_concludeWorker hgrows (Registry.core?_of_watcher? hw), if_neg (by simp)]
    exact h.callers id a (hcaller.symm.trans ha)

/-- **Where the change at the end of a plan is from.**  It stood there when the party was waiting, or
the handler of applications was called from outside. -/
theorem Works.final_cases (h : s.Works action party o) {a : Awaiting}
    (ha : o.progress = .waits a) (hfinal : a.final? = some (kind, change)) :
    (∃ a₀, s.awaiting? party = some a₀ ∧ a₀.final? = some (kind, change)) ∨
      ∃ id g d w, action = .call id (.handleApplication g d) ∧
        s.registry.watcher? g = some w ∧ kind = w.kind := by
  have hroom : a ≠ .room := by
    rintro rfl
    cases hfinal
  cases h with
  | @called id c o hbegin =>
    cases c with
    | addToWatch k =>
      cases hbegin
      obtain ⟨b, hposts⟩ := s.addToWatch_posts (.caller id) k .done
      cases hposts.makes.final?_eq ha hfinal
    | watchComponents app =>
      cases hbegin
      obtain ⟨b, hposts⟩ := s.pursue_posts (.caller id) (.components app app.componentKinds .done)
      cases hposts.makes.final?_eq ha hfinal
    | handleApplication g d =>
      obtain ⟨w, hw, rfl⟩ := Option.map_eq_some_iff.mp hbegin
      obtain ⟨b, hposts⟩ := s.handleApplication_posts (.caller id) w.kind w.cache d
      cases hposts.makes.final?_eq ha hfinal
      exact .inr ⟨id, g, d, w, rfl, hw, rfl⟩
    | handleResource g d =>
      obtain ⟨w, hw, rfl⟩ := Option.map_eq_some_iff.mp hbegin
      exact absurd (s.sendChange_waits (.caller id) ha) hroom
    | send b =>
      cases hbegin
      exact absurd (s.send_waits (.caller id) ha) hroom
  | @discovered party app c rest next reply hwaits =>
    obtain ⟨b, hposts⟩ := s.onDiscovery_posts party app c rest next reply
    exact .inl ⟨_, hwaits, hposts.makes.final?_eq ha hfinal⟩
  | @checked party k scopes scope rest next reply hwaits =>
    obtain ⟨b, hposts⟩ := s.onAccess_posts party k scopes scope rest next reply
    exact .inl ⟨_, hwaits, hposts.makes.final?_eq ha hfinal⟩
  | entered _ => cases ha
  | refused _ _ => cases ha

/-- What a party carries that waits. -/
theorem Pledged.of_awaiting? (h : s.Pledged app) {a : Awaiting} (ha : s.awaiting? party = some a)
    (hfinal : a.final? = some (kind, change)) :
    kind.gvr = app ∧ ∀ g, party = .worker g → g = app ∧
      ∃ d, (s.registry.watcherAt g).worker.handled? = some d ∧ change = d.change := by
  cases party with
  | caller id => exact ⟨h.callers id a ha kind change hfinal, fun g hg => by cases hg⟩
  | worker g =>
    obtain ⟨w, d, rest, hw, hworker⟩ := exists_of_awaiting? ha
    obtain ⟨hkind, hg, hchange⟩ := h.workers g w.core d rest a (Registry.core?_of_watcher? hw)
      hworker kind change hfinal
    refine ⟨hkind, fun g' hg' => ?_⟩
    cases hg'
    refine ⟨hg, d, ?_, hchange⟩
    rw [Registry.watcherAt_of_watcher? hw, hworker]
    rfl

/-- The work of a worker is concluded as its turn with the change that it is handling. -/
theorem conclude_worker_cases (s : System) (gvr : GroupVersionResource) (o : Outcome) :
    (∃ w e rest a, s.registry.watcher? gvr = some w ∧ w.worker = .handling e rest a ∧
        s.conclude (.worker gvr) o = concludeWorker gvr w.kind e rest o) ∨
      s.awaiting? (.worker gvr) = none ∧ s.conclude (.worker gvr) o = (o.system, o.notes) := by
  unfold conclude awaiting?
  simp only
  cases hw : s.registry.watcher? gvr with
  | none => exact .inr ⟨rfl, rfl⟩
  | some w =>
    obtain ⟨kind, cache, readers, inbox, worker⟩ := w
    cases worker with
    | handling e rest a => exact .inl ⟨_, e, rest, a, rfl, rfl, rfl⟩
    | idle | ready | dead => exact .inr ⟨rfl, rfl⟩

/-- A party that has gone on with its work carries what it should. -/
theorem Pledged.works (hp : s.Pledged app) (hc : s.Consistent app) (h : s.Works action party o)
    (hregular : action.IsRegular app) : (s.conclude party o).1.Pledged app := by
  have hgrows := h.grows
  have hafter : o.system.Pledged app :=
    hp.of_extends hgrows.extends fun id a ha => hgrows.callers ▸ ha
  cases party with
  | caller id =>
    refine ⟨?_, fun id' a ha kind change hfinal => ?_⟩
    · rw [show (s.conclude (.caller id) o).1.registry = o.system.registry from
        registry_concludeCaller id o]
      exact hafter.workers
    · have hcaller : (concludeCaller id o).1.awaiting? (.caller id') =
          if Party.caller id' = .caller id then o.progress.awaiting?
          else s.awaiting? (.caller id') := awaiting?_concludeCaller hgrows (.caller id')
      rw [show (concludeCaller id o).1.awaiting? (.caller id') = some a from ha] at hcaller
      split at hcaller
      · rcases h.final_cases (Progress.eq_waits hcaller.symm) hfinal with
          ⟨a₀, ha₀, hfinal₀⟩ | ⟨id, g, d, w, rfl, hw, rfl⟩
        · exact (hp.of_awaiting? ha₀ hfinal₀).1
        · exact (hc.sound g w.core (Registry.core?_of_watcher? hw)).1.trans hregular
      · exact hp.callers id' a hcaller.symm kind change hfinal
  | worker g =>
    rcases s.conclude_worker_cases g o with ⟨w, e, rest, a₀, hw, hworker, heq⟩ | ⟨-, heq⟩
    · rw [heq]
      refine hp.concludeWorker hgrows hw fun a ha kind change hfinal => ?_
      rcases h.final_cases ha hfinal with ⟨a₁, ha₁, hfinal₁⟩ | ⟨id, g', d', w', rfl, -, -⟩
      · obtain ⟨w', e', rest', hw', hworker'⟩ := exists_of_awaiting? ha₁
        cases hw.symm.trans hw'
        cases hworker.symm.trans hworker'
        exact hp.workers g w.core e rest a₀ (Registry.core?_of_watcher? hw) hworker kind change
          hfinal₁
      · cases h
    · rw [heq]
      exact hafter

/-- A worker that begins a change carries this change, if it is the worker of the applications, and
none otherwise. -/
theorem Pledged.begins (hp : s.Pledged app) (hc : s.Consistent app)
    (hw : s.registry.watcher? gvr = some w) (hready : w.worker = .ready e rest) :
    (System.concludeWorker gvr w.kind e rest (s.handle (.worker gvr) w e)).1.Pledged app := by
  have hcore := Registry.core?_of_watcher? hw
  refine hp.concludeWorker (s.handle_grows _ w e) hw fun a ha kind change hfinal => ?_
  obtain ⟨b, hposts⟩ := s.handle_posts (.worker gvr) w e
  cases hposts.makes.final?_eq ha hfinal
  have hgvr : w.kind.gvr = gvr := (hc.sound gvr w.core hcore).1
  have hstands : w.cache.Stands e :=
    hc.faithful gvr w.core hcore e (hready ▸ List.mem_cons_self : e ∈ w.worker.unbegun)
  by_cases happ : s.registry.isApplicationKind w.kind = true
  · have hkind : w.kind.gvr = app := (decide_eq_true_iff.mp happ).trans hc.kind
    exact ⟨hkind, hgvr.symm.trans hkind, hstands.latestChange_eq⟩
  · rw [handle, if_neg happ] at ha
    rw [s.sendChange_waits (.worker gvr) ha] at hfinal
    cases hfinal

/-- **No step makes a party carry anything but applications.** -/
theorem Step.pledged (h : Step s action s' notes) (hp : s.Pledged app) (hc : s.Consistent app)
    (hregular : action.IsRegular app) : s'.Pledged app := by
  induction h with
  | works h => exact hp.works hc h hregular
  | begins hw hready => exact hp.begins hc hw hready
  | passes => exact hp.taken _ _ _ _
  | takes hw _ _ _ ih =>
    exact ih (hp.taken _ _ _ _) (consistent_taken hc hw _ _) trivial
  | flows hw h =>
    exact hp.of_extends (Registry.extends_insert hw h.core) fun id a ha => ha
  | unread => exact hp
  | @elsewhere s _ _ callers _ _ hcallers =>
    refine hp.of_extends (s.registry.extends_growAll _) fun id a ha => ?_
    rw [hcallers] at ha
    split at ha
    · cases ha
    · exact ha

/-- Stopped workers carry nothing. -/
theorem Pledged.stops (hp : s.Pledged app) (hs : s.step action = some (s', notes))
    (hstop : action.stops = true) : s'.Pledged app := by
  refine ⟨fun g c d rest a hc hworker => ?_, fun id a ha => ?_⟩
  · obtain ⟨c', hc', -, -, hsame | hdead⟩ := core?_of_stops hs hstop hc
    · exact hp.workers g c' d rest a hc' (hsame ▸ hworker)
    · rw [hdead] at hworker
      cases hworker
  · exact hp.callers id a
      ((stopped_of_stops hs hstop).1.waits (p := .caller id) ha)

theorem Pledged.step (hp : s.Pledged app) (hc : s.Consistent app)
    (hregular : action.IsRegular app) (hs : s.step action = some (s', notes)) :
    s'.Pledged app := by
  cases hstop : action.stops with
  | true => exact hp.stops hs hstop
  | false => exact (step_cases hs hstop).pledged hp hc hregular

end Carry

theorem consistent_fresh (applicationKind : KindDescriptor) (namespacesKey : String)
    (namespaces : List String) (capacity window now : Nat) :
    (fresh applicationKind namespacesKey namespaces capacity window now).Consistent
      applicationKind.gvr :=
  ⟨rfl, fun _ _ hc => absurd hc (by simp [fresh, Registry.core?, Registry.watcher?]),
    faithful_fresh _ _ _ _ _ _⟩

theorem pledged_fresh (applicationKind : KindDescriptor) (namespacesKey : String)
    (namespaces : List String) (capacity window now : Nat) (app : GroupVersionResource) :
    (fresh applicationKind namespacesKey namespaces capacity window now).Pledged app :=
  ⟨fun _ _ _ _ _ hc => absurd hc (by simp [fresh, Registry.core?, Registry.watcher?]),
    fun _ _ ha => absurd ha (by simp [fresh])⟩

end System

end AppWatch
