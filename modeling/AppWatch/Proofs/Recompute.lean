/-
# No recomputation is lost

The workers of the kinds act independently, and each sends its batches over the applications that
happen to be cached then.  Still every application is recomputed over the final state of what it
contains.  Whenever a chain of components leads from a cached object up to an application, some
batch with the application has been sent over the cached versions of this very chain, or a worker
still owes it (`Accounted`).

* **Whatever is cached last sends last.**  A version enters a cache only when its kind's worker
  takes an event, and with it comes a change that the worker has still to handle
  (`WatchCache.get?_apply`).  So right after the last version of a chain was cached, somebody owes a
  batch.
* **What is owed is paid over the chain.**  A worker that handles a version holds it until the
  batch is sent, however often it waits in between, since its cache changes only when it takes the
  next event.  The walk from that version, over the applications cached when the batch is built,
  goes up the rest of the chain (`Registry.contains_of_chain`).
* **Nothing else matters.**  A step that changes no version of a chain leaves what was sent for it
  valid and what is owed for it owed.

When all workers are idle nothing is owed any more.
-/
import AppWatch.Proofs.Chains
import AppWatch.Proofs.Moves

namespace AppWatch

/-! ## 1. What a worker owes -/

/-- Whether a change is a deletion. -/
def Change.isDeletion {α : Type} : Change α → Bool
  | .deleted _ => true
  | _ => false

/-- The changes that a worker has not begun. -/
def Worker.unbegun : Worker → List ResourceEvent
  | .ready e rest => e :: rest
  | .handling _ rest _ => rest
  | .idle | .dead => []

theorem Worker.unbegun_facing (es : List ResourceEvent) : (Worker.facing es).unbegun = es := by
  cases es <;> rfl

theorem Progress.unbegun_next (p : Progress) (e : ResourceEvent) (rest : List ResourceEvent) :
    (p.next e rest).unbegun = rest := by
  cases p with
  | waits a => rfl
  | finished r => exact Worker.unbegun_facing rest

/-- A worker owes a batch for the version that is cached under a key. -/
inductive Core.Owes (c : Core) (key : String) (o : ClusterObject) : Prop where
  /-- A change to that key is still to be handled. -/
  | ahead {e : ResourceEvent} (hmem : e ∈ c.worker.unbegun) (hkey : e.key = key)
      (hkept : e.change.isDeletion = false)
  /-- The batch stands at the end of the plan that the worker is following. -/
  | begun {e : ResourceEvent} {rest : List ResourceEvent} {a : Awaiting}
      {change : Change ClusterObject} (hworker : c.worker = .handling e rest a)
      (hfinal : a.final? = some (c.kind, change)) (hlatest : change.latest = o)

/-- An idle worker owes nothing. -/
theorem Core.not_owes_of_idle {c : Core} {key : String} {o : ClusterObject}
    (h : c.worker = .idle) : ¬ c.Owes key o := by
  intro howes
  cases howes with
  | ahead hmem => simp [h, Worker.unbegun] at hmem
  | begun hworker => simp [h] at hworker

/-- A change that is no deletion is handled with what is cached under its key. -/
theorem WatchCache.latest_latestChange {c : WatchCache} {e : ResourceEvent} {o : ClusterObject}
    (ho : c.objects.get? e.key = some o) (hkept : e.change.isDeletion = false) :
    (c.latestChange e).latest = o := by
  unfold latestChange
  cases hc : e.change with
  | added new =>
    simp only [ho]
    rfl
  | updated old new =>
    simp only [ho]
    rfl
  | deleted old =>
    rw [hc] at hkept
    exact absurd hkept (by simp [Change.isDeletion])

theorem WatchCache.isDeletion_changeTo (c : WatchCache) (key : String) (o : ClusterObject) :
    (c.changeTo key o).isDeletion = false := by
  unfold changeTo
  split <;> rfl

/-! ## 2. Served or pending -/

/-- Whether a note reports that a handler has failed. -/
def Note.isFailure : Note → Bool
  | .notice (.handlerFailed _ _ _ _) => true
  | _ => false

namespace System

variable {s s' : System} {notes : List Note} {p : Point} {points links : List Point}
  {z : ResourceInfo} {gvr : GroupVersionResource} {hist : System → List Note → Prop}

/-- In a step that has led to this state a worker has sent a batch with an application, built over
the applications cached then, and the caches hold the given versions. -/
def Served (s : System) (notes : List Note) (points : List Point) (z : ResourceInfo) : Prop :=
  s.registry.Holds points ∧ ∃ g b change, Note.sent (.worker g) b ∈ notes ∧
    b.IsOf (s.registry.resolver s.registry.snapshot.1) change ∧
    b.applications.contains z.key = true

/-- Some worker owes a batch for one of the given versions. -/
def Pending (s : System) (points : List Point) : Prop :=
  ∃ p ∈ points, ∃ c, s.registry.core? p.gvr = some c ∧ c.Owes p.key p.object

/-- Every chain through the caches has been served in a step of the past, or is pending. -/
def Accounted (hist : System → List Note → Prop) (s : System) : Prop :=
  ∀ p links z, s.registry.Leads p links z → s.registry.Holds (p :: links) →
    (∃ s₂ notes₂, hist s₂ notes₂ ∧ s₂.Served notes₂ (p :: links) z) ∨ s.Pending (p :: links)

theorem Served.mono {more : List Note} (h : s.Served notes points z) (hsub : notes ⊆ more) :
    s.Served more points z := by
  obtain ⟨hholds, g, b, change, hsent, hb, hin⟩ := h
  exact ⟨hholds, g, b, change, hsub hsent, hb, hin⟩

/-- A longer past serves as many chains. -/
theorem Accounted.mono {hist' : System → List Note → Prop} (h : s.Accounted hist)
    (hmono : ∀ s₂ notes₂, hist s₂ notes₂ →
      ∃ notes₃, hist' s₂ notes₃ ∧ notes₂ ⊆ notes₃) : s.Accounted hist' := by
  intro p links z hleads hholds
  rcases h p links z hleads hholds with ⟨s₂, notes₂, hpast, hserved⟩ | hpending
  · obtain ⟨notes₃, hpast', hsub⟩ := hmono s₂ notes₂ hpast
    exact .inl ⟨s₂, notes₃, hpast', hserved.mono hsub⟩
  · exact .inr hpending

/-! ## 3. Growth and turns -/

/-- A worker's turn leaves kinds and caches as they are. -/
theorem Turn.continues {c : Core} {e : ResourceEvent} {rest : List ResourceEvent} {o : Outcome}
    (h : s.Turn gvr c e rest o) :
    s.registry.Continues (concludeWorker gvr c.kind e rest o).1.registry :=
  continues_concludeWorker h.core h.registry

/-- The batch of the version at a point of a chain serves the chain. -/
theorem served_of_sends {c : Core} {q : Point} {change : Change ClusterObject}
    {o : Outcome} (hsound : s.registry.Sound) (hconfigured : s.registry.IsConfigured)
    (hleads : s.registry.Leads p links z) (hholds : s.registry.Holds (p :: links))
    (hq : q ∈ p :: links) (hc : s.registry.core? q.gvr = some c)
    (hlatest : change.latest = q.object)
    (hresolver : o.system.registry.resolver o.system.registry.snapshot.1 =
      s.registry.resolver s.registry.snapshot.1)
    (hsends : o.Sends (.worker gvr) c.kind change) (hnotes : o.notes ⊆ notes) :
    s.Served notes (p :: links) z := by
  obtain ⟨parsed, b, hparsed, hb, hsent⟩ := hsends
  obtain ⟨links', ⟨c', x, hc', hx, hchain, hends⟩, hsub⟩ :=
    hleads.suffix hconfigured hholds hq
  obtain rfl : c = c' := Option.some.inj (hc.symm.trans hc')
  have hholds' : s.registry.Holds (q :: links') := fun l hl => by
    rcases List.mem_cons.mp hl with rfl | hl
    · exact hholds _ hq
    · exact hholds _ (List.mem_cons_of_mem _ (hsub hl))
  have hxl : x = parsed.latest := by
    have hl := Change.latest_mapM? hparsed
    rw [hlatest, hx] at hl
    exact Except.ok.inj hl
  have hin := Registry.contains_of_chain hsound hconfigured hholds' hc hx hchain hends
  rw [hresolver] at hb
  have hcontains : b.applications.contains z.key = true := hb.contains (hxl ▸ hin)
  refine ⟨hholds, gvr, b, parsed, hnotes (hsent.resolve_left fun hempty => ?_), hb, hcontains⟩
  rw [Batch.isEmpty_eq_false hcontains] at hempty
  exact absurd hempty (by simp)

/-- What was owed before a turn is delivered in it, or still ahead. -/
theorem Turn.owed_cases {c : Core} {e : ResourceEvent} {rest : List ResourceEvent} {o : Outcome}
    {key : String} {object : ClusterObject} (h : s.Turn gvr c e rest o)
    (hcached : c.cache.objects.get? key = some object) (howes : c.Owes key object) :
    (∃ change, change.latest = object ∧ o.Delivers (.worker gvr) c.kind change) ∨
      ∃ e' ∈ rest, e'.key = key ∧ e'.change.isDeletion = false := by
  rcases h.owed with ⟨hready, hdelivers⟩ | ⟨a, hhandling, hdelivers⟩
  · cases howes with
    | ahead hmem hkey hkept =>
      rw [hready] at hmem
      rcases List.mem_cons.mp hmem with rfl | hmem
      · exact .inl ⟨_, WatchCache.latest_latestChange (hkey ▸ hcached) hkept, hdelivers⟩
      · exact .inr ⟨_, hmem, hkey, hkept⟩
    | begun hworker => exact absurd (hready.symm.trans hworker) (by simp)
  · cases howes with
    | ahead hmem hkey hkept =>
      rw [hhandling] at hmem
      exact .inr ⟨_, hmem, hkey, hkept⟩
    | begun hworker hfinal hlatest =>
      cases hhandling.symm.trans hworker
      exact .inl ⟨_, hlatest, hdelivers hfinal⟩

/-- The cores after a turn. -/
theorem Turn.core?_concludeWorker {c : Core} {e : ResourceEvent} {rest : List ResourceEvent}
    {o : Outcome} (h : s.Turn gvr c e rest o) (g : GroupVersionResource) :
    (concludeWorker gvr c.kind e rest o).1.registry.core? g =
      if g = gvr then some { c with worker := o.progress.next e rest }
      else o.system.registry.core? g :=
  System.core?_concludeWorker (h.registry.core?_eq_some h.core) g

/-- What a turn without failure delivers for a version of a chain serves the chain, or it stands at
the end of the plan that the worker goes on with. -/
theorem Turn.served_or_pending {c : Core} {e : ResourceEvent} {rest : List ResourceEvent}
    {o : Outcome} {q : Point} {change : Change ClusterObject} (h : s.Turn gvr c e rest o)
    (hs' : concludeWorker gvr c.kind e rest o = (s', notes)) (hsound : s.registry.Sound)
    (hconfigured : s'.registry.IsConfigured) (hok : ∀ n ∈ notes, n.isFailure = false)
    (hleads : s'.registry.Leads p links z) (hholds : s'.registry.Holds (p :: links))
    (hq : q ∈ p :: links) (hgvr : q.gvr = gvr) (hlatest : change.latest = q.object)
    (hdelivers : o.Delivers (.worker gvr) c.kind change) :
    s'.Served notes (p :: links) z ∨ s'.Pending (p :: links) := by
  obtain ⟨rfl, rfl⟩ := Prod.ext_iff.mp hs'
  have hnow := h.core?_concludeWorker q.gvr
  rw [if_pos hgvr] at hnow
  cases hdelivers with
  | failed hfail =>
    have hnot := hok _ (handlerFailed_mem_concludeWorker hfail)
    exact absurd hnot (by simp [Note.isFailure])
  | @postponed a hwaits hfinal =>
    have hnext : o.progress.next e rest = .handling e rest a := by
      rw [hwaits]
      rfl
    exact .inr ⟨q, hq, _, hnow, .begun hnext hfinal hlatest⟩
  | sent hsends =>
    refine .inl (served_of_sends (hsound.continues h.continues) hconfigured hleads hholds hq hnow
      hlatest ?_ hsends fun n hn => mem_notes_concludeWorker hn)
    rw [concludeWorker_system, resolver_setWorker (h.registry.core?_eq_some h.core)]

/-- **A turn without failure keeps every chain accounted for.** -/
theorem Accounted.turn {c : Core} {e : ResourceEvent} {rest : List ResourceEvent} {o : Outcome}
    (h : s.Accounted hist) (ht : s.Turn gvr c e rest o)
    (hs' : concludeWorker gvr c.kind e rest o = (s', notes)) (hsound : s.registry.Sound)
    (hconfigured : s'.registry.IsConfigured) (hok : ∀ n ∈ notes, n.isFailure = false) :
    s'.Accounted fun s₂ notes₂ => hist s₂ notes₂ ∨ s₂ = s' ∧ notes₂ = notes := by
  intro p links z hleads hholds
  have hcont := ht.continues
  have hcores := ht.core?_concludeWorker
  rw [hs'] at hcont hcores
  obtain ⟨hbefore, hfrom⟩ := hcont.before hholds hleads
  rcases h p links z hfrom hbefore with ⟨s₂, notes₂, hpast, hserved⟩ | ⟨q, hq, c', hc', howes⟩
  · exact .inl ⟨s₂, notes₂, .inl hpast, hserved⟩
  by_cases hg : q.gvr = gvr
  · obtain rfl : c = c' := Option.some.inj (ht.core.symm.trans (hg ▸ hc'))
    have hnow := hcores q.gvr
    rw [if_pos hg] at hnow
    have hcached : c.cache.objects.get? q.key = some q.object := by
      obtain ⟨c₀, hc₀, hget⟩ := hbefore.exists_core hq
      rw [Option.some.inj (hc'.symm.trans hc₀)]
      exact hget
    rcases ht.owed_cases hcached howes with ⟨change, hlatest, hdelivers⟩ | ⟨e', hmem, hkey, hkept⟩
    · rcases ht.served_or_pending hs' hsound hconfigured hok hleads hholds hq hg hlatest hdelivers
        with hserved | hpending
      · exact .inl ⟨s', notes, .inr ⟨rfl, rfl⟩, hserved⟩
      · exact .inr hpending
    · refine .inr ⟨q, hq, _, hnow, .ahead ?_ hkey hkept⟩
      rw [Progress.unbegun_next]
      exact hmem
  · refine .inr ⟨q, hq, c', ?_, howes⟩
    rw [hcores, if_neg hg]
    exact ht.registry.core?_eq_some hc'

/-- Growth keeps every chain accounted for. -/
theorem Accounted.quiet (h : s.Accounted hist) (hext : s.registry.Extends s'.registry) :
    s'.Accounted hist := by
  intro p links z hleads hholds
  have hcont := hext.continues (.refl _) fun _ => rfl
  obtain ⟨hbefore, hfrom⟩ := hcont.before hholds hleads
  rcases h p links z hfrom hbefore with hserved | ⟨q, hq, c, hc, howes⟩
  · exact .inl hserved
  · exact .inr ⟨q, hq, c, hext.core?_eq_some hc, howes⟩

/-! ## 4. Taking an event -/

variable {w : Watcher} {e : ScopedEvent} {inbox : BoundedQueue String ScopedEvent}

theorem core?_taken (s : System) (gvr : GroupVersionResource) (w : Watcher) (e : ScopedEvent)
    (inbox : BoundedQueue String ScopedEvent) (g : GroupVersionResource) :
    (s.taken gvr w e inbox).registry.core? g =
      if g = gvr then some ⟨w.kind, (w.cache.apply e.scope e.event).1,
        .facing (w.cache.apply e.scope e.event).2⟩
      else s.registry.core? g :=
  s.core?_setWatcher gvr _ g

theorem settings_taken (s : System) (gvr : GroupVersionResource) (w : Watcher) (e : ScopedEvent)
    (inbox : BoundedQueue String ScopedEvent) :
    s.registry.SameSettings (s.taken gvr w e inbox).registry := ⟨rfl, rfl, rfl⟩

/-- Taking an event leaves every watcher with its kind. -/
theorem kind_taken (hw : s.registry.watcher? gvr = some w) (e : ScopedEvent)
    (inbox : BoundedQueue String ScopedEvent) (g : GroupVersionResource) :
    ((s.taken gvr w e inbox).registry.core? g).map Core.kind =
      (s.registry.core? g).map Core.kind := by
  rw [core?_taken]
  split
  · next hg =>
    rw [hg, Registry.core?_of_watcher? hw]
    rfl
  · rfl

theorem sound_taken (hsound : s.registry.Sound) (hw : s.registry.watcher? gvr = some w) :
    (s.taken gvr w e inbox).registry.Sound := by
  intro g c hc
  rw [core?_taken] at hc
  split at hc
  · next hg =>
    obtain ⟨hgvr, hkeyed⟩ := hsound gvr w.core (Registry.core?_of_watcher? hw)
    cases hc
    exact ⟨hgvr.trans hg.symm, hkeyed.apply e.scope e.event⟩
  · exact hsound g c hc

/-- A version that an event brings into the cache is the version of a change that the worker now
faces. -/
theorem cached_taken (hw : s.registry.watcher? gvr = some w)
    (h : (s.taken gvr w e inbox).registry.cached p.gvr p.key = some p.object) :
    s.registry.cached p.gvr p.key = some p.object ∨
      ∃ c, (s.taken gvr w e inbox).registry.core? p.gvr = some c ∧ c.Owes p.key p.object := by
  rw [Registry.cached_eq, core?_taken] at h
  rw [Registry.cached_eq, core?_taken]
  by_cases hg : p.gvr = gvr
  · rw [if_pos hg] at h ⊢
    rcases WatchCache.get?_apply (Option.bind_some _ _ ▸ h) with hold | ⟨-, hchanges⟩
    · left
      rw [hg, Registry.core?_of_watcher? hw]
      exact hold
    · right
      refine ⟨_, rfl, .ahead (e := ⟨p.key, w.cache.changeTo p.key p.object⟩) ?_ rfl
        (w.cache.isDeletion_changeTo p.key p.object)⟩
      rw [Worker.unbegun_facing, hchanges]
      exact List.mem_singleton_self _
  · rw [if_neg hg] at h
    exact .inl h

/-- **Taking an event keeps every chain accounted for.**  If the event has stored a version of the
chain, the worker owes a batch for it; otherwise the chain was cached before. -/
theorem Accounted.taken (h : s.Accounted hist) (hw : s.registry.watcher? gvr = some w)
    (hidle : w.worker = .idle) : (s.taken gvr w e inbox).Accounted hist := by
  intro p links z hleads hholds
  by_cases hold : s.registry.Holds (p :: links)
  · have hfrom : s.registry.Leads p links z := by
      refine hleads.congr (s.settings_taken gvr w e inbox) fun c' hc' => ?_
      have hkind := kind_taken hw e inbox p.gvr
      rw [hc'] at hkind
      obtain ⟨c, hc, hk⟩ := Option.map_eq_some_iff.mp hkind.symm
      exact ⟨c, hc, hk⟩
    rcases h p links z hfrom hold with hserved | ⟨q, hq, c, hc, howes⟩
    · exact .inl hserved
    · refine .inr ⟨q, hq, c, ?_, howes⟩
      have hg : q.gvr ≠ gvr := fun hg => by
        rw [hg, Registry.core?_of_watcher? hw] at hc
        cases hc
        exact Core.not_owes_of_idle hidle howes
      rw [core?_taken, if_neg hg]
      exact hc
  · right
    obtain ⟨q, hq⟩ := Classical.not_forall.mp hold
    obtain ⟨hmem, hnew⟩ := Classical.not_imp.mp hq
    rcases cached_taken hw (hholds q hmem) with hcached | ⟨c, hc, howes⟩
    · exact absurd hcached hnew
    · exact ⟨q, hmem, c, hc, howes⟩

/-! ## 5. Along a run -/

theorem Move.sound (h : Move s s' notes) (hsound : s.registry.Sound) : s'.registry.Sound := by
  induction h with
  | quiet hext => exact hsound.continues (hext.continues (.refl _) fun _ => rfl)
  | turn ht => exact hsound.continues ht.continues
  | took hw _ _ ih => exact ih (sound_taken hsound hw)

theorem isConfigured_of_taken (hw : s.registry.watcher? gvr = some w)
    (h : (s.taken gvr w e inbox).registry.IsConfigured) : s.registry.IsConfigured := by
  intro c hc
  have hkind := kind_taken hw e inbox s.registry.applicationKind.gvr
  rw [hc] at hkind
  obtain ⟨c', hc', hk⟩ := Option.map_eq_some_iff.mp hkind
  exact hk ▸ h c' hc'

theorem Move.configured (h : Move s s' notes) (hconfigured : s'.registry.IsConfigured) :
    s.registry.IsConfigured := by
  induction h with
  | quiet hext => exact hconfigured.of_continues (hext.continues (.refl _) fun _ => rfl)
  | turn ht => exact hconfigured.of_continues ht.continues
  | took hw _ _ ih => exact isConfigured_of_taken hw (ih hconfigured)

/-- Once the application kind is watched as it is configured, it stays so. -/
theorem Move.isStarted (h : Move s s' notes) (hstarted : s.registry.IsStarted) :
    s'.registry.IsStarted := by
  induction h with
  | quiet hext => exact hstarted.continues (hext.continues (.refl _) fun _ => rfl)
  | turn ht => exact hstarted.continues ht.continues
  | @took s s' notes first gvr w e inbox hw _ _ ih =>
    obtain ⟨c, hc, hk⟩ := hstarted
    have hkind := kind_taken hw e inbox s.registry.applicationKind.gvr
    rw [hc] at hkind
    obtain ⟨c', hc', hk'⟩ := Option.map_eq_some_iff.mp hkind
    exact ih ⟨c', hc', hk'.trans hk⟩

/-- A step without failure keeps every chain accounted for. -/
theorem Accounted.move (hm : Move s s' notes) (h : s.Accounted hist)
    (hsound : s.registry.Sound) (hconfigured : s'.registry.IsConfigured)
    (hok : ∀ n ∈ notes, n.isFailure = false) :
    s'.Accounted fun s₂ notes₂ => hist s₂ notes₂ ∨ s₂ = s' ∧ notes₂ = notes := by
  induction hm with
  | quiet hext =>
    exact (h.quiet hext).mono fun s₂ notes₂ hpast => ⟨notes₂, .inl hpast, List.Subset.refl _⟩
  | turn ht => exact h.turn ht rfl hsound hconfigured hok
  | @took s s' notes first gvr w e inbox hw hidle _ ih =>
    have hafter := ih (h.taken hw hidle) (sound_taken hsound hw) hconfigured
      fun n hn => hok n (List.mem_append_right _ hn)
    refine hafter.mono fun s₂ notes₂ hpast => ?_
    rcases hpast with hpast | ⟨rfl, rfl⟩
    · exact ⟨notes₂, .inl hpast, List.Subset.refl _⟩
    · exact ⟨first ++ notes₂, .inr ⟨rfl, rfl⟩, List.subset_append_right _ _⟩

/-- **Along a run without stop or failure every chain stays accounted for.** -/
theorem Accounted.run {actions : List Action} (hroomed : s.Roomed) (hsound : s.registry.Sound)
    (hrun : s.run actions = some (s', notes)) (hstop : ∀ a ∈ actions, a.stops = false)
    (hok : ∀ n ∈ notes, n.isFailure = false) (hconfigured : s'.registry.IsConfigured) :
    s'.registry.Sound ∧ s.registry.IsConfigured ∧
      ∀ hist : System → List Note → Prop, s.Accounted hist → s'.Accounted fun s₂ notes₂ =>
        hist s₂ notes₂ ∨ s.Stepped actions s₂ notes₂ := by
  induction actions generalizing s notes with
  | nil =>
    cases hrun
    exact ⟨hsound, hconfigured, fun hist h => h.mono fun s₂ notes₂ hpast =>
      ⟨notes₂, .inl hpast, List.Subset.refl _⟩⟩
  | cons action actions ih =>
    obtain ⟨s₁, notes₁, notes₂, hstep, hrest, rfl⟩ := run_cons hrun
    obtain ⟨hmove, hroomed₁⟩ := step_move hroomed (hstop _ List.mem_cons_self) hstep
    obtain ⟨hsound', hconfigured₁, hafter⟩ := ih hroomed₁ (hmove.sound hsound) hrest
      (fun a ha => hstop a (List.mem_cons_of_mem _ ha))
      (fun n hn => hok n (List.mem_append_right _ hn))
    refine ⟨hsound', hmove.configured hconfigured₁, fun hist h => ?_⟩
    have hnow := h.move hmove hsound hconfigured₁ fun n hn => hok n (List.mem_append_left _ hn)
    refine (hafter _ hnow).mono fun s₂ notes₂ hpast => ⟨notes₂, ?_, List.Subset.refl _⟩
    rcases hpast with (hpast | ⟨rfl, rfl⟩) | hpast
    · exact .inl hpast
    · exact .inr (.head hstep actions)
    · exact .inr (.tail hstep hpast)

/-! ## 6. Starting -/

/-- The actions that start an engine: the application kind is to be watched, and each of so many
scopes is found listable. -/
def starting (applicationKind : KindDescriptor) (scopes : Nat) : List Action :=
  .call 0 (.addToWatch applicationKind) ::
    List.replicate scopes (.checked (.caller 0) (.ok ()))

/-- When all scopes of a kind have been found listable it is watched in them, and the call returns
well. -/
theorem exists_run_checked (id : Nat) (kind : KindDescriptor) (scopes rest : List String) :
    ∃ s' notes, (concludeCaller id (s.checkScopes (.caller id) kind scopes rest .done)).1.run
          (List.replicate rest.length (.checked (.caller id) (.ok ()))) = some (s', notes) ∧
      s'.registry = (s.registry.openWatches kind scopes).1 ∧
      .returned id (.ok ()) ∈
        (concludeCaller id (s.checkScopes (.caller id) kind scopes rest .done)).2 ++ notes := by
  induction rest generalizing s with
  | nil =>
    refine ⟨_, [], rfl, rfl, ?_⟩
    simp [concludeCaller, checkScopes, watchScopes, pursue, Outcome.after]
  | cons scope rest ih =>
    let waiting : System :=
      { s with callers := s.callers.insert id (.access kind scopes scope rest .done) }
    obtain ⟨s', notes, hrun, hregistry, hreturned⟩ := ih (s := waiting)
    have hwaits : waiting.awaiting? (.caller id) = some (.access kind scopes scope rest .done) :=
      SortedMap.get?_insert_self _ _ _
    have hstep : waiting.step (.checked (.caller id) (.ok ())) = some (concludeCaller id
        (waiting.checkScopes (.caller id) kind scopes rest .done)) := by
      simp only [step, hwaits]
      rfl
    exact ⟨s', _, run_cons_of_step hstep hrun, hregistry, List.mem_append_right _ hreturned⟩

/-- An engine that can list its scopes starts. -/
theorem exists_start (applicationKind : KindDescriptor) (namespacesKey : String)
    (namespaces : List String) (capacity window now : Nat) :
    ∃ scopes s notes, (fresh applicationKind namespacesKey namespaces capacity window now).run
      (starting applicationKind scopes) = some (s, notes) ∧ s.registry.IsStarted := by
  let start := fresh applicationKind namespacesKey namespaces capacity window now
  let scopes := start.registry.newScopes applicationKind
  obtain ⟨s, notes, hrun, hregistry, -⟩ :=
    exists_run_checked (s := start) 0 applicationKind scopes scopes
  refine ⟨scopes.length, s, _, run_cons_of_step rfl hrun, ?_⟩
  rw [hregistry]
  exact Registry.isStarted_openWatches (r := start.registry) rfl scopes

/-- An engine that is started is configured at the end of every run without stop. -/
theorem isConfigured_of_isStarted {actions : List Action} (hroomed : s.Roomed)
    (hstarted : s.registry.IsStarted) (hrun : s.run actions = some (s', notes))
    (hstop : ∀ a ∈ actions, a.stops = false) : s'.registry.IsConfigured := by
  induction actions generalizing s notes with
  | nil =>
    cases hrun
    exact hstarted.isConfigured
  | cons action actions ih =>
    obtain ⟨s₁, notes₁, notes₂, hstep, hrest, rfl⟩ := run_cons hrun
    obtain ⟨hmove, hroomed₁⟩ := step_move hroomed (hstop _ List.mem_cons_self) hstep
    exact ih hroomed₁ (hmove.isStarted hstarted) hrest
      fun a ha => hstop a (List.mem_cons_of_mem _ ha)

/-! ## 7. No recomputation is lost -/

/-- No worker has anything to do: every event that was taken is applied and its changes are
handled. -/
def Settled (s : System) : Prop :=
  ∀ gvr w, s.registry.watcher? gvr = some w → w.worker = .idle

/-- Where all workers are idle nothing is pending. -/
theorem Settled.not_pending (h : s.Settled) : ¬ s.Pending points := by
  rintro ⟨p, -, c, hc, howes⟩
  obtain ⟨w, hw, rfl⟩ := Registry.exists_watcher_of_core? hc
  exact Core.not_owes_of_idle (h p.gvr w hw) howes

/-- **No recomputation is lost.**  Take any run without stop in which no handler fails, whatever
the kinds, the order in which the parties act and the answers they get, and a state of it in which
all workers are idle.  An application that contains a cached object, through whatever chain of
cached applications, or is that object, has been sent by a worker in a batch that was built while
the caches held the versions they hold now, of the object and of every application on the chain.
If the application kind is watched, it is watched as it is configured; an engine that was started
has it so (`exists_start`, `isConfigured_of_isStarted`). -/
theorem no_recomputation_lost (applicationKind : KindDescriptor) (namespacesKey : String)
    (namespaces : List String) (capacity window now : Nat) {actions : List Action} {s : System}
    {notes : List Note}
    (hrun : (fresh applicationKind namespacesKey namespaces capacity window now).run actions =
      some (s, notes))
    (hstop : ∀ a ∈ actions, a.stops = false) (hok : ∀ n ∈ notes, n.isFailure = false)
    (hconfigured : s.registry.IsConfigured) (hsettled : s.Settled) {p : Point} {w : Watcher}
    (hw : s.registry.watcher? p.gvr = some w)
    (hp : w.cache.objects.get? p.key = some p.object) :
    ∃ x, ResourceInfo.ofObject w.kind p.object = .ok x ∧
      ∀ z, (p.gvr = s.registry.applicationKind.gvr ∧ z = x ∨ Relation.TransGen
          (s.registry.resolver s.registry.snapshot.1).IsComponentOf x z) →
        (∃ links, s.registry.Holds links ∧ s.registry.Chain x links z) ∧
        ∀ links, s.registry.Holds links → s.registry.Chain x links z → ∃ s₂ notes₂,
          (fresh applicationKind namespacesKey namespaces capacity window now).Stepped actions
            s₂ notes₂ ∧ s₂.Served notes₂ (p :: links) z := by
  have hempty : ∀ gvr, (fresh applicationKind namespacesKey namespaces capacity window
      now).registry.core? gvr = none := fun _ => rfl
  obtain ⟨hsound, -, haccounted⟩ := Accounted.run (roomed_fresh ..)
    (fun gvr c hc => absurd ((hempty gvr).symm.trans hc) (by simp)) hrun hstop hok hconfigured
  have haccounted := haccounted (fun _ _ => False) fun p links z hleads _ => by
    obtain ⟨c, x, hc, -⟩ := hleads
    exact absurd ((hempty p.gvr).symm.trans hc) (by simp)
  have hcore := Registry.core?_of_watcher? hw
  obtain ⟨hgvr, hkeyed⟩ := hsound p.gvr w.core hcore
  obtain ⟨x, hx⟩ := p.object.exists_snapshot (hkeyed p.key p.object hp) w.kind
  refine ⟨x, hx, fun z hz => ⟨?_, fun links hlinks hchain => ?_⟩⟩
  · rcases hz with ⟨-, rfl⟩ | habove
    · exact ⟨[], fun q hq => absurd hq (by simp), .top z⟩
    · obtain ⟨links, -, hholds, hchain⟩ := Registry.exists_chain habove
      exact ⟨links, hholds, hchain⟩
  · have hholds : s.registry.Holds (p :: links) := fun q hq => by
      rcases List.mem_cons.mp hq with rfl | hq
      · rw [Registry.cached, hw]
        exact hp
      · exact hlinks q hq
    have hends : links ≠ [] ∨ p.gvr = s.registry.applicationKind.gvr := by
      by_cases hne : links = []
      · subst hne
        cases hchain
        rcases hz with ⟨happ, -⟩ | habove
        · exact .inr happ
        · have hproper := Registry.snapshot_proper fun w' hw' => hsound.keyed hw'
          obtain ⟨y, -, hlast⟩ := Relation.TransGen.tail'_iff.mp habove
          rw [← hgvr]
          exact .inr ((ResourceInfo.gvr_ofObject hx).symm.trans (hlast.gvr_eq hproper))
      · exact .inl hne
    rcases haccounted p links z ⟨w.core, x, hcore, hx, hchain, hends⟩ hholds with
      ⟨s₂, notes₂, hpast, hserved⟩ | hpending
    · exact ⟨s₂, notes₂, hpast.resolve_left id, hserved⟩
    · exact absurd hpending hsettled.not_pending

/-- The application kind of the sample run. -/
def sampleApplications : KindDescriptor :=
  ⟨⟨"app.k8s.io", "v1beta1", "applications"⟩, "Application", true⟩

/-- The component kind of the sample run. -/
def sampleDeployments : KindDescriptor := ⟨⟨"apps", "v1", "deployments"⟩, "Deployment", true⟩

/-- An application of the deployments that are labelled `app: web`. -/
def sampleShop : ClusterObject where
  metadata := { name := some "shop", «namespace» := some "default" }
  data := .ofList [("spec", .obj [
    ("componentKinds", .arr [.obj [("group", .str "apps"), ("kind", .str "Deployment")]]),
    ("selector", .obj [("matchLabels", .obj [("app", .str "web")])])])]

/-- A deployment with that label. -/
def sampleWeb : ClusterObject where
  metadata := {
    name := some "web"
    «namespace» := some "default"
    labels := some (.ofList [("app", "web")]) }

/-- The engine in front of an open cluster. -/
def sampleStart : System := fresh sampleApplications "namespaces" [] 64 0 0

/-- The application is cached first and has its component kind watched; then the deployment is
cached. -/
def sampleRun : List Action :=
  let applications := sampleApplications.gvr
  let deployments := sampleDeployments.gvr
  [.call 0 (.addToWatch sampleApplications), .checked (.caller 0) (.ok ()),
    .feed applications "" [.event (.apply sampleShop)], .read applications "", .take applications,
    .discovered (.worker applications) (.ok (some sampleDeployments)),
    .checked (.worker applications) (.ok ()),
    .feed deployments "default" [.event (.apply sampleWeb)], .read deployments "default",
    .take deployments]

/-- What the sample run leads to: no failure, idle workers, and an application in the snapshot that
has the cached deployment. -/
def isSampleEnd (s : System) (notes : List Note) : Bool :=
  notes.all (fun n => !n.isFailure) &&
    s.registry.watchers.entries.all (fun e => e.2.worker = .idle) &&
    (s.registry.core? s.registry.applicationKind.gvr).all
      (fun c => c.kind = s.registry.applicationKind) &&
    (s.registry.watcher? sampleDeployments.gvr).any fun w =>
      w.cache.objects.get? "default/web" = some sampleWeb &&
        s.registry.snapshot.1.any fun a =>
          (ResourceInfo.ofObject w.kind sampleWeb).toOption.any fun x =>
            a.hasComponent s.registry.filter x

/-- In the sample run the application is sent once the deployment is cached. -/
theorem no_recomputation_lost_sample :
    ∃ s notes links s₂ notes₂ z, sampleStart.run sampleRun = some (s, notes) ∧ links ≠ [] ∧
      sampleStart.Stepped sampleRun s₂ notes₂ ∧
      s₂.Served notes₂ (⟨sampleDeployments.gvr, "default/web", sampleWeb⟩ :: links) z := by
  have hend : (sampleStart.run sampleRun).any (fun r => isSampleEnd r.1 r.2) = true := by decide
  obtain ⟨⟨s, notes⟩, hrun, hend⟩ := (Option.any_eq_true _ _).mp hend
  simp only [isSampleEnd, Bool.and_eq_true, List.all_eq_true, Option.all_eq_true,
    Option.any_eq_true, List.any_eq_true, Bool.not_eq_true', decide_eq_true_eq] at hend
  obtain ⟨⟨⟨hok, hidle⟩, hconfigured⟩, w, hw, hp, a, ha, x, hx, hcomponent⟩ := hend
  have hsettled : s.Settled := fun gvr w hw => hidle (gvr, w) (SortedMap.get?_eq_some_iff.mp hw)
  obtain ⟨x', hx', hall⟩ := no_recomputation_lost sampleApplications "namespaces" [] 64 0 0 hrun
    (by decide) hok hconfigured hsettled (p := ⟨sampleDeployments.gvr, "default/web", sampleWeb⟩)
    hw hp
  obtain rfl : x = x' := by
    rw [hx'] at hx
    exact (Option.some.inj hx).symm
  have habove : Relation.TransGen (s.registry.resolver s.registry.snapshot.1).IsComponentOf x
      a.resource := .single ⟨a, ha, hcomponent, rfl⟩
  obtain ⟨links, hne, hholds, hchain⟩ := Registry.exists_chain habove
  obtain ⟨s₂, notes₂, hstepped, hserved⟩ := (hall a.resource (.inr habove)).2 links hholds hchain
  exact ⟨s, notes, links, s₂, notes₂, a.resource, hrun, hne, hstepped, hserved⟩

end System

end AppWatch
