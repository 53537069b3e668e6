/-
# Stale snapshots never overtake fresh ones

Snapshots of one application are sent by the workers of all kinds, each over what is cached when it
builds its batch, and workers wait for room at different times.  Still the callbacks see them in the
order of the application's changes, if the queue lets batches in in the order in which their sending
has begun.

What was handed out and everything on its way are one list for each application.

* **Whatever is sent is current.**  A batch is built and put in line without a wait in between, and
  the cache of the application kind is what the log has made of it.  So a new snapshot may go to the
  end of the line, and the line only ever loses snapshots (`System.Ordered`).
* **Whatever is cached is sent.**  A version that a worker has brought into the cache it owes until
  its own batch is in line (`Core.Owes`).  From then on the last snapshot in line shows the version,
  since all that are added later show what is current (`System.Answered`).

A stop takes waiting batches out of the line, which leaves it in order.  What they would have shown
last nobody else need show; but then the worker of the stopped kind is dead, or nothing is cached
any more.
-/
import AppWatch.Proofs.Conveyance
import AppWatch.Proofs.Versions
import Mathlib.Data.List.Flatten

namespace AppWatch

open ResourceEvent

namespace System

variable {s s' : System} {app gvr : GroupVersionResource} {log : List ResourceEvent}
  {past notes : List Note} {c : Core} {e : ResourceEvent} {rest : List ResourceEvent}
  {gs : List Growth} {o : Outcome} {b : Batch} {k : ResourceKey} {v : ResourceInfo}
  {final? : Option (KindDescriptor × Change ClusterObject)} {action : Action}

/-! ## 1. Snapshots in order -/

/-- What has come of the changes so far: the caches, what is reported and what is to be sent agree
with the log, and for each application the snapshots that were handed out, with those on their way
behind them, are in its order. -/
structure Ordered (app : GroupVersionResource) (s : System) (log : List ResourceEvent)
    (past : List Note) : Prop where
  kind : s.registry.applicationKind.gvr = app
  sound : s.registry.Sound
  cached : ∀ key o, s.registry.cached app key = some o → IsCurrent app log o
  unbegun : ∀ c, s.registry.core? app = some c → ∀ e ∈ c.worker.unbegun,
    c.cache.latestChange e = e.change ∧ Recorded app log e.change
  awaited : ∀ gvr a kind change, s.awaiting? (.worker gvr) = some a →
    a.final? = some (kind, change) → kind.gvr = gvr ∧ (gvr = app → Recorded app log change)
  inOrder : ∀ k, InOrder app log k (Note.handed k past ++ s.pipeline.ahead k)

/-- What a worker has to send in its turn stands in the log. -/
theorem Ordered.recorded_of_due {kind : KindDescriptor} {change : Change ClusterObject}
    (h : s.Ordered app log past) (hc : s.registry.core? gvr = some c)
    (hdue : c.Due e rest final?) (hfinal : final? = some (kind, change)) :
    kind.gvr = gvr ∧ (gvr = app → Recorded app log change) := by
  cases hdue with
  | begins hready =>
    cases hfinal
    refine ⟨(h.sound gvr c hc).1, fun hg => ?_⟩
    subst hg
    obtain ⟨hlatest, hrecorded⟩ := h.unbegun c hc e (by rw [hready]; exact List.mem_cons_self)
    rw [hlatest]
    exact hrecorded
  | @goesOn a hhandling =>
    refine h.awaited gvr a kind change ?_ hfinal
    rw [awaiting?_worker, hc, Option.bind_some, hhandling]
    rfl

/-- The snapshots over which a batch is built are those of a sound registry. -/
theorem Ordered.proper (h : s.Ordered app log past) (hext : s.registry.Extends o.system.registry) :
    (o.system.registry.resolver o.system.registry.snapshot.1).Proper := by
  have hcont : s.registry.Continues o.system.registry := hext.continues (.refl _) fun _ => rfl
  exact Registry.snapshot_proper fun _ hw => (h.sound.continues hcont).keyed hw

/-- A snapshot in the batch that a worker makes shows a current version. -/
theorem Ordered.mention (h : s.Ordered app log past) (hc : s.registry.core? gvr = some c)
    (hext : s.registry.Extends o.system.registry) (hdue : c.Due e rest final?)
    (hmakes : o.Makes final? b) (hv : b.applications.get? k = some v) :
    v.key = k ∧ ∃ object, v.Shows app object ∧ IsCurrent app log object := by
  cases hmakes with
  | batch _ hfinal hparsed hb =>
    obtain ⟨hkind, hrecorded⟩ := h.recorded_of_due hc hdue hfinal
    have hcont : s.registry.Continues o.system.registry := hext.continues (.refl _) fun _ => rfl
    have hproper := h.proper hext
    obtain rfl : o.system.registry.applicationKind.gvr = app := hext.applicationKind ▸ h.kind
    refine Registry.current_of_mention hproper (fun key object ho => ?_) hparsed
      (fun happ => hrecorded (hkind.symm.trans happ)) hb hv
    rw [hcont.cached_eq] at ho
    exact h.cached key object ho
  | _ => exact absurd hv (by simp [Batch.empty])

/-- A watcher that growth brings has nothing to begin. -/
theorem Ordered.unbegun_of_extends {r : Registry} (h : s.Ordered app log past)
    (hext : s.registry.Extends r) (hc : r.core? app = some c) (he : e ∈ c.worker.unbegun) :
    c.cache.latestChange e = e.change ∧ Recorded app log e.change := by
  rcases hext.core app with heq | ⟨-, kind, -, hnew⟩
  · exact h.unbegun c (heq ▸ hc) e he
  · cases hnew.symm.trans hc
    cases he

/-- Growth of the registry and progress of the processor keep everything in order. -/
theorem Ordered.idle (h : s.Ordered app log past) (hext : s.registry.Extends s'.registry)
    (hwaits : ∀ p a, s'.awaiting? p = some a → a.final? = none ∨ s.awaiting? p = some a)
    (hahead : ∀ k, KeepsLast (s.pipeline.ahead k) (Note.handed k notes ++ s'.pipeline.ahead k)) :
    s'.Ordered app log (past ++ notes) := by
  have hcont : s.registry.Continues s'.registry := hext.continues (.refl _) fun _ => rfl
  refine ⟨hext.applicationKind ▸ h.kind, h.sound.continues hcont, fun key o ho => ?_,
    fun c hc e he => h.unbegun_of_extends hext hc he, fun gvr a kind change ha hfinal => ?_,
    fun k => ?_⟩
  · rw [hcont.cached_eq] at ho
    exact h.cached key o ho
  · rcases hwaits _ a ha with hnone | hbefore
    · exact absurd (hnone.symm.trans hfinal) (by simp)
    · exact h.awaited gvr a kind change hbefore hfinal
  · rw [Note.handed_append, List.append_assoc]
    exact (h.inOrder k).sublist ((hahead k).sublist.append_left _)

theorem handed_concludeWorker {kind : KindDescriptor}
    (hquiet : ∀ n ∈ o.notes, n.isCallback = false) (k : ResourceKey) :
    Note.handed k (concludeWorker gvr kind e rest o).2 = [] := by
  refine Note.handed_of_quiet (fun n hn => ?_) k
  unfold concludeWorker at hn
  split at hn
  · exact hquiet n hn
  · exact hquiet n hn
  · rcases List.mem_append.mp hn with hn | hn
    · exact hquiet n hn
    · rw [List.mem_singleton.mp hn]
      rfl

/-- **The batch of a worker goes to the end, and the snapshots stay in order.** -/
theorem Ordered.turn (h : s.Ordered app log past) (hc : s.registry.core? gvr = some c)
    (hgrows : Outcome.Grows s gs o) (hdue : c.Due e rest final?)
    (hmakes : o.Makes final? b) (hquiet : ∀ n ∈ o.notes, n.isCallback = false)
    (hahead : ∀ k, o.system.pipeline.ahead k = s.pipeline.ahead k ++ b.mentions k) :
    (concludeWorker gvr c.kind e rest o).1.Ordered app log
      (past ++ (concludeWorker gvr c.kind e rest o).2) := by
  have hext := hgrows.extends
  have hcont : s.registry.Continues (concludeWorker gvr c.kind e rest o).1.registry :=
    continues_concludeWorker hc hext
  refine ⟨hcont.applicationKind ▸ h.kind, h.sound.continues hcont, fun key o ho => ?_,
    fun c' hc' e' he' => ?_, fun g a kind change ha hfinal => ?_, fun k => ?_⟩
  · rw [hcont.cached_eq] at ho
    exact h.cached key o ho
  · rw [core?_concludeWorker (hext.core?_eq_some hc)] at hc'
    split at hc'
    · next hg =>
      cases hc'
      rw [Progress.unbegun_next] at he'
      refine h.unbegun c (hg ▸ hc) e' ?_
      cases hdue with
      | begins hready =>
        rw [hready]
        exact List.mem_cons_of_mem _ he'
      | goesOn hhandling =>
        rw [hhandling]
        exact he'
    · exact h.unbegun_of_extends hext hc' he'
  · rw [awaiting?_concludeWorker hgrows hc] at ha
    split at ha
    · next hg =>
      obtain rfl : g = gvr := Party.worker.inj hg
      exact h.recorded_of_due hc hdue (hmakes.final?_eq (Progress.eq_waits ha) hfinal)
    · exact h.awaited g a kind change ha hfinal
  · rw [Note.handed_append, handed_concludeWorker hquiet, List.append_nil, pipeline_concludeWorker,
      hahead, ← List.append_assoc]
    unfold Batch.mentions
    cases hv : b.applications.get? k with
    | none =>
      rw [Option.toList_none, List.append_nil]
      exact h.inOrder k
    | some v =>
      obtain ⟨hkey, object, hshows, hcurrent⟩ := h.mention hc hext hdue hmakes hv
      exact (h.inOrder k).snoc hshows hkey hcurrent

/-- What an event leaves of the cache of the application kind, and what it reports. -/
theorem Ordered.current_apply {w : Watcher} (h : s.Ordered app log past)
    (hw : s.registry.watcher? app = some w) (scope : String) (event : WatchEvent) :
    (∀ key o, (w.cache.apply scope event).1.objects.get? key = some o →
      IsCurrent app (log ++ (w.cache.apply scope event).2) o) ∧
    ∀ e ∈ (w.cache.apply scope event).2,
      Recorded app (log ++ (w.cache.apply scope event).2) e.change := by
  refine WatchCache.current_apply (h.sound _ _ (Registry.core?_of_watcher? hw)).2
    (fun key o ho => h.cached key o ?_) scope event
  rw [Registry.cached, hw]
  exact ho

/-- A worker takes an event, and the changes it makes are in the log from then on. -/
theorem Ordered.taken {w : Watcher} {event : ScopedEvent} {inbox : BoundedQueue String ScopedEvent}
    {first : List Note} (h : s.Ordered app log past) (hw : s.registry.watcher? gvr = some w)
    (hidle : w.worker = .idle) (hquiet : ∀ n ∈ first, n.isCallback = false) :
    (s.taken gvr w event inbox).Ordered app
      (log ++ if gvr = app then (w.cache.apply event.scope event.event).2 else [])
      (past ++ first) := by
  have hcore := core?_taken s gvr w event inbox app
  refine ⟨h.kind, sound_taken h.sound hw, fun key o ho => ?_, fun c hc e he => ?_,
    fun g a kind change ha hfinal => ?_, fun k => ?_⟩
  · rw [Registry.cached_eq, hcore] at ho
    split at ho
    · next hg =>
      rw [if_pos hg.symm]
      exact (h.current_apply (hg ▸ hw) _ _).1 key o ho
    · next hg =>
      rw [if_neg (Ne.symm hg), List.append_nil]
      refine h.cached key o ?_
      rw [Registry.cached_eq]
      exact ho
  · rw [hcore] at hc
    split at hc
    · next hg =>
      cases hc
      rw [Worker.unbegun_facing] at he
      rw [if_pos hg.symm]
      exact ⟨(WatchCache.stands_apply he).latestChange_eq, (h.current_apply (hg ▸ hw) _ _).2 e he⟩
    · next hg =>
      rw [if_neg (Ne.symm hg), List.append_nil]
      exact h.unbegun c hc e he
  · rw [awaiting?_taken hw hidle] at ha
    obtain ⟨hkind, hrecorded⟩ := h.awaited g a kind change ha hfinal
    refine ⟨hkind, fun hg => ?_⟩
    by_cases hown : gvr = app
    · rw [hg, ← hown, awaiting?_worker, Registry.core?_of_watcher? hw] at ha
      simp [Watcher.core, hidle, Worker.awaiting?] at ha
    · rw [if_neg hown, List.append_nil]
      exact hrecorded hg
  · rw [Note.handed_append, Note.handed_of_quiet hquiet, List.append_nil]
    exact (h.inOrder k).log_append _

/-- **What a step conveys keeps the snapshots in order.** -/
theorem Ordered.conveys {changes : List ResourceEvent} (h : s.Ordered app log past)
    (hc : Conveys app s changes s' notes) : s'.Ordered app (log ++ changes) (past ++ notes) := by
  induction hc generalizing log past with
  | idle hext hwaits _ hahead =>
    rw [List.append_nil]
    exact h.idle hext hwaits hahead
  | turn hc hgrows hdue hmakes hquiet _ hahead =>
    rw [List.append_nil]
    exact h.turn hc hgrows hdue hmakes hquiet hahead
  | took hw hidle hquiet _ ih =>
    have hafter := ih (h.taken hw hidle hquiet)
    rwa [List.append_nil, List.append_assoc] at hafter

/-! ## 2. What is cached is shown last -/

/-- Every cached application is shown by the last snapshot of it that was handed out or is on its
way, or its version is still to be sent, or some worker is dead. -/
def Answered (app : GroupVersionResource) (s : System) (past : List Note) : Prop :=
  ∀ key o, s.registry.cached app key = some o →
    (∃ g c, s.registry.core? g = some c ∧ c.worker = .dead) ∨
    (∃ c, s.registry.core? app = some c ∧ c.Owes key o) ∨
    ∃ v : ResourceInfo, v.Shows app o ∧
      (Note.handed v.key past ++ s.pipeline.ahead v.key).getLast? = some v

/-- Two snapshots of one application that show current versions show the same. -/
theorem shows_of_current {v' : ResourceInfo} {object : ClusterObject} (hv : v.Shows app object)
    (hobject : IsCurrent app log object) (hkey : v'.key = v.key)
    (hv' : ∃ object', v'.Shows app object' ∧ IsCurrent app log object') : v'.Shows app object := by
  obtain ⟨object', hshows, hcurrent⟩ := hv'
  have hid : object.identity? app = object'.identity? app := by
    rw [hv.identity?, hshows.identity?, hkey]
  exact hobject.eq hcurrent hid ▸ hshows

theorem Answered.idle (h : s.Answered app past) (hext : s.registry.Extends s'.registry)
    (hahead : ∀ k, KeepsLast (s.pipeline.ahead k) (Note.handed k notes ++ s'.pipeline.ahead k)) :
    s'.Answered app (past ++ notes) := by
  have hcont : s.registry.Continues s'.registry := hext.continues (.refl _) fun _ => rfl
  intro key o ho
  rw [hcont.cached_eq] at ho
  rcases h key o ho with ⟨g, c, hc, hdead⟩ | ⟨c, hc, howes⟩ | ⟨v, hshows, hlast⟩
  · exact .inl ⟨g, c, hext.core?_eq_some hc, hdead⟩
  · exact .inr (.inl ⟨c, hext.core?_eq_some hc, howes⟩)
  · refine .inr (.inr ⟨v, hshows, ?_⟩)
    rw [Note.handed_append, List.append_assoc, List.getLast?_append, (hahead v.key).last,
      ← List.getLast?_append]
    exact hlast

/-- What was owed before a worker's turn is its change in this turn, or still ahead. -/
theorem owes_cases {key : String} {object : ClusterObject} (hdue : c.Due e rest final?)
    (hcached : c.cache.objects.get? key = some object) (howes : c.Owes key object) :
    (∃ change, final? = some (c.kind, change) ∧ change.latest = object) ∨
      ∃ e' ∈ rest, e'.key = key ∧ e'.change.isDeletion = false := by
  cases hdue with
  | begins hready =>
    cases howes with
    | ahead hmem hkey hkept =>
      rw [hready] at hmem
      rcases List.mem_cons.mp hmem with rfl | hmem
      · exact .inl ⟨_, rfl, WatchCache.latest_latestChange (hkey ▸ hcached) hkept⟩
      · exact .inr ⟨_, hmem, hkey, hkept⟩
    | begun hworker => exact absurd (hready.symm.trans hworker) (by simp)
  | goesOn hhandling =>
    cases howes with
    | ahead hmem hkey hkept =>
      rw [hhandling] at hmem
      exact .inr ⟨_, hmem, hkey, hkept⟩
    | begun hworker hfinal hlatest =>
      cases hhandling.symm.trans hworker
      exact .inl ⟨_, hfinal, hlatest⟩

/-- A worker that has its turn is not dead. -/
theorem not_dead_of_due (hdue : c.Due e rest final?) : c.worker ≠ .dead := by
  cases hdue with
  | begins hready => simp [hready]
  | goesOn hhandling => simp [hhandling]

/-- The batch of a version that a worker has made has a snapshot of it, under its identity. -/
theorem Ordered.exists_own {change : Change ClusterObject} {parsed : Change ResourceInfo}
    {kind : KindDescriptor} (h : s.Ordered app log past)
    (hext : s.registry.Extends o.system.registry) (hkind : kind.gvr = app)
    (hparsed : change.mapM? (ResourceInfo.ofObject kind) = .ok parsed)
    (hb : b.IsOf (o.system.registry.resolver o.system.registry.snapshot.1) parsed) :
    ∃ x v : ResourceInfo, x.Shows app change.latest ∧ b.applications.get? x.key = some v := by
  have hsame : kind.gvr = o.system.registry.applicationKind.gvr := by
    rw [hext.applicationKind, h.kind]
    exact hkind
  have hin := Registry.contains_own (h.proper hext) hsame hparsed hb
  obtain ⟨v, hv⟩ := Option.isSome_iff_exists.mp hin
  exact ⟨parsed.latest, v, ⟨kind, hkind, Change.latest_mapM? hparsed⟩, hv⟩

/-- What a turn without failure makes of a version that is owed: it is still to be sent, or a
snapshot of it goes to the end of the line. -/
theorem Ordered.owed_turn {key : String} {object : ClusterObject} (h : s.Ordered app log past)
    (hc : s.registry.core? app = some c) (hext : s.registry.Extends o.system.registry)
    (hdue : c.Due e rest final?) (hmakes : o.Makes final? b)
    (hok : ∀ f, o.progress ≠ .finished (.error f))
    (hcached : c.cache.objects.get? key = some object) (howes : c.Owes key object) :
    Core.Owes { c with worker := o.progress.next e rest } key object ∨
      ∃ x v : ResourceInfo, x.Shows app object ∧ b.applications.get? x.key = some v := by
  rcases owes_cases hdue hcached howes with ⟨change, hfinal, rfl⟩ | ⟨e', hmem, hkey, hkept⟩
  · cases hmakes with
    | failed hfail => exact absurd hfail (hok _)
    | @postponed a hwaits hpostponed =>
      have hnext : o.progress.next e rest = .handling e rest a := by
        rw [hwaits]
        rfl
      exact .inl (.begun hnext (hpostponed.trans hfinal) rfl)
    | nothing _ hnone => exact absurd (hnone.symm.trans hfinal) (by simp)
    | batch _ hfinal' hparsed hb =>
      cases hfinal'.symm.trans hfinal
      exact .inr (h.exists_own hext (h.sound app c hc).1 hparsed hb)
  · refine .inl (.ahead ?_ hkey hkept)
    rw [Progress.unbegun_next]
    exact hmem

/-- **After its turn a worker still owes a version, or the last snapshot in line shows it.** -/
theorem Answered.turn (h : s.Answered app past) (ho : s.Ordered app log past)
    (hc : s.registry.core? gvr = some c) (hgrows : Outcome.Grows s gs o)
    (hdue : c.Due e rest final?) (hmakes : o.Makes final? b)
    (hquiet : ∀ n ∈ o.notes, n.isCallback = false)
    (hahead : ∀ k, o.system.pipeline.ahead k = s.pipeline.ahead k ++ b.mentions k)
    (hok : ∀ n ∈ (concludeWorker gvr c.kind e rest o).2, n.isFailure = false) :
    (concludeWorker gvr c.kind e rest o).1.Answered app
      (past ++ (concludeWorker gvr c.kind e rest o).2) := by
  have hext := hgrows.extends
  have hcores : ∀ g, (concludeWorker gvr c.kind e rest o).1.registry.core? g =
      if g = gvr then some { c with worker := o.progress.next e rest }
      else o.system.registry.core? g := core?_concludeWorker (hext.core?_eq_some hc)
  have hline : ∀ k, Note.handed k (past ++ (concludeWorker gvr c.kind e rest o).2) ++
      (concludeWorker gvr c.kind e rest o).1.pipeline.ahead k =
        Note.handed k past ++ s.pipeline.ahead k ++ b.mentions k := fun k => by
    rw [Note.handed_append, handed_concludeWorker hquiet, List.append_nil, pipeline_concludeWorker,
      hahead, ← List.append_assoc]
  intro key object hcached
  rw [(continues_concludeWorker hc hext).cached_eq] at hcached
  have hcurrent := ho.cached key object hcached
  -- a snapshot in the new batch shows the cached version, whoever has made the batch
  have hnew : ∀ x v : ResourceInfo, x.Shows app object → b.applications.get? x.key = some v →
      ∃ v : ResourceInfo, v.Shows app object ∧
        (Note.handed v.key past ++ s.pipeline.ahead v.key ++ b.mentions v.key).getLast? =
          some v := by
    intro x v hx hv
    obtain ⟨hkey, hshown⟩ := ho.mention hc hext hdue hmakes hv
    refine ⟨v, shows_of_current hx hcurrent hkey hshown, ?_⟩
    rw [hkey, Batch.mentions, hv]
    exact List.getLast?_concat
  simp only [hline, hcores]
  rcases h key object hcached with ⟨g, c', hc', hdead⟩ | ⟨c', hc', howes⟩ | ⟨v, hshows, hlast⟩
  · have hg : g ≠ gvr := by
      rintro rfl
      cases hc.symm.trans hc'
      exact not_dead_of_due hdue hdead
    exact .inl ⟨g, c', by rw [if_neg hg]; exact hext.core?_eq_some hc', hdead⟩
  · right
    by_cases hg : app = gvr
    case neg => exact .inl ⟨c', by rw [if_neg hg]; exact hext.core?_eq_some hc', howes⟩
    subst hg
    cases hc.symm.trans hc'
    rw [Registry.cached_eq, hc] at hcached
    have hnot : ∀ f, o.progress ≠ .finished (.error f) := fun f hfail =>
      absurd (hok _ (handlerFailed_mem_concludeWorker hfail)) (by simp [Note.isFailure])
    rcases ho.owed_turn hc hext hdue hmakes hnot hcached howes with hstill | ⟨x, v, hx, hv⟩
    · exact .inl ⟨_, if_pos rfl, hstill⟩
    · exact .inr (hnew x v hx hv)
  · refine .inr (.inr ?_)
    cases hv : b.applications.get? v.key with
    | none =>
      refine ⟨v, hshows, ?_⟩
      rw [Batch.mentions, hv, Option.toList_none, List.append_nil]
      exact hlast
    | some v' => exact hnew v v' hshows hv

/-- A version that a worker has brought into the cache it owes. -/
theorem Answered.taken {w : Watcher} {event : ScopedEvent} {inbox : BoundedQueue String ScopedEvent}
    {first : List Note} (h : s.Answered app past) (hw : s.registry.watcher? gvr = some w)
    (hidle : w.worker = .idle) (hquiet : ∀ n ∈ first, n.isCallback = false) :
    (s.taken gvr w event inbox).Answered app (past ++ first) := by
  -- the worker that takes the event was idle, so the cores that matter are those of the others
  have hother : ∀ g c, s.registry.core? g = some c → c.worker ≠ .idle →
      (s.taken gvr w event inbox).registry.core? g = some c := by
    intro g c hc hbusy
    rw [core?_taken, if_neg]
    · exact hc
    · rintro rfl
      rw [Registry.core?_of_watcher? hw] at hc
      cases hc
      exact hbusy hidle
  intro key o ho
  rcases cached_taken (p := ⟨app, key, o⟩) hw ho with hold | howes
  · rcases h key o hold with ⟨g, c, hc, hdead⟩ | ⟨c, hc, howes⟩ | ⟨v, hshows, hlast⟩
    · exact .inl ⟨g, c, hother g c hc (by simp [hdead]), hdead⟩
    · exact .inr (.inl ⟨c, hother app c hc fun hi => Core.not_owes_of_idle hi howes, howes⟩)
    · refine .inr (.inr ⟨v, hshows, ?_⟩)
      rw [Note.handed_append, Note.handed_of_quiet hquiet, List.append_nil]
      exact hlast
  · exact .inr (.inl howes)

/-- **What a step without failure conveys keeps every cached application answered.** -/
theorem Answered.conveys {changes : List ResourceEvent} (h : s.Answered app past)
    (ho : s.Ordered app log past) (hc : Conveys app s changes s' notes)
    (hok : ∀ n ∈ notes, n.isFailure = false) : s'.Answered app (past ++ notes) := by
  induction hc generalizing log past with
  | idle hext _ _ hahead => exact h.idle hext hahead
  | turn hc hgrows hdue hmakes hquiet _ hahead =>
    exact h.turn ho hc hgrows hdue hmakes hquiet hahead hok
  | took hw hidle hquiet _ ih =>
    have hafter := ih (h.taken hw hidle hquiet) (ho.taken hw hidle hquiet)
      fun n hn => hok n (List.mem_append_right _ hn)
    rwa [List.append_assoc] at hafter

/-! ## 3. Stops -/

/-- **A stop takes snapshots away, but changes no order.** -/
theorem Ordered.stops (h : s.Ordered app log past) (hs : s.step action = some (s', notes))
    (hstop : action.stops = true) : s'.Ordered app log past := by
  obtain ⟨hstopped, -⟩ := stopped_of_stops hs hstop
  obtain ⟨keep, hpipeline⟩ := pipeline_of_stops hs hstop
  refine ⟨hstopped.settings.applicationKind ▸ h.kind, fun g c hc => ?_, fun key o ho => ?_,
    fun c hc e he => ?_, fun g a kind change ha hfinal => ?_, fun k => ?_⟩
  · obtain ⟨c', hc', hcache, hkind, -⟩ := core?_of_stops hs hstop hc
    rw [hkind, hcache]
    exact h.sound g c' hc'
  · rw [Registry.cached_eq] at ho
    obtain ⟨c, hc, hget⟩ := Option.bind_eq_some_iff.mp ho
    obtain ⟨c', hc', hcache, -⟩ := core?_of_stops hs hstop hc
    refine h.cached key o ?_
    rw [Registry.cached_eq, hc', Option.bind_some, ← hcache]
    exact hget
  · obtain ⟨c', hc', hcache, -, hworker⟩ := core?_of_stops hs hstop hc
    rw [hcache]
    rcases hworker with hworker | hdead
    · exact h.unbegun c' hc' e (hworker ▸ he)
    · rw [hdead] at he
      cases he
  · exact h.awaited g a kind change (hstopped.waits ha) hfinal
  · have hline : (s'.pipeline.ahead k).Sublist (s.pipeline.ahead k) := by
      rw [hpipeline]
      exact ((s.queue.line_keepSenders_sublist keep).flatMap _).append_left _
    exact (h.inOrder k).sublist (hline.append_left _)

/-- After a stop nothing is cached, or a worker is dead, or nobody was stopped. -/
theorem Answered.stops (h : s.Answered app past) (hroomed : s.Roomed)
    (hs : s.step action = some (s', notes)) (hstop : action.stops = true) :
    s'.Answered app past := by
  cases action with
  | stop =>
    cases hs
    intro key o ho
    cases ho
  | stopWatcher g =>
    cases hs
    have hcores := Registry.core?_stopWatcher s.registry g
    cases hc : s.registry.core? g with
    | some c =>
      refine fun key o _ => .inl ⟨g, { c with worker := .dead }, ?_, rfl⟩
      change (s.registry.stopWatcher g).core? g = _
      rw [hcores, if_pos rfl, hc]
      rfl
    | none =>
      have hsame : ∀ gvr, (s.registry.stopWatcher g).core? gvr = s.registry.core? gvr := by
        intro gvr
        rw [hcores]
        split
        · next hg => rw [hg, hc, Option.map_none]
        · rfl
      have hkept : ∀ p ∈ s.queue.pending, decide (p ≠ Party.worker g) = true := by
        intro p hp
        refine decide_eq_true fun he => ?_
        have hqueued := hroomed.isQueued_of_mem (he ▸ hp)
        rw [Registry.isQueued, hc] at hqueued
        cases hqueued
      have hline := BoundedQueue.line_keepSenders hkept
      rw [← List.append_nil past]
      refine h.idle ⟨⟨rfl, rfl, rfl⟩, fun gvr => .inl (hsame gvr)⟩ fun k => .of_eq ?_
      exact congrArg (fun line => s.pipeline.phase.ahead k ++ line.flatMap (Batch.mentions k)) hline
  | _ => cases hstop

/-! ## 4. Runs -/

/-- Everything that is known of a state while snapshots stay in order. -/
structure Orderly (app : GroupVersionResource) (s : System) (log : List ResourceEvent)
    (past : List Note) : Prop where
  staffed : s.Staffed
  ordered : s.Ordered app log past
  answered : (∀ n ∈ past, n.isFailure = false) → s.Answered app past

/-- **A step keeps the snapshots in order.** -/
theorem Orderly.step (h : s.Orderly app log past) (hs : s.step action = some (s', notes))
    (hforeign : action.isForeign = false) (hturn : s.inTurn action s' = true) :
    s'.Orderly app (log ++ s.changes app action) (past ++ notes) := by
  cases hstop : action.stops with
  | true =>
    rw [changes_of_stops hstop, (stopped_of_stops hs hstop).2, List.append_nil, List.append_nil]
    exact ⟨h.staffed.stops hs hstop, h.ordered.stops hs hstop,
      fun hok => (h.answered hok).stops h.staffed.roomed hs hstop⟩
  | false =>
    have hconveys : Conveys app s (s.changes app action) s' notes :=
      conveys_of_step h.staffed hs hstop hforeign hturn
    refine ⟨hconveys.staffed h.staffed (step_move h.staffed.roomed hstop hs).2,
      h.ordered.conveys hconveys, fun hok => ?_⟩
    have hbefore := h.answered fun n hn => hok n (List.mem_append_left _ hn)
    exact hbefore.conveys h.ordered hconveys fun n hn => hok n (List.mem_append_right _ hn)

/-- **A run keeps the snapshots in order.** -/
theorem Orderly.run {actions : List Action} (h : s.Orderly app log past)
    (hrun : s.run actions = some (s', notes)) (hforeign : ∀ a ∈ actions, a.isForeign = false)
    (horder : s.admitsInOrder actions = true) :
    s'.Orderly app (log ++ s.changeLog app actions) (past ++ notes) := by
  induction actions generalizing s log past notes with
  | nil =>
    cases hrun
    simpa only [changeLog, List.append_nil] using h
  | cons action actions ih =>
    obtain ⟨s₁, notes₁, notes₂, hstep, hrest, rfl⟩ := run_cons hrun
    simp only [admitsInOrder, hstep, Bool.and_eq_true] at horder
    have hnow := h.step hstep (hforeign _ List.mem_cons_self) horder.1
    have hafter := ih hnow hrest (fun a ha => hforeign a (List.mem_cons_of_mem _ ha)) horder.2
    simp only [changeLog, hstep]
    rwa [List.append_assoc, List.append_assoc] at hafter

/-- In the beginning nothing is cached and nothing is on its way. -/
theorem orderly_fresh (applicationKind : KindDescriptor) (namespacesKey : String)
    (namespaces : List String) (capacity window now : Nat) :
    (fresh applicationKind namespacesKey namespaces capacity window now).Orderly
      applicationKind.gvr [] [] := by
  have hwaits : ∀ p, (fresh applicationKind namespacesKey namespaces capacity window now).awaiting?
      p = none := fun p => by
    cases p <;> rfl
  refine ⟨⟨roomed_fresh .., fun p hp => ?_, fun id a ha => ?_⟩, ⟨rfl, fun g c hc => ?_,
    fun key o ho => ?_, fun c hc => ?_, fun g a kind change ha => ?_, fun k => inOrder_nil ..⟩,
    fun _ key o ho => ?_⟩
  · cases hp
  · rw [hwaits] at ha
    cases ha
  · cases hc
  · cases ho
  · cases hc
  · rw [hwaits] at ha
    cases ha
  · cases ho

/-! ## 5. Stale snapshots never overtake fresh ones -/

/-- Where no worker has anything to do and the queue has nothing to hand on, nothing is on its way
any more. -/
theorem Staffed.ahead_eq_nil (h : s.Staffed) (hsettled : s.Settled) (hitems : s.queue.items = [])
    (hphase : s.pipeline.phase = .idle) (k : ResourceKey) : s.pipeline.ahead k = [] := by
  have hpending : s.queue.pending = [] := by
    refine List.eq_nil_iff_forall_not_mem.mpr fun p hp => ?_
    cases p with
    | caller id => exact absurd (h.senders _ hp) (by simp [Party.isCaller])
    | worker g =>
      obtain ⟨w, e, rest, hw, hhandling⟩ := exists_of_isQueued (h.roomed.isQueued_of_mem hp)
      exact absurd ((hsettled g w hw).symm.trans hhandling) (by simp)
  have hsenders : s.queue.granted ++ s.queue.waiting = [] := List.map_eq_nil_iff.mp hpending
  have hline : s.pipeline.queue.line = [] := by
    change s.queue.items ++ (s.queue.granted ++ s.queue.waiting).map (·.2) = []
    rw [hitems, hsenders]
    rfl
  rw [Pipeline.ahead, hphase, hline]
  rfl

/-- Where no worker has anything to do, the last snapshot in line shows what is cached. -/
theorem Answered.of_settled (h : s.Answered app past) (hsettled : s.Settled) {key : String}
    {object : ClusterObject} (ho : s.registry.cached app key = some object) :
    ∃ v : ResourceInfo, v.Shows app object ∧
      (Note.handed v.key past ++ s.pipeline.ahead v.key).getLast? = some v := by
  have hidle : ∀ g c, s.registry.core? g = some c → c.worker = .idle := by
    intro g c hc
    obtain ⟨w, hw, rfl⟩ := Registry.exists_watcher_of_core? hc
    exact hsettled g w hw
  rcases h key object ho with ⟨g, c, hc, hdead⟩ | ⟨c, hc, howes⟩ | hlast
  · exact absurd ((hidle g c hc).symm.trans hdead) (by simp)
  · exact absurd howes (Core.not_owes_of_idle (hidle app c hc))
  · exact hlast

/-- **Stale snapshots never overtake fresh ones.**  Take any run in which nobody but the workers
sends batches and the queue lets them in in the order in which their sending has begun, whatever the
kinds, the order in which the parties act and the answers they get.  For each application the
snapshots that `calculateStatus` is given follow the changes that are reported for it: each shows
one of them, and later ones show no earlier ones.  And once the workers have handled all they took
without failure and the processor has handed out all batches, the last snapshot that was given for
an application that is still cached shows the cached version. -/
theorem snapshots_in_order (applicationKind : KindDescriptor) (namespacesKey : String)
    (namespaces : List String) (capacity window now : Nat) {actions : List Action} {s : System}
    {notes : List Note}
    (hrun : (fresh applicationKind namespacesKey namespaces capacity window now).run actions =
      some (s, notes))
    (hforeign : ∀ a ∈ actions, a.isForeign = false)
    (horder : (fresh applicationKind namespacesKey namespaces capacity window
      now).admitsInOrder actions = true) :
    (∀ k, InOrder applicationKind.gvr
      ((fresh applicationKind namespacesKey namespaces capacity window now).changeLog
        applicationKind.gvr actions) k (Note.handed k notes)) ∧
    (s.Settled → (∀ n ∈ notes, n.isFailure = false) → s.queue.items = [] →
      s.pipeline.phase = .idle → ∀ key object,
        s.registry.cached applicationKind.gvr key = some object →
        ∃ v : ResourceInfo, v.Shows applicationKind.gvr object ∧
          (Note.handed v.key notes).getLast? = some v) := by
  have h := (orderly_fresh applicationKind namespacesKey namespaces capacity window now).run hrun
    hforeign horder
  refine ⟨fun k => ?_, fun hsettled hok hitems hphase key object ho => ?_⟩
  · exact (h.ordered.inOrder k).sublist (List.sublist_append_left _ _)
  · obtain ⟨v, hshows, hlast⟩ := (h.answered hok).of_settled hsettled ho
    rw [h.staffed.ahead_eq_nil hsettled hitems hphase, List.append_nil] at hlast
    exact ⟨v, hshows, hlast⟩

/-- The application of the sample run, after an update. -/
def sampleShopUpdated : ClusterObject where
  metadata := {
    name := some "shop"
    «namespace» := some "default"
    labels := some (.ofList [("tier", "gold")]) }
  data := sampleShop.data

/-- The engine with a queue for one batch, and a window to gather batches in. -/
def narrowStart : System := fresh sampleApplications "namespaces" [] 1 10 0

/-- The application is cached and handed out.  Then a deployment comes, and its batch, which has the
application as it was, fills the queue; the update of the application has to wait for room. -/
def updateRun : List Action :=
  let applications := sampleApplications.gvr
  let deployments := sampleDeployments.gvr
  [.call 0 (.addToWatch sampleApplications), .checked (.caller 0) (.ok ()),
    .feed applications "" [.event (.apply sampleShop)], .read applications "", .take applications,
    .discovered (.worker applications) (.ok (some sampleDeployments)),
    .checked (.worker applications) (.ok ()),
    .process 0, .tick 10, .process 0, .process 0, .process 0,
    .feed deployments "default" [.event (.apply sampleWeb)], .read deployments "default",
    .take deployments,
    .feed applications "" [.event (.apply sampleShopUpdated)], .read applications "",
    .take applications, .discovered (.worker applications) (.ok (some sampleDeployments)),
    .process 0, .enterQueue (.worker applications), .process 0, .tick 10, .process 0, .process 0,
    .process 0, .process 0]

/-- The key of the application in the sample run. -/
def sampleShopKey : ResourceKey := ⟨sampleApplications.gvr, "default", "shop"⟩

/-- What the run with an update leads to: no failure, nothing left to do, the update cached, and the
application handed out more than once. -/
def isUpdateEnd (s : System) (notes : List Note) : Bool :=
  notes.all (fun n => !n.isFailure) &&
    s.registry.watchers.entries.all (fun e => e.2.worker = .idle) &&
    s.queue.items.isEmpty && decide (s.pipeline.phase = .idle) &&
    decide (s.registry.cached sampleApplications.gvr "default/shop" = some sampleShopUpdated) &&
    decide (1 < (Note.handed sampleShopKey notes).length)

/-- In the run with an update the application is handed out twice, and the update last. -/
theorem snapshots_in_order_update :
    ∃ s notes, narrowStart.run updateRun = some (s, notes) ∧
      1 < (Note.handed sampleShopKey notes).length ∧
      InOrder sampleApplications.gvr (narrowStart.changeLog sampleApplications.gvr updateRun)
        sampleShopKey (Note.handed sampleShopKey notes) ∧
      ∃ v : ResourceInfo, v.Shows sampleApplications.gvr sampleShopUpdated ∧
        (Note.handed v.key notes).getLast? = some v := by
  have hend : (narrowStart.run updateRun).any (fun r => isUpdateEnd r.1 r.2) = true := by decide
  obtain ⟨⟨s, notes⟩, hrun, hend⟩ := (Option.any_eq_true _ _).mp hend
  simp only [isUpdateEnd, Bool.and_eq_true, List.all_eq_true, Bool.not_eq_true',
    decide_eq_true_eq, List.isEmpty_iff] at hend
  obtain ⟨⟨⟨⟨⟨hok, hidle⟩, hitems⟩, hphase⟩, hcached⟩, htwice⟩ := hend
  have hsettled : s.Settled := fun gvr w hw => hidle (gvr, w) (SortedMap.get?_eq_some_iff.mp hw)
  obtain ⟨horder, hlast⟩ := snapshots_in_order sampleApplications "namespaces" [] 1 10 0 hrun
    (by decide) (by decide)
  exact ⟨s, notes, hrun, htwice, horder sampleShopKey,
    hlast hsettled hok hitems hphase _ _ hcached⟩

end System

end AppWatch
