/-
# A batch reports what has changed

A batch is built by the handler of a kind for one change, over the applications that are cached when
it is sent.  What the batch has of the change depends on the handler alone (`Batch.Reports`): that of
the application kind puts in the application and no resource, that of any other kind the resource,
unless it is gone, and no other.

A party sends at most one batch in one go, and it is the one at the end of its plan or that of the
change it handles at once (`Outcome.Ships`, with one lemma for each function that makes an outcome).
-/
import AppWatch.Proofs.Contents

namespace AppWatch

/-! ## 1. The batch of a change -/

/-- A conversion makes no deletion of another change. -/
theorem Change.isDeletion_mapM? {α β ε : Type} {f : α → Except ε β} {c : Change α}
    {c' : Change β} (h : c.mapM? f = .ok c') : c'.isDeletion = c.isDeletion := by
  cases c with
  | added new =>
    obtain ⟨y, -, h⟩ := exists_of_bind_eq_ok h
    cases h
    rfl
  | updated old new =>
    obtain ⟨y, -, h⟩ := exists_of_bind_eq_ok h
    obtain ⟨z, -, h⟩ := exists_of_bind_eq_ok h
    cases h
    rfl
  | deleted old =>
    obtain ⟨y, -, h⟩ := exists_of_bind_eq_ok h
    cases h
    rfl

namespace Batch

/-- What a batch has of a change to an object of a kind.  If the object is an application, the batch
has it as it is after the change, and no resource; otherwise the batch has no resource but the
object as it is after the change, and not even that if the change is a deletion. -/
structure Reports (app gvr : GroupVersionResource) (change : Change ClusterObject) (b : Batch) :
    Prop where
  application : gvr = app → b.resources = .empty ∧
    ∃ x, x.Shows gvr change.latest ∧ b.applications.get? x.key = some x
  deleted : gvr ≠ app → change.isDeletion = true → b.resources = .empty
  changed : gvr ≠ app → change.isDeletion = false →
    ∃ x, x.Shows gvr change.latest ∧ b.resources = SortedMap.empty.insert x.key x

/-- Everything in a batch is where it belongs, and if a worker has made it, the batch reports the
change that the worker of the kind has its turn with. -/
structure IsDue (app : GroupVersionResource) (party : Party)
    (change? : GroupVersionResource → Option ResourceEvent) (b : Batch) : Prop
    extends b.IsDivided app where
  reports : ∀ gvr, party = .worker gvr →
    ∃ e, change? gvr = some e ∧ b.Reports app gvr e.change

variable {r : Resolver} {kind : KindDescriptor} {change : Change ClusterObject}
  {parsed : Change ResourceInfo}

theorem reports_ofApplicationChange (hr : r.Proper) (hkind : kind.gvr = r.applicationKind)
    (hparsed : change.mapM? (ResourceInfo.ofObject kind) = .ok parsed) :
    (ofApplicationChange r parsed).Reports r.applicationKind r.applicationKind change := by
  have hlatest := Change.latest_mapM? hparsed
  have hgvr : parsed.latest.gvr = r.applicationKind :=
    (ResourceInfo.gvr_ofObject hlatest).trans hkind
  exact {
    application := fun _ => ⟨resources_ofApplicationChange r parsed, parsed.latest,
      ⟨kind, hkind, hlatest⟩, get?_ofApplicationChange hr hgvr⟩
    deleted := fun hne => absurd rfl hne
    changed := fun hne => absurd rfl hne }

theorem reports_ofResourceChange (hkind : kind.gvr ≠ r.applicationKind)
    (hparsed : change.mapM? (ResourceInfo.ofObject kind) = .ok parsed) :
    (ofResourceChange r parsed).Reports r.applicationKind kind.gvr change := by
  have hresources := resources_ofResourceChange r parsed
  rw [Change.isDeletion_mapM? hparsed] at hresources
  exact {
    application := fun he => absurd he hkind
    deleted := fun _ hdeleted => by rw [hresources, if_pos hdeleted]
    changed := fun _ hkept => by
      refine ⟨parsed.latest, ⟨kind, rfl, Change.latest_mapM? hparsed⟩, ?_⟩
      rw [hresources, hkept]
      rfl }

end Batch

/-! ## 2. What a party sends -/

namespace BoundedQueue

variable {ι α : Type} {q q' : BoundedQueue ι α} {sender : ι} {a b : α}

/-- An item that joins is the only one that comes to the line. -/
theorem Joins.mem_line (h : q.Joins sender a q') (hb : b ∈ q'.line) : b ∈ q.line ∨ b = a := by
  rcases h with h | h
  · obtain ⟨-, -, rfl⟩ := offer_eq_accepted h
    simp only [BoundedQueue.line, List.mem_append, List.mem_singleton] at hb ⊢
    tauto
  · obtain ⟨-, -, rfl⟩ := offer_eq_waits h
    simp only [BoundedQueue.line, List.map_append, List.map_cons, List.map_nil, List.mem_append,
      List.mem_singleton] at hb ⊢
    tauto

/-- A sender that brings its item in brings nothing new to the line. -/
theorem mem_line_of_enter? [DecidableEq ι] (h : q.enter? sender = some q') (hb : b ∈ q'.line) :
    b ∈ q.line := by
  obtain ⟨before, a, after, hsenders, -, hsenders', hitems, -, -⟩ := senders_enter? h
  rw [line, hitems, hsenders'] at hb
  rw [line, hsenders]
  simp only [List.map_append, List.map_cons, List.mem_append, List.mem_cons, List.not_mem_nil,
    or_false] at hb ⊢
  tauto

end BoundedQueue

/-- Whether a note shows a batch or a callback. -/
def Note.isShipment : Note → Bool
  | .sent _ _ | .received _ | .callback _ => true
  | _ => false

/-- What a note shows of batches and callbacks is as it should be. -/
def Note.IsRight (app : GroupVersionResource)
    (change? : GroupVersionResource → Option ResourceEvent) : Note → Prop
  | .sent party b => b.WellFormed app ∧ ∀ gvr, party = .worker gvr →
      ∃ e, change? gvr = some e ∧ b.Reports app gvr e.change
  | .received b => b.WellFormed app
  | .callback c => c.call.IsProper app
  | _ => True

theorem Note.isRight_of_not_isShipment {app : GroupVersionResource}
    {change? : GroupVersionResource → Option ResourceEvent} {n : Note}
    (h : n.isShipment = false) : n.IsRight app change? := by
  cases n with
  | sent | received | callback => cases h
  | _ => trivial

theorem Note.isRight_of_isNotice {app : GroupVersionResource}
    {change? : GroupVersionResource → Option ResourceEvent} {n : Note}
    (h : n.isNotice = true) : n.IsRight app change? :=
  isRight_of_not_isShipment (by cases n <;> first | rfl | cases h)

namespace Outcome

/-- The batches that a party has sent in one go have entries and were made over the applications
that are cached now, and only they have come to the line. -/
structure Ships (s : System) (party : Party) (made : Resolver → Batch → Prop) (o : Outcome) :
    Prop where
  sent : ∀ n ∈ o.notes, n.isShipment = true → ∃ b, n = .sent party b ∧ b.isEmpty = false ∧
    made (o.system.registry.resolver o.system.registry.snapshot.1) b
  line : ∀ b ∈ o.system.queue.line, b ∈ s.queue.line ∨ Note.sent party b ∈ o.notes
  phase : o.system.pipeline.phase = s.pipeline.phase

/-- A batch is that of the change to an application at the end of a plan. -/
def IsPlanned (final? : Option (KindDescriptor × Change ClusterObject)) (r : Resolver)
    (b : Batch) : Prop :=
  ∃ kind change parsed, final? = some (kind, change) ∧
    change.mapM? (ResourceInfo.ofObject kind) = .ok parsed ∧ b = .ofApplicationChange r parsed

variable {s : System} {party : Party} {made made' : Resolver → Batch → Prop} {o : Outcome}

theorem Ships.mono (h : Ships s party made o)
    (hmade : ∀ b, b.isEmpty = false →
      made (o.system.registry.resolver o.system.registry.snapshot.1) b →
      made' (o.system.registry.resolver o.system.registry.snapshot.1) b) :
    Ships s party made' o := by
  refine ⟨fun n hn hshipment => ?_, h.line, h.phase⟩
  obtain ⟨b, rfl, hb, hbuilt⟩ := h.sent n hn hshipment
  exact ⟨b, rfl, hb, hmade b hb hbuilt⟩

theorem Ships.after (h : Ships s party made o) {notes : List Note}
    (hnotes : ∀ n ∈ notes, n.isShipment = false) : Ships s party made (o.after notes) := by
  refine ⟨fun n hn hshipment => ?_, fun b hb => ?_, h.phase⟩
  · rcases List.mem_append.mp hn with hn | hn
    · rw [hnotes n hn] at hshipment
      exact absurd hshipment (by simp)
    · exact h.sent n hn hshipment
  · exact (h.line b hb).imp_right fun hsent => List.mem_append_right _ hsent

/-- The registry has nothing to do with what is sent. -/
theorem Ships.of_registry {r : Registry} (h : Ships { s with registry := r } party made o) :
    Ships s party made o := ⟨h.sent, h.line, h.phase⟩

/-- A party that leaves the queue alone has sent nothing. -/
theorem ships_nothing (made : Resolver → Batch → Prop)
    (hnotes : ∀ n ∈ o.notes, n.isShipment = false) (hline : o.system.queue.line ⊆ s.queue.line)
    (hphase : o.system.pipeline.phase = s.pipeline.phase) : Ships s party made o := by
  refine ⟨fun n hn hshipment => ?_, fun b hb => .inl (hline hb), hphase⟩
  rw [hnotes n hn] at hshipment
  exact absurd hshipment (by simp)

end Outcome

namespace System

open Outcome

theorem isShipment_notices (notices : List Notice) :
    ∀ n ∈ notices.map Note.notice, n.isShipment = false := by
  intro n hn
  obtain ⟨notice, -, rfl⟩ := List.mem_map.mp hn
  rfl

theorem isShipment_requests (calls : List ClientCall) :
    ∀ n ∈ calls.map Note.request, n.isShipment = false := by
  intro n hn
  obtain ⟨call, -, rfl⟩ := List.mem_map.mp hn
  rfl

variable (s : System) (party : Party)

theorem send_ships (b : Batch) : Ships s party (fun _ c => c = b) (s.send party b) := by
  -- an accepted batch and one that has to wait differ in the progress only
  have hjoined : ∀ (q : BoundedQueue Party Batch) (progress : Progress), b.isEmpty = false →
      s.queue.Joins party b q →
      Ships s party (fun _ c => c = b) ⟨s.setQueue q, [.sent party b], progress⟩ := by
    intro q progress hb hjoins
    refine ⟨fun n hn _ => ⟨b, List.mem_singleton.mp hn, hb, rfl⟩, fun c hc => ?_, rfl⟩
    refine (hjoins.mem_line hc).imp_right fun hcb => ?_
    rw [hcb]
    exact List.mem_singleton_self _
  unfold send
  split
  · exact ships_nothing _ (by simp) (List.Subset.refl _) rfl
  · next hb =>
    have hb : b.isEmpty = false := by simpa using hb
    cases ho : s.queue.offer party b with
    | refused => exact ships_nothing _ (by simp) (List.Subset.refl _) rfl
    | accepted q => exact hjoined q _ hb (.accepted ho)
    | waits q => exact hjoined q _ hb (.waits ho)

theorem sendChange_ships (kind : KindDescriptor) (change : Change ClusterObject)
    (build : Resolver → Change ResourceInfo → Batch) :
    Ships s party (fun r b => ∃ parsed, change.mapM? (ResourceInfo.ofObject kind) = .ok parsed ∧
      b = build r parsed) (s.sendChange party kind change build) := by
  unfold sendChange
  cases hparsed : change.mapM? (ResourceInfo.ofObject kind) with
  | error f => exact ships_nothing _ (by simp) (List.Subset.refl _) rfl
  | ok parsed =>
    have hsend := s.send_ships party (build (s.registry.resolver s.registry.snapshot.1) parsed)
    refine (hsend.mono fun b _ hb => ⟨parsed, rfl, ?_⟩).after (isShipment_notices _)
    rw [s.registry_send]
    exact hb

theorem pursue_ships (plan : Plan) :
    Ships s party (IsPlanned plan.final?) (s.pursue party plan) := by
  fun_induction pursue s party plan with
  | case1 => exact ships_nothing _ (by simp) (List.Subset.refl _) rfl
  | case2 a next ih => exact ih
  | case3 a c rest next =>
    exact ships_nothing _ (by simp [Note.isShipment]) (List.Subset.refl _) rfl
  | case4 kind change =>
    refine (s.sendChange_ships party kind change _).mono ?_
    rintro b - ⟨parsed, hparsed, hb⟩
    exact ⟨kind, change, parsed, rfl, hparsed, hb⟩

theorem watchScopes_ships (kind : KindDescriptor) (scopes : List String) (next : Plan) :
    Ships s party (IsPlanned next.final?) (s.watchScopes party kind scopes next) :=
  (pursue_ships { s with registry := (s.registry.openWatches kind scopes).1 } party
    next).of_registry.after (isShipment_requests _)

theorem checkScopes_ships (kind : KindDescriptor) (scopes rest : List String) (next : Plan) :
    Ships s party (IsPlanned next.final?) (s.checkScopes party kind scopes rest next) := by
  cases rest with
  | nil => exact s.watchScopes_ships party kind scopes next
  | cons scope rest =>
    exact ships_nothing _ (by simp [checkScopes, Note.isShipment]) (List.Subset.refl _) rfl

theorem addToWatch_ships (kind : KindDescriptor) (next : Plan) :
    Ships s party (IsPlanned next.final?) (s.addToWatch party kind next) :=
  s.checkScopes_ships party kind _ _ next

theorem onDiscovery_ships (a : Application) (component : GroupKind) (rest : List GroupKind)
    (next : Plan) (reply : Except Failure (Option KindDescriptor)) :
    Ships s party (IsPlanned next.final?) (s.onDiscovery party a component rest next reply) := by
  cases reply with
  | error f => exact ships_nothing _ (by simp [onDiscovery]) (List.Subset.refl _) rfl
  | ok kind? =>
    cases kind? with
    | none =>
      exact (s.pursue_ships party (.components a rest next)).after (by simp [Note.isShipment])
    | some kind =>
      exact (addToWatch_ships { s with registry := s.registry.permitFor a kind } party kind
        (.components a rest next)).of_registry

theorem onAccess_ships (kind : KindDescriptor) (scopes : List String) (scope : String)
    (rest : List String) (next : Plan) (reply : Except Failure Unit) :
    Ships s party (IsPlanned next.final?)
      (s.onAccess party kind scopes scope rest next reply) := by
  cases reply with
  | error f => exact ships_nothing _ (by simp [onAccess]) (List.Subset.refl _) rfl
  | ok u => exact s.checkScopes_ships party kind scopes rest next

theorem handleApplication_ships (kind : KindDescriptor) (cache : WatchCache) (e : ResourceEvent) :
    Ships s party (IsPlanned (some (kind, cache.latestChange e)))
      (s.handleApplication party kind cache e) := by
  unfold handleApplication
  simp only
  split
  · exact s.pursue_ships party (.sendBatch kind (cache.latestChange e))
  · split
    · exact ships_nothing _ (by simp) (List.Subset.refl _) rfl
    · exact s.pursue_ships party (.components _ _ (.sendBatch kind (cache.latestChange e)))

end System

end AppWatch
