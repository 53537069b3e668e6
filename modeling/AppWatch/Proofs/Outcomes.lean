/-
# What a party does in one go

Between two points at which it may have to wait, a party does three things that the rest of the
engine can notice: it lets the registry grow, it may join the queue of those who wait for room,
and it may send a batch.  `Outcome.Advances` says what is known of all three, and there is one
lemma for each function that makes an outcome.

A party that has a batch to send carries it in its plan (`Plan.final?`) from one wait to the next.
What it owes is therefore never lost: when the plan comes to its end the batch has been built over
the applications cached then and sent, unless the party has failed on the way (`Delivers`).
-/
import AppWatch.Proofs.Batches
import AppWatch.Proofs.Growth

namespace AppWatch

/-! ## 1. The batch at the end of a plan -/

/-- The change that a plan ends in sending, with its kind. -/
def Plan.final? : Plan → Option (KindDescriptor × Change ClusterObject)
  | .done => none
  | .components _ _ next => next.final?
  | .sendBatch kind change => some (kind, change)

/-- The change that is still to be sent after a wait. -/
def Awaiting.final? : Awaiting → Option (KindDescriptor × Change ClusterObject)
  | .discovery _ _ _ next => next.final?
  | .access _ _ _ _ next => next.final?
  | .room => none

namespace Outcome

/-- The batch of a change has been built over the applications that are cached now, and sent; an
empty batch counts as sent. -/
def Sends (o : Outcome) (party : Party) (kind : KindDescriptor) (change : Change ClusterObject) :
    Prop :=
  ∃ parsed b, change.mapM? (ResourceInfo.ofObject kind) = .ok parsed ∧
    b.IsOf (o.system.registry.resolver o.system.registry.snapshot.1) parsed ∧
    (b.isEmpty = true ∨ Note.sent party b ∈ o.notes)

/-- What has become of a change that a party is to send. -/
inductive Delivers (o : Outcome) (party : Party) (kind : KindDescriptor)
    (change : Change ClusterObject) : Prop where
  /-- The party has failed. -/
  | failed {f : Failure} (h : o.progress = .finished (.error f))
  /-- The change is still at the end of the plan. -/
  | postponed {a : Awaiting} (h : o.progress = .waits a) (hfinal : a.final? = some (kind, change))
  /-- The batch of the change is sent. -/
  | sent (h : o.Sends party kind change)

/-- An outcome that a party may reach from a state with a change to send: the registry has grown,
the party stands in the queue for room exactly if that is what it waits for, and the change has
become a batch, a part of the plan or a failure. -/
structure Advances (s : System) (party : Party)
    (final? : Option (KindDescriptor × Change ClusterObject)) (o : Outcome) : Prop where
  registry : s.registry.Extends o.system.registry
  closed : o.system.queue.closed = s.queue.closed
  pending : o.system.queue.pending = s.queue.pending ∧ o.progress ≠ .waits .room ∨
    o.system.queue.pending = s.queue.pending ++ [party] ∧ o.progress = .waits .room ∧
      s.queue.closed = false
  delivers : ∀ {kind change}, final? = some (kind, change) → o.Delivers party kind change

variable {s : System} {party : Party} {final? : Option (KindDescriptor × Change ClusterObject)}
  {o : Outcome}

/-- Notes of what was done before do not change what becomes of a change. -/
theorem Delivers.after {kind : KindDescriptor} {change : Change ClusterObject}
    (h : o.Delivers party kind change) (notes : List Note) :
    (o.after notes).Delivers party kind change := by
  cases h with
  | failed h => exact .failed h
  | postponed h hfinal => exact .postponed h hfinal
  | sent h =>
    obtain ⟨parsed, b, hparsed, hb, hsent⟩ := h
    exact .sent ⟨parsed, b, hparsed, hb, hsent.imp_right (List.mem_append_right _)⟩

theorem Advances.after (h : Advances s party final? o) (notes : List Note) :
    Advances s party final? (o.after notes) :=
  ⟨h.registry, h.closed, h.pending, fun hf => (h.delivers hf).after notes⟩

/-- What is reached after the registry has grown is reached from before. -/
theorem Advances.of_extends {r : Registry} (hr : s.registry.Extends r)
    (h : Advances { s with registry := r } party final? o) : Advances s party final? o :=
  ⟨hr.trans h.registry, h.closed, h.pending, h.delivers⟩

/-- A party that has nothing to send owes nothing. -/
theorem Advances.owing_nothing (h : Advances s party final? o) : Advances s party none o :=
  ⟨h.registry, h.closed, h.pending, fun hf => absurd hf (by simp)⟩

/-- To fail at once is possible at any time. -/
theorem advances_failure (s : System) (party : Party)
    (final? : Option (KindDescriptor × Change ClusterObject)) (f : Failure) :
    Advances s party final? ⟨s, [], .finished (.error f)⟩ :=
  ⟨.refl _, rfl, .inl ⟨rfl, by simp⟩, fun _ => .failed rfl⟩

/-- To wait for an answer of the cluster keeps the change at the end of the plan. -/
theorem advances_wait {s : System} {party : Party} {a : Awaiting} (ha : a ≠ .room)
    (notes : List Note) : Advances s party a.final? ⟨s, notes, .waits a⟩ :=
  ⟨.refl _, rfl, .inl ⟨rfl, by simpa using ha⟩, fun hf => .postponed rfl hf⟩

end Outcome

namespace System

open Outcome

variable (s : System) (party : Party)

/-! ## 2. Sending -/

theorem send_advances (b : Batch) : Advances s party none (s.send party b) := by
  unfold send
  split
  · exact ⟨.refl _, rfl, .inl ⟨rfl, by simp⟩, fun hf => absurd hf (by simp)⟩
  · rcases s.queue.offer_cases party b with ⟨ho, -⟩ | ⟨-, -, ho⟩ | ⟨hopen, -, ho⟩
    · rw [ho]
      exact advances_failure s party none .queueClosed
    · rw [ho]
      exact ⟨.refl _, rfl, .inl ⟨rfl, by simp⟩, fun hf => absurd hf (by simp)⟩
    · rw [ho]
      refine ⟨.refl _, rfl, .inr ⟨?_, rfl, hopen⟩, fun hf => absurd hf (by simp)⟩
      simp [queue, setQueue, BoundedQueue.pending]

/-- A batch is sent, or empty, or the queue is closed. -/
theorem send_cases (b : Batch) :
    (∃ f, (s.send party b).progress = .finished (.error f)) ∨
      b.isEmpty = true ∨ Note.sent party b ∈ (s.send party b).notes := by
  unfold send
  split
  · next he => exact .inr (.inl he)
  · cases s.queue.offer party b with
    | accepted q => exact .inr (.inr (List.mem_singleton_self _))
    | waits q => exact .inr (.inr (List.mem_singleton_self _))
    | refused => exact .inl ⟨_, rfl⟩

/-- To send a batch changes nothing in the registry. -/
theorem registry_send (b : Batch) : (s.send party b).system.registry = s.registry := by
  unfold send
  split
  · rfl
  · cases s.queue.offer party b <;> rfl

theorem sendChange_advances {kind : KindDescriptor} {change : Change ClusterObject}
    {build : Resolver → Change ResourceInfo → Batch}
    (hbuild : ∀ r c, (build r c).IsOf r c) :
    Advances s party (some (kind, change)) (s.sendChange party kind change build) := by
  unfold sendChange
  cases hparsed : change.mapM? (ResourceInfo.ofObject kind) with
  | error f => exact advances_failure s party _ f
  | ok c =>
    have hsend := s.send_advances party (build (s.registry.resolver s.registry.snapshot.1) c)
    refine Advances.after ⟨hsend.registry, hsend.closed, hsend.pending, ?_⟩ _
    intro kind' change' hf
    obtain ⟨rfl, rfl⟩ := Prod.mk.inj (Option.some.inj hf)
    rcases s.send_cases party (build (s.registry.resolver s.registry.snapshot.1) c) with
      ⟨f, hfail⟩ | hsent
    · exact .failed hfail
    · refine .sent ⟨c, _, hparsed, ?_, hsent⟩
      rw [registry_send]
      exact hbuild _ c

/-! ## 3. Plans and watches -/

theorem pursue_advances (plan : Plan) : Advances s party plan.final? (s.pursue party plan) := by
  fun_induction pursue s party plan with
  | case1 => exact ⟨.refl _, rfl, .inl ⟨rfl, by simp⟩, fun hf => absurd hf (by simp [Plan.final?])⟩
  | case2 a next ih => exact ih
  | case3 a c rest next => exact advances_wait (a := .discovery a c rest next) (by simp) _
  | case4 kind change => exact s.sendChange_advances party fun _ _ => .inr rfl

theorem watchScopes_advances (kind : KindDescriptor) (scopes : List String) (next : Plan) :
    Advances s party next.final? (s.watchScopes party kind scopes next) :=
  ((pursue_advances _ party next).of_extends
    (s.registry.extends_openWatches kind scopes)).after _

theorem checkScopes_advances (kind : KindDescriptor) (scopes rest : List String) (next : Plan) :
    Advances s party next.final? (s.checkScopes party kind scopes rest next) := by
  cases rest with
  | nil => exact s.watchScopes_advances party kind scopes next
  | cons scope rest => exact advances_wait (a := .access kind scopes scope rest next) (by simp) _

theorem addToWatch_advances (kind : KindDescriptor) (next : Plan) :
    Advances s party next.final? (s.addToWatch party kind next) :=
  s.checkScopes_advances party kind _ _ next

theorem onDiscovery_advances (a : Application) (component : GroupKind) (rest : List GroupKind)
    (next : Plan) (reply : Except Failure (Option KindDescriptor)) :
    Advances s party next.final? (s.onDiscovery party a component rest next reply) := by
  cases reply with
  | error f => exact advances_failure s party _ f
  | ok found =>
    cases found with
    | none => exact (s.pursue_advances party (.components a rest next)).after _
    | some kind =>
      exact (addToWatch_advances _ party kind (.components a rest next)).of_extends
        (s.registry.extends_permitFor a kind)

theorem onAccess_advances (kind : KindDescriptor) (scopes : List String) (scope : String)
    (rest : List String) (next : Plan) (reply : Except Failure Unit) :
    Advances s party next.final? (s.onAccess party kind scopes scope rest next reply) := by
  cases reply with
  | error f => exact advances_failure s party _ _
  | ok _ => exact s.checkScopes_advances party kind scopes rest next

/-! ## 4. Handlers and calls -/

theorem handleResource_advances (kind : KindDescriptor) (cache : WatchCache) (e : ResourceEvent) :
    Advances s party (some (kind, cache.latestChange e)) (s.handleResource party kind cache e) :=
  s.sendChange_advances party fun _ _ => .inl rfl

theorem handleApplication_advances (kind : KindDescriptor) (cache : WatchCache)
    (e : ResourceEvent) :
    Advances s party (some (kind, cache.latestChange e))
      (s.handleApplication party kind cache e) := by
  unfold handleApplication
  simp only
  split
  · exact s.pursue_advances party (.sendBatch kind (cache.latestChange e))
  · split
    · exact advances_failure s party _ _
    · next a _ =>
      exact s.pursue_advances party
        (.components a a.componentKinds (.sendBatch kind (cache.latestChange e)))

/-- **Whatever a worker does with a change, it owes the batch of the change.** -/
theorem handle_advances (w : Watcher) (e : ResourceEvent) :
    Advances s party (some (w.kind, w.cache.latestChange e)) (s.handle party w e) := by
  unfold handle
  split
  · exact s.handleApplication_advances party w.kind w.cache e
  · exact s.handleResource_advances party w.kind w.cache e

theorem begin_advances {id : Nat} {call : Call} {o : Outcome} (h : s.begin id call = some o) :
    Advances s (.caller id) none o := by
  cases call with
  | addToWatch kind =>
    cases h
    exact s.addToWatch_advances _ kind .done
  | watchComponents a =>
    cases h
    exact s.pursue_advances _ (.components a a.componentKinds .done)
  | handleApplication gvr e =>
    obtain ⟨w, -, rfl⟩ := Option.map_eq_some_iff.mp h
    exact (s.handleApplication_advances _ w.kind w.cache e).owing_nothing
  | handleResource gvr e =>
    obtain ⟨w, -, rfl⟩ := Option.map_eq_some_iff.mp h
    exact (s.handleResource_advances _ w.kind w.cache e).owing_nothing
  | send b =>
    cases h
    exact s.send_advances _ b

end System

end AppWatch
