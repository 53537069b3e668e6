/-
# What is on its way to a callback

Between the party that builds a batch and the callback that is made for it a snapshot passes three
places: the senders that wait for room, the queue, and the window of the processor.  Taken together
they are one list for each application (`Pipeline.ahead`), oldest first.

* **The processor only takes from the front.**  A step moves the list on and hands out what has left
  it; where a later batch of a window mentions the same application, the earlier snapshot is
  dropped.  The last snapshot is never dropped (`Pipeline.ahead_step`, `KeepsLast`).
* **A party only adds at the end**, at most one batch in one go, and that batch is the one of the
  change it has to send.  `Outcome.Posts` says which batch it is, and what has become of the change
  if there is none; there is one lemma for each function that makes an outcome.

That a batch is added at the end holds if nobody is let in before those that have waited longer.
`BoundedQueue.offer` does not promise it: room that nobody was granted is given to whoever asks.
-/
import AppWatch.Proofs.Conservation

namespace AppWatch

/-! ## 1. Lists that keep their last element -/

/-- Elements may have been dropped from a list, but not the last one. -/
structure KeepsLast {α : Type} (l l' : List α) : Prop where
  sublist : l'.Sublist l
  last : l'.getLast? = l.getLast?

section KeepsLast

variable {α : Type} {l l' : List α}

theorem KeepsLast.refl (l : List α) : KeepsLast l l := ⟨.refl l, rfl⟩

theorem KeepsLast.of_eq (h : l' = l) : KeepsLast l l' := h ▸ .refl l

theorem KeepsLast.append (h : KeepsLast l l') (before after : List α) :
    KeepsLast (before ++ (l ++ after)) (before ++ (l' ++ after)) := by
  refine ⟨(h.sublist.append_right after).append_left before, ?_⟩
  simp only [List.getLast?_append, h.last]

end KeepsLast

/-! ## 2. Everything in a queue and before it -/

namespace BoundedQueue

variable {ι α : Type} {q q' : BoundedQueue ι α} {sender : ι} {a : α}

/-- The items in a queue, and then those of the senders that wait, longest first. -/
def line (q : BoundedQueue ι α) : List α := q.items ++ (q.granted ++ q.waiting).map (·.2)

/-- An item has been taken in or has to wait. -/
inductive Joins (q : BoundedQueue ι α) (sender : ι) (a : α) (q' : BoundedQueue ι α) : Prop where
  | accepted (h : q.offer sender a = .accepted q')
  | waits (h : q.offer sender a = .waits q')

theorem line_take? (h : q.take? = some (a, q')) : q.line = a :: q'.line := by
  rw [line, (take?_eq_some h).1, ← (senders_take? h).1]
  rfl

/-- The sender that has waited longest brings in its own item. -/
theorem line_enter? [DecidableEq ι] (h : q.enter? sender = some q')
    (hfirst : q.pending.head? = some sender) : q'.line = q.line := by
  obtain ⟨before, a, after, hsenders, hbefore, hsenders', hitems, -, -⟩ := senders_enter? h
  cases before with
  | nil =>
    rw [line, line, hitems, hsenders, hsenders', List.append_assoc]
    rfl
  | cons g before =>
    rw [pending, hsenders] at hfirst
    exact absurd (Option.some.inj hfirst) (hbefore g List.mem_cons_self)

/-- Where nobody waits, and where one has to wait oneself, an item joins at the end. -/
theorem Joins.line (h : q.Joins sender a q')
    (hturn : q.pending = [] ∨ q'.items.length ≤ q.items.length) : q'.line = q.line ++ [a] := by
  rcases h with h | h
  · obtain ⟨-, -, rfl⟩ := offer_eq_accepted h
    have hnone : q.granted ++ q.waiting = [] := by
      refine List.map_eq_nil_iff.mp (hturn.resolve_right fun hle => ?_)
      rw [List.length_append, List.length_singleton] at hle
      omega
    simp only [BoundedQueue.line, hnone, List.map_nil, List.append_nil]
  · obtain ⟨-, -, rfl⟩ := offer_eq_waits h
    simp only [BoundedQueue.line, ← List.append_assoc, List.map_append, List.map_cons,
      List.map_nil]

theorem Joins.pending (h : q.Joins sender a q') : q'.pending ⊆ sender :: q.pending := by
  rcases h with h | h
  · obtain ⟨-, -, rfl⟩ := offer_eq_accepted h
    exact List.subset_cons_self _ _
  · obtain ⟨-, -, rfl⟩ := offer_eq_waits h
    intro p hp
    simp only [BoundedQueue.pending, ← List.append_assoc, List.map_append, List.mem_append,
      List.map_cons, List.map_nil, List.mem_singleton] at hp ⊢
    rcases hp with hp | rfl
    · exact List.mem_cons_of_mem _ (List.mem_append.mpr hp)
    · exact List.mem_cons_self

/-- Senders that all pass the test stay. -/
theorem line_keepSenders {keep : ι → Bool} (h : ∀ p ∈ q.pending, keep p = true) :
    (q.keepSenders keep).line = q.line := by
  rw [line, items_keepSenders, senders_keepSenders,
    List.filter_eq_self.mpr fun g hg => h g.1 (List.mem_map.mpr ⟨g, hg, rfl⟩), line]

/-- Whoever is sent away takes nothing of the others with it. -/
theorem line_keepSenders_sublist (q : BoundedQueue ι α) (keep : ι → Bool) :
    (q.keepSenders keep).line.Sublist q.line := by
  rw [line, items_keepSenders, senders_keepSenders]
  exact (List.filter_sublist.map _).append_left _

end BoundedQueue

/-! ## 3. The snapshots of one application -/

theorem Entries.filterMap_key {κ α : Type} [Ord κ] [Std.TransOrd κ] [Std.LawfulEqOrd κ]
    [DecidableEq κ] (k : κ) {l : List (κ × α)} (hl : Ascending l) :
    l.filterMap (fun e => if e.1 = k then some e.2 else none) = (lookup k l).toList := by
  induction l with
  | nil => rfl
  | cons entry l ih =>
    obtain ⟨hbelow, hrest⟩ := List.pairwise_cons.mp hl
    rw [List.filterMap_cons, lookup]
    by_cases hk : entry.1 = k
    · have hnone : l.filterMap (fun e => if e.1 = k then some e.2 else none) = [] := by
        refine List.filterMap_eq_nil_iff.mpr fun e he => if_neg fun hek => ?_
        have hlt := hbelow e he
        rw [hk, hek] at hlt
        simp at hlt
      rw [if_pos hk, if_pos (by rw [hk]; exact Std.ReflCmp.compare_self)]
      simp only [hnone, Option.toList]
    · have hne : compare k entry.1 ≠ .eq := fun he => hk (Std.LawfulEqCmp.eq_of_compare he).symm
      rw [if_neg hk, if_neg hne]
      exact ih hrest

/-- The snapshot of an application that a batch has, if it has one. -/
def Batch.mentions (k : ResourceKey) (b : Batch) : List ResourceInfo :=
  (b.applications.get? k).toList

/-- The snapshot that is handed out for an application in a call. -/
def StatusCall.handed? (k : ResourceKey) : StatusCall → Option ResourceInfo
  | .calculateStatus key application => if key = k then some application else none
  | .componentChanged _ _ => none

/-- The snapshots of an application that the window has still to hand out. -/
def Phase.ahead (k : ResourceKey) : Phase → List ResourceInfo
  | .collecting pending _ => pending.mentions k
  | .calling calls _ | .awaiting _ calls _ => calls.filterMap (StatusCall.handed? k)
  | .idle | .stopped => []

theorem Batch.filterMap_calls (b : Batch) (k : ResourceKey) :
    b.calls.filterMap (StatusCall.handed? k) = b.mentions k := by
  have hresources : (b.resources.entries.map fun e =>
      StatusCall.componentChanged e.1 e.2).filterMap (StatusCall.handed? k) = [] := by
    refine List.filterMap_eq_nil_iff.mpr fun c hc => ?_
    obtain ⟨e, -, rfl⟩ := List.mem_map.mp hc
    rfl
  rw [calls, List.filterMap_append, hresources, List.nil_append, List.filterMap_map]
  exact Entries.filterMap_key k b.applications.ascending

theorem Batch.mentions_of_isEmpty {b : Batch} (h : b.isEmpty = true) (k : ResourceKey) :
    b.mentions k = [] := by
  cases hk : b.applications.get? k with
  | none => rw [mentions, hk, Option.toList_none]
  | some v =>
    have hne := Batch.isEmpty_eq_false (Resolver.contains_of_get? hk)
    exact absurd (h.symm.trans hne) (by simp)

/-- Of two snapshots that are merged the later one stays. -/
theorem Batch.keepsLast_merge (b c : Batch) (k : ResourceKey) :
    KeepsLast (b.mentions k ++ c.mentions k) ((b.merge c).mentions k) := by
  unfold mentions merge
  rw [SortedMap.get?_merge]
  cases hc : c.applications.get? k with
  | none => exact .of_eq (by simp)
  | some v => exact ⟨by simp, by simp⟩

namespace Pipeline

variable {ι : Type} {p p' : Pipeline ι}

/-- The snapshots of an application on their way to a callback, the next one first. -/
def ahead (p : Pipeline ι) (k : ResourceKey) : List ResourceInfo :=
  p.phase.ahead k ++ p.queue.line.flatMap (Batch.mentions k)

/-- What the processor receives stood first in line. -/
theorem line_of_receive {b : Batch} {q : BoundedQueue ι Batch} (h : p.receive = .batch b q) :
    p.queue.line = b :: q.line :=
  BoundedQueue.line_take? (take?_of_receive_batch h)

/-- **The processor hands out what stands first**, and drops a snapshot only for a later one. -/
theorem ahead_step {duration : StatusCall → Nat} {call : Option TimedCall}
    (h : p.step duration = some (p', call)) (k : ResourceKey) :
    KeepsLast (p.ahead k)
      (call.toList.filterMap (fun c => c.call.handed? k) ++ p'.ahead k) := by
  unfold step at h
  split at h
  · next hp =>
    split at h
    · next b q hr =>
      cases h
      refine .of_eq ?_
      simp only [ahead, hp, Phase.ahead, line_of_receive hr]
      rfl
    · cases h
      refine .of_eq ?_
      simp only [ahead, hp, Phase.ahead]
      rfl
    · cases h
  · next pending deadline hp =>
    have hcalls := pending.filterMap_calls k
    split at h
    · next b q hr =>
      cases h
      have hmerge := (pending.keepsLast_merge b k).append [] (q.line.flatMap (Batch.mentions k))
      simp only [ahead, hp, Phase.ahead, line_of_receive hr, List.flatMap_cons]
      rw [List.append_assoc] at hmerge
      exact hmerge
    · cases h
      refine .of_eq ?_
      simp only [ahead, hp, Phase.ahead, hcalls]
      rfl
    · split at h
      · cases h
        refine .of_eq ?_
        simp only [ahead, hp, Phase.ahead, hcalls]
        rfl
      · cases h
  · next final hp =>
    cases h
    refine .of_eq ?_
    cases final <;> simp [ahead, hp, Phase.ahead]
  · next c cs final hp =>
    cases h
    refine .of_eq ?_
    have hphase : (if duration c = 0 then Phase.calling cs final
        else .awaiting (p.now + duration c) cs final).ahead k =
          cs.filterMap (StatusCall.handed? k) := by
      split <;> rfl
    simp only [ahead, hp, hphase]
    simp only [Phase.ahead, Option.toList_some, List.filterMap_cons, List.filterMap_nil]
    cases c.handed? k with
    | none => rfl
    | some v => rfl
  · next returns cs final hp =>
    split at h
    · cases h
      refine .of_eq ?_
      simp only [ahead, hp, Phase.ahead]
      rfl
    · cases h
  · cases h

end Pipeline

/-! ## 4. What a party adds -/

/-- Whether a note is of a callback. -/
def Note.isCallback : Note → Bool
  | .callback _ => true
  | _ => false

theorem Note.isCallback_of_isNotice {notes : List Note} (h : ∀ n ∈ notes, n.isNotice = true) :
    ∀ n ∈ notes, n.isCallback = false := by
  intro n hn
  cases n <;> first | rfl | cases h _ hn

namespace Outcome

/-- What a party has made of the change that it has to send, if it has one: a batch, or nothing
yet. -/
inductive Makes (o : Outcome) (final? : Option (KindDescriptor × Change ClusterObject)) :
    Batch → Prop where
  /-- The party has failed. -/
  | failed {f : Failure} (h : o.progress = .finished (.error f)) : Makes o final? .empty
  /-- The change is still at the end of the plan. -/
  | postponed {a : Awaiting} (h : o.progress = .waits a) (hfinal : a.final? = final?) :
      Makes o final? .empty
  /-- There was nothing to send. -/
  | nothing (h : o.progress = .finished (.ok ())) (hfinal : final? = none) : Makes o final? .empty
  /-- The batch of the change, built over the applications that are cached now. -/
  | batch {kind : KindDescriptor} {change : Change ClusterObject} {parsed : Change ResourceInfo}
      {b : Batch} (h : o.progress = .finished (.ok ()) ∨ o.progress = .waits .room)
      (hfinal : final? = some (kind, change))
      (hparsed : change.mapM? (ResourceInfo.ofObject kind) = .ok parsed)
      (hb : b.IsOf (o.system.registry.resolver o.system.registry.snapshot.1) parsed) :
      Makes o final? b

/-- The batch that a party has made has joined the queue, or was empty, and nothing else has
happened there. -/
structure Posts (s : System) (party : Party)
    (final? : Option (KindDescriptor × Change ClusterObject)) (o : Outcome) (b : Batch) : Prop where
  makes : o.Makes final? b
  pipeline : b.isEmpty = true ∧ o.system.pipeline = s.pipeline ∨
    b.isEmpty = false ∧ ∃ q, s.queue.Joins party b q ∧
      o.system.pipeline = { s.pipeline with queue := q }
  quiet : ∀ n ∈ o.notes, n.isCallback = false

variable {s : System} {party : Party} {final? : Option (KindDescriptor × Change ClusterObject)}
  {o : Outcome} {b : Batch}

theorem Makes.after (h : o.Makes final? b) (notes : List Note) :
    (o.after notes).Makes final? b := by
  cases h with
  | failed h => exact .failed h
  | postponed h hfinal => exact .postponed h hfinal
  | nothing h hfinal => exact .nothing h hfinal
  | batch h hfinal hparsed hb => exact .batch h hfinal hparsed hb

theorem Posts.after (h : Posts s party final? o b) {notes : List Note}
    (hnotes : ∀ n ∈ notes, n.isCallback = false) : Posts s party final? (o.after notes) b :=
  ⟨h.makes.after notes, h.pipeline, fun n hn => (List.mem_append.mp hn).elim (hnotes n) (h.quiet n)⟩

/-- The registry has nothing to do with the queue. -/
theorem Posts.of_registry {r : Registry} (h : Posts { s with registry := r } party final? o b) :
    Posts s party final? o b := ⟨h.makes, h.pipeline, h.quiet⟩

/-- To wait for an answer of the cluster keeps the change. -/
theorem posts_wait (s : System) (party : Party) (a : Awaiting) (c : ClientCall) :
    Posts s party a.final? ⟨s, [.request c], .waits a⟩ .empty :=
  ⟨.postponed rfl rfl, .inl ⟨rfl, rfl⟩, by simp [Note.isCallback]⟩

theorem posts_failure (s : System) (party : Party)
    (final? : Option (KindDescriptor × Change ClusterObject)) (f : Failure) :
    Posts s party final? ⟨s, [], .finished (.error f)⟩ .empty :=
  ⟨.failed rfl, .inl ⟨rfl, rfl⟩, by simp⟩

/-- If nothing was let in before its turn, the batch goes to the end of each line. -/
theorem Posts.ahead (h : Posts s party final? o b)
    (hturn : s.queue.pending = [] ∨ o.system.queue.items.length ≤ s.queue.items.length)
    (k : ResourceKey) : o.system.pipeline.ahead k = s.pipeline.ahead k ++ b.mentions k := by
  rcases h.pipeline with ⟨hempty, hp⟩ | ⟨-, q, hjoins, hp⟩
  · rw [hp, Batch.mentions_of_isEmpty hempty, List.append_nil]
  · have hq : o.system.queue = q := congrArg Pipeline.queue hp
    rw [hq] at hturn
    have hline : q.line = s.pipeline.queue.line ++ [b] := hjoins.line hturn
    rw [hp]
    simp only [Pipeline.ahead, hline, List.flatMap_append, List.flatMap_cons, List.flatMap_nil,
      List.append_nil, List.append_assoc]

theorem Posts.pending (h : Posts s party final? o b) :
    o.system.queue.pending ⊆ party :: s.queue.pending := by
  rcases h.pipeline with ⟨-, hp⟩ | ⟨-, q, hjoins, hp⟩
  · rw [show o.system.queue = s.queue from congrArg Pipeline.queue hp]
    exact List.subset_cons_self _ _
  · rw [show o.system.queue = q from congrArg Pipeline.queue hp]
    exact hjoins.pending

/-- A party that has nothing to send leaves the queue alone. -/
theorem Posts.pipeline_eq (h : Posts s party none o b) : o.system.pipeline = s.pipeline := by
  rcases h.pipeline with ⟨-, hp⟩ | ⟨hne, -⟩
  · exact hp
  · cases h.makes with
    | batch _ hfinal => exact absurd hfinal (by simp)
    | _ => exact absurd hne (by decide)

/-- What a party waits for after it has made a batch comes to the same end as before. -/
theorem Makes.final?_eq (h : o.Makes final? b) {a : Awaiting} (ha : o.progress = .waits a)
    {change : KindDescriptor × Change ClusterObject} (hfinal : a.final? = some change) :
    final? = some change := by
  cases h with
  | failed h => exact absurd (h.symm.trans ha) (by simp)
  | postponed h hf =>
    cases h.symm.trans ha
    exact hf.symm.trans hfinal
  | nothing h _ => exact absurd (h.symm.trans ha) (by simp)
  | batch h _ _ _ =>
    rcases h with h | h <;> cases h.symm.trans ha
    exact absurd hfinal (by simp [Awaiting.final?])

end Outcome

namespace System

open Outcome

variable (s : System) (party : Party)

theorem isCallback_notices (notices : List Notice) :
    ∀ n ∈ notices.map Note.notice, n.isCallback = false := by
  intro n hn
  obtain ⟨notice, -, rfl⟩ := List.mem_map.mp hn
  rfl

theorem isCallback_requests (calls : List ClientCall) :
    ∀ n ∈ calls.map Note.request, n.isCallback = false := by
  intro n hn
  obtain ⟨call, -, rfl⟩ := List.mem_map.mp hn
  rfl

/-- A batch that a party sends joins the queue, unless it is empty or the queue is closed. -/
theorem send_joins (b : Batch) :
    s.send party b = ⟨s, [], .finished (.error .queueClosed)⟩ ∨
      ((s.send party b).progress = .finished (.ok ()) ∨
          (s.send party b).progress = .waits .room) ∧
        (s.send party b).system.registry = s.registry ∧
        (b.isEmpty = true ∧ (s.send party b).system.pipeline = s.pipeline ∨
          b.isEmpty = false ∧ ∃ q, s.queue.Joins party b q ∧
            (s.send party b).system.pipeline = { s.pipeline with queue := q }) ∧
        ∀ n ∈ (s.send party b).notes, n.isCallback = false := by
  unfold send
  split
  · next hempty => exact .inr ⟨.inl rfl, rfl, .inl ⟨hempty, rfl⟩, by simp⟩
  · next hempty =>
    have hempty : b.isEmpty = false := by simpa using hempty
    cases ho : s.queue.offer party b with
    | refused => exact .inl rfl
    | accepted q =>
      exact .inr ⟨.inl rfl, rfl, .inr ⟨hempty, q, .accepted ho, rfl⟩, by simp [Note.isCallback]⟩
    | waits q =>
      exact .inr ⟨.inr rfl, rfl, .inr ⟨hempty, q, .waits ho, rfl⟩, by simp [Note.isCallback]⟩

theorem sendChange_posts {kind : KindDescriptor} {change : Change ClusterObject}
    {build : Resolver → Change ResourceInfo → Batch} (hbuild : ∀ r c, (build r c).IsOf r c) :
    ∃ b, Posts s party (some (kind, change)) (s.sendChange party kind change build) b := by
  unfold sendChange
  cases hparsed : change.mapM? (ResourceInfo.ofObject kind) with
  | error f => exact ⟨.empty, posts_failure s party _ f⟩
  | ok c =>
    have hb := hbuild (s.registry.resolver s.registry.snapshot.1) c
    rcases s.send_joins party (build (s.registry.resolver s.registry.snapshot.1) c) with
      hfailed | ⟨hprogress, hregistry, hjoins, hquiet⟩
    · simp only [hfailed]
      exact ⟨.empty, (posts_failure s party _ _).after (isCallback_notices _)⟩
    · refine ⟨_, Posts.after ⟨.batch hprogress rfl hparsed ?_, hjoins, hquiet⟩
        (isCallback_notices _)⟩
      rw [hregistry]
      exact hb

theorem pursue_posts (plan : Plan) : ∃ b, Posts s party plan.final? (s.pursue party plan) b := by
  fun_induction pursue s party plan with
  | case1 => exact ⟨.empty, .nothing rfl rfl, .inl ⟨rfl, rfl⟩, by simp⟩
  | case2 a next ih => exact ih
  | case3 a c rest next => exact ⟨.empty, posts_wait s party (.discovery a c rest next) _⟩
  | case4 kind change => exact s.sendChange_posts party fun _ _ => .inr rfl

theorem watchScopes_posts (kind : KindDescriptor) (scopes : List String) (next : Plan) :
    ∃ b, Posts s party next.final? (s.watchScopes party kind scopes next) b := by
  obtain ⟨b, h⟩ :=
    pursue_posts { s with registry := (s.registry.openWatches kind scopes).1 } party next
  exact ⟨b, h.of_registry.after (isCallback_requests _)⟩

theorem checkScopes_posts (kind : KindDescriptor) (scopes rest : List String) (next : Plan) :
    ∃ b, Posts s party next.final? (s.checkScopes party kind scopes rest next) b := by
  cases rest with
  | nil => exact s.watchScopes_posts party kind scopes next
  | cons scope rest => exact ⟨.empty, posts_wait s party (.access kind scopes scope rest next) _⟩

theorem addToWatch_posts (kind : KindDescriptor) (next : Plan) :
    ∃ b, Posts s party next.final? (s.addToWatch party kind next) b :=
  s.checkScopes_posts party kind _ _ next

theorem onDiscovery_posts (a : Application) (component : GroupKind) (rest : List GroupKind)
    (next : Plan) (reply : Except Failure (Option KindDescriptor)) :
    ∃ b, Posts s party next.final? (s.onDiscovery party a component rest next reply) b := by
  cases reply with
  | error f => exact ⟨.empty, posts_failure s party _ f⟩
  | ok found =>
    cases found with
    | none =>
      obtain ⟨b, h⟩ := s.pursue_posts party (.components a rest next)
      exact ⟨b, h.after (by simp [Note.isCallback])⟩
    | some kind =>
      obtain ⟨b, h⟩ := addToWatch_posts { s with registry := s.registry.permitFor a kind } party
        kind (.components a rest next)
      exact ⟨b, h.of_registry⟩

theorem onAccess_posts (kind : KindDescriptor) (scopes : List String) (scope : String)
    (rest : List String) (next : Plan) (reply : Except Failure Unit) :
    ∃ b, Posts s party next.final? (s.onAccess party kind scopes scope rest next reply) b := by
  cases reply with
  | error f => exact ⟨.empty, posts_failure s party _ _⟩
  | ok _ => exact s.checkScopes_posts party kind scopes rest next

theorem handleApplication_posts (kind : KindDescriptor) (cache : WatchCache) (e : ResourceEvent) :
    ∃ b, Posts s party (some (kind, cache.latestChange e))
      (s.handleApplication party kind cache e) b := by
  unfold handleApplication
  simp only
  split
  · exact s.pursue_posts party (.sendBatch kind (cache.latestChange e))
  · split
    · exact ⟨.empty, posts_failure s party _ _⟩
    · next a _ =>
      exact s.pursue_posts party
        (.components a a.componentKinds (.sendBatch kind (cache.latestChange e)))

/-- **A worker makes of a change the batch of that change or nothing.** -/
theorem handle_posts (w : Watcher) (e : ResourceEvent) :
    ∃ b, Posts s party (some (w.kind, w.cache.latestChange e)) (s.handle party w e) b := by
  unfold handle
  split
  · exact s.handleApplication_posts party w.kind w.cache e
  · exact s.sendChange_posts party fun _ _ => .inl rfl

end System

end AppWatch
