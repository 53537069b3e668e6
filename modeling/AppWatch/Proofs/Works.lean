/-
# What a party makes of the registry

Between two waits a party does one piece of work (`System.Works`), and in it makes the registry grow
at most twice, by a permission and by an opening of watches.  Which growths these are is told as
data and determined by the answer that the party was given (`System.growth`).  The registry after
the work is the one before with these growths (`Works.grows`), and the requests for watches in its
notes are those of the growths.
-/
import AppWatch.Proofs.Growth

namespace AppWatch

/-! ## 1. Requests for watches -/

/-- The watch that a request asks for. -/
def ClientCall.watch? : ClientCall → Option (KindDescriptor × String)
  | .watch kind scope => some (kind, scope)
  | _ => none

/-- The watch that a note shows to be asked for. -/
def Note.watch? : Note → Option (KindDescriptor × String)
  | .request c => c.watch?
  | _ => none

/-- The watches that are asked for in some notes. -/
def Note.watches (notes : List Note) : List (KindDescriptor × String) :=
  notes.filterMap Note.watch?

/-- Whether a note neither asks for a watch nor says that a call has returned. -/
def Note.isPlain : Note → Bool
  | .request (.watch _ _) | .returned _ _ => false
  | _ => true

theorem Note.watches_of_isPlain {notes : List Note} (h : ∀ n ∈ notes, n.isPlain = true) :
    watches notes = [] := by
  refine List.filterMap_eq_nil_iff.mpr fun n hn => ?_
  have hplain := h n hn
  cases n with
  | request c => cases c <;> first | rfl | cases hplain
  | _ => rfl

theorem Note.isPlain_of_notice {notices : List Notice} {n : Note}
    (h : n ∈ notices.map .notice) : n.isPlain = true := by
  obtain ⟨notice, -, rfl⟩ := List.mem_map.mp h
  rfl

theorem Note.watches_append (notes more : List Note) :
    watches (notes ++ more) = watches notes ++ watches more := List.filterMap_append

theorem Note.watches_requests (calls : List ClientCall) :
    watches (calls.map .request) = calls.filterMap ClientCall.watch? := by
  rw [watches, List.filterMap_map]
  rfl

/-! ## 2. Growths -/

/-- One way in which a registry grows. -/
inductive Growth where
  /-- Namespaces are permitted for a kind. -/
  | permit (gvr : GroupVersionResource) (namespaces : List String)
  /-- A kind is watched in further scopes. -/
  | watch (kind : KindDescriptor) (scopes : List String)

/-- The namespaces from which an application draws components of a kind. -/
def Application.namespacesFor (a : Application) (kind : KindDescriptor) : List String :=
  if kind.namespaced then a.«namespace» :: SortedSet.toList a.componentNamespaces else []

namespace Registry

/-- The registry after a growth, with the watches that are asked for. -/
def grow (r : Registry) : Growth → Registry × List (KindDescriptor × String)
  | .permit gvr namespaces => ({ r with filter := r.filter.permitEach gvr namespaces }, [])
  | .watch kind scopes =>
    ((r.openWatches kind scopes).1, (r.openWatches kind scopes).2.filterMap ClientCall.watch?)

/-- The registry after some growths, with the watches that are asked for. -/
def growAll (r : Registry) : List Growth → Registry × List (KindDescriptor × String)
  | [] => (r, [])
  | g :: gs => (((r.grow g).1.growAll gs).1, (r.grow g).2 ++ ((r.grow g).1.growAll gs).2)

theorem extends_grow (r : Registry) (g : Growth) : r.Extends (r.grow g).1 := by
  cases g with
  | permit gvr namespaces => exact extends_filter (global_permitEach _ _ _)
  | watch kind scopes => exact r.extends_openWatches kind scopes

theorem extends_growAll (r : Registry) (gs : List Growth) : r.Extends (r.growAll gs).1 := by
  induction gs generalizing r with
  | nil => exact .refl r
  | cons g gs ih => exact (r.extends_grow g).trans (ih _)

/-- To permit the namespaces of an application is a growth. -/
theorem permitFor_eq (r : Registry) (a : Application) (kind : KindDescriptor) :
    r.permitFor a kind = (r.grow (.permit kind.gvr (a.namespacesFor kind))).1 := by
  unfold permitFor Application.namespacesFor
  cases kind.namespaced <;> rfl

end Registry

namespace System

/-- The growths that an action brings: when a namespace is permitted or discovery has found a kind,
and when the last scope of a kind was found listable or none had to be checked. -/
def growth (s : System) : Action → List Growth
  | .discovered party (.ok (some kind)) =>
    match s.awaiting? party with
    | some (.discovery a _ _ _) =>
      .permit kind.gvr (a.namespacesFor kind) ::
        if (s.registry.permitFor a kind).newScopes kind = [] then [.watch kind []] else []
    | _ => []
  | .checked party (.ok ()) =>
    match s.awaiting? party with
    | some (.access kind scopes _ [] _) => [.watch kind scopes]
    | _ => []
  | .call _ (.addToWatch kind) =>
    if s.registry.newScopes kind = [] then [.watch kind []] else []
  | .permit gvr ns => [.permit gvr [ns]]
  | _ => []

end System

/-! ## 3. What comes of a party's work -/

namespace Outcome

/-- The registry has made some growths, the watches asked for are theirs, and nobody's wait is
touched. -/
structure Grows (s : System) (gs : List Growth) (o : Outcome) : Prop where
  registry : o.system.registry = (s.registry.growAll gs).1
  watches : Note.watches o.notes = (s.registry.growAll gs).2
  returns : ∀ id r, Note.returned id r ∉ o.notes
  callers : o.system.callers = s.callers

variable {s : System} {gs : List Growth} {o : Outcome}

theorem Grows.after (h : Grows s gs o) {notes : List Note}
    (hnotes : ∀ n ∈ notes, n.isPlain = true) : Grows s gs (o.after notes) := by
  have hwatches := Note.watches_append notes o.notes
  rw [Note.watches_of_isPlain hnotes, List.nil_append, h.watches] at hwatches
  refine ⟨h.registry, hwatches, fun id r hmem => ?_, h.callers⟩
  rcases List.mem_append.mp hmem with hmem | hmem
  · cases hnotes _ hmem
  · exact h.returns id r hmem

/-- What leaves registry and callers alone and has plain notes only. -/
theorem Grows.of_isPlain (hregistry : o.system.registry = s.registry)
    (hcallers : o.system.callers = s.callers) (hnotes : ∀ n ∈ o.notes, n.isPlain = true) :
    Grows s [] o := by
  refine ⟨hregistry, Note.watches_of_isPlain hnotes, fun id r hmem => ?_, hcallers⟩
  cases hnotes _ hmem

theorem Grows.extends (h : Grows s gs o) : s.registry.Extends o.system.registry :=
  h.registry ▸ s.registry.extends_growAll gs

end Outcome

/-- The wait in which a party's work has ended. -/
def Progress.awaiting? : Progress → Option Awaiting
  | .waits a => some a
  | .finished _ => none

/-- Whether a wait is for the answer whether a scope can be listed. -/
def Awaiting.isAccess : Awaiting → Bool
  | .access _ _ _ _ _ => true
  | _ => false

namespace System

open Outcome

variable (s : System) (party : Party)

/-- A party that stops at once has done nothing. -/
theorem stop_grows (progress : Progress) : Grows s [] ⟨s, [], progress⟩ :=
  .of_isPlain rfl rfl fun _ hn => absurd hn (by simp)

theorem send_grows (b : Batch) : Grows s [] (s.send party b) := by
  unfold send
  split
  · exact s.stop_grows _
  · cases s.queue.offer party b with
    | accepted q => exact .of_isPlain rfl rfl (by simp [Note.isPlain])
    | waits q => exact .of_isPlain rfl rfl (by simp [Note.isPlain])
    | refused => exact s.stop_grows _

theorem sendChange_grows (kind : KindDescriptor) (change : Change ClusterObject)
    (build : Resolver → Change ResourceInfo → Batch) :
    Grows s [] (s.sendChange party kind change build) := by
  unfold sendChange
  cases change.mapM? (ResourceInfo.ofObject kind) with
  | error f => exact s.stop_grows _
  | ok c => exact (s.send_grows party _).after fun _ => Note.isPlain_of_notice

theorem pursue_grows (plan : Plan) : Grows s [] (s.pursue party plan) := by
  fun_induction pursue s party plan with
  | case1 => exact s.stop_grows _
  | case2 a next ih => exact ih
  | case3 a c rest next => exact .of_isPlain rfl rfl (by simp [Note.isPlain])
  | case4 kind change => exact s.sendChange_grows party kind change _

theorem watchScopes_grows (kind : KindDescriptor) (scopes : List String) (next : Plan) :
    Grows s [.watch kind scopes] (s.watchScopes party kind scopes next) := by
  have h := pursue_grows { s with registry := (s.registry.openWatches kind scopes).1 } party next
  have hwatches := Note.watches_append ((s.registry.openWatches kind scopes).2.map .request)
    (pursue { s with registry := (s.registry.openWatches kind scopes).1 } party next).notes
  rw [Note.watches_requests, h.watches] at hwatches
  refine ⟨h.registry, hwatches, fun id r hmem => ?_, h.callers⟩
  rcases List.mem_append.mp hmem with hmem | hmem
  · obtain ⟨call, -, he⟩ := List.mem_map.mp hmem
    cases he
  · exact h.returns id r hmem

theorem checkScopes_grows (kind : KindDescriptor) (scopes rest : List String) (next : Plan) :
    Grows s (if rest = [] then [.watch kind scopes] else [])
      (s.checkScopes party kind scopes rest next) := by
  cases rest with
  | nil => exact s.watchScopes_grows party kind scopes next
  | cons scope rest => exact .of_isPlain rfl rfl (by simp [checkScopes, Note.isPlain])

theorem addToWatch_grows (kind : KindDescriptor) (next : Plan) :
    Grows s (if s.registry.newScopes kind = [] then [.watch kind []] else [])
      (s.addToWatch party kind next) := by
  have h := s.checkScopes_grows party kind (s.registry.newScopes kind)
    (s.registry.newScopes kind) next
  by_cases hnew : s.registry.newScopes kind = []
  · rw [if_pos hnew, hnew] at h
    rw [if_pos hnew, addToWatch]
    simpa only [hnew] using h
  · rw [if_neg hnew] at h ⊢
    exact h

theorem handleApplication_grows (kind : KindDescriptor) (cache : WatchCache) (e : ResourceEvent) :
    Grows s [] (s.handleApplication party kind cache e) := by
  unfold handleApplication
  simp only
  split
  · exact s.pursue_grows party _
  · split
    · exact s.stop_grows _
    · exact s.pursue_grows party _

theorem handle_grows (w : Watcher) (e : ResourceEvent) : Grows s [] (s.handle party w e) := by
  unfold handle
  split
  · exact s.handleApplication_grows party _ _ e
  · exact s.sendChange_grows party _ _ _

/-- To send a batch is to wait for room at most. -/
theorem send_waits {b : Batch} {a : Awaiting} (h : (s.send party b).progress = .waits a) :
    a = .room := by
  unfold send at h
  split at h
  · cases h
  · cases ho : s.queue.offer party b <;> rw [ho] at h <;> cases h
    rfl

theorem sendChange_waits {kind : KindDescriptor} {change : Change ClusterObject}
    {build : Resolver → Change ResourceInfo → Batch} {a : Awaiting}
    (h : (s.sendChange party kind change build).progress = .waits a) : a = .room := by
  unfold sendChange at h
  split at h
  · cases h
  · exact s.send_waits party h

/-- A plan begins with no check. -/
theorem pursue_not_access {plan : Plan} {a : Awaiting}
    (h : (s.pursue party plan).progress = .waits a) : a.isAccess = false := by
  fun_induction pursue s party plan with
  | case1 => cases h
  | case2 _ next ih => exact ih h
  | case3 a c rest next =>
    cases h
    rfl
  | case4 kind change =>
    rw [s.sendChange_waits party h]
    rfl

theorem handleApplication_not_access {kind : KindDescriptor} {cache : WatchCache}
    {e : ResourceEvent} {a : Awaiting}
    (h : (s.handleApplication party kind cache e).progress = .waits a) : a.isAccess = false := by
  unfold handleApplication at h
  simp only at h
  split at h
  · exact s.pursue_not_access party h
  · split at h
    · cases h
    · exact s.pursue_not_access party h

theorem handle_not_access {w : Watcher} {e : ResourceEvent} {a : Awaiting}
    (h : (s.handle party w e).progress = .waits a) : a.isAccess = false := by
  unfold handle at h
  split at h
  · exact s.handleApplication_not_access party h
  · rw [s.sendChange_waits party h]
    rfl

/-- A check is the first of those that are left to be made. -/
theorem checkScopes_access {kind k : KindDescriptor} {scopes rest ss rs : List String}
    {scope : String} {next n : Plan}
    (h : (s.checkScopes party kind scopes rest next).progress = .waits (.access k ss scope rs n)) :
    k = kind ∧ ss = scopes ∧ n = next ∧ rest = scope :: rs := by
  cases rest with
  | nil =>
    have hnot := pursue_not_access { s with registry := (s.registry.openWatches kind scopes).1 }
      party h
    exact absurd hnot (by simp [Awaiting.isAccess])
  | cons scope' rest =>
    cases h
    exact ⟨rfl, rfl, rfl, rfl⟩

/-! ## 4. Who acts -/

/-- The party to whom an action belongs. -/
def Action.party? : Action → Option Party
  | .take gvr | .proceed gvr => some (.worker gvr)
  | .discovered party _ | .checked party _ | .enterQueue party | .refuse party => some party
  | .call id _ | .giveUp id => some (.caller id)
  | _ => none

/-- The work that a party does in an action, up to the point at which it has to wait. -/
inductive Works (s : System) : Action → Party → Outcome → Prop where
  /-- A call from outside begins. -/
  | called {id : Nat} {c : Call} {o : Outcome} (h : s.begin id c = some o) :
      Works s (.call id c) (.caller id) o
  /-- The cluster has answered what kind is declared. -/
  | discovered {party : Party} {a : Application} {c : GroupKind} {rest : List GroupKind}
      {next : Plan} {reply : Except Failure (Option KindDescriptor)}
      (h : s.awaiting? party = some (.discovery a c rest next)) :
      Works s (.discovered party reply) party (s.onDiscovery party a c rest next reply)
  /-- The cluster has answered whether a scope can be listed. -/
  | checked {party : Party} {kind : KindDescriptor} {scopes : List String} {scope : String}
      {rest : List String} {next : Plan} {reply : Except Failure Unit}
      (h : s.awaiting? party = some (.access kind scopes scope rest next)) :
      Works s (.checked party reply) party (s.onAccess party kind scopes scope rest next reply)
  /-- The batch of the party is in the queue. -/
  | entered {party : Party} {q : BoundedQueue Party Batch} (h : s.queue.enter? party = some q) :
      Works s (.enterQueue party) party ⟨s.setQueue q, [], .finished (.ok ())⟩
  /-- The queue is closed. -/
  | refused {party : Party} (h : s.awaiting? party = some .room) (hclosed : s.queue.closed) :
      Works s (.refuse party) party ⟨s, [], .finished (.error .queueClosed)⟩

variable {s : System} {party : Party} {action : Action} {o : Outcome}

/-- **What a party makes of the registry is determined by the answer it was given.** -/
theorem Works.grows (h : s.Works action party o) : Grows s (s.growth action) o := by
  cases h with
  | @called id c o h =>
    cases c with
    | addToWatch kind =>
      cases h
      exact s.addToWatch_grows _ kind .done
    | watchComponents a =>
      cases h
      exact s.pursue_grows _ _
    | handleApplication gvr e =>
      obtain ⟨w, -, rfl⟩ := Option.map_eq_some_iff.mp h
      exact s.handleApplication_grows _ _ _ e
    | handleResource gvr e =>
      obtain ⟨w, -, rfl⟩ := Option.map_eq_some_iff.mp h
      exact s.sendChange_grows _ _ _ _
    | send b =>
      cases h
      exact s.send_grows _ b
  | @discovered party a c rest next reply h =>
    cases reply with
    | error f => exact s.stop_grows _
    | ok found =>
      cases found with
      | none =>
        exact (s.pursue_grows party (.components a rest next)).after (by simp [Note.isPlain])
      | some kind =>
        have hgrows := addToWatch_grows { s with registry := s.registry.permitFor a kind } party
          kind (.components a rest next)
        simp only [growth, h]
        refine ⟨?_, ?_, hgrows.returns, hgrows.callers⟩
        · rw [Registry.growAll, ← Registry.permitFor_eq]
          exact hgrows.registry
        · rw [Registry.growAll, ← Registry.permitFor_eq]
          exact hgrows.watches
  | @checked party kind scopes scope rest next reply h =>
    cases reply with
    | error f => exact s.stop_grows _
    | ok _ =>
      have hgrows := s.checkScopes_grows party kind scopes rest next
      cases rest with
      | nil =>
        simp only [growth, h]
        exact hgrows
      | cons scope' rest =>
        simp only [growth, h]
        exact hgrows
  | entered _ => exact .of_isPlain rfl rfl fun _ hn => absurd hn (by simp)
  | refused _ _ => exact s.stop_grows _

end System

end AppWatch
