/-
# What a party asks of the cluster

A party puts two questions: what kind the cluster serves for a declared one, and whether a scope can
be listed.  It never has more than one of them open.  Whatever work it does, it asks the question
for whose answer it then waits, and no other (`System.Works.inquires`); a party that does not come
to wait for the cluster asks nothing.
-/
import AppWatch.Proofs.Waits

namespace AppWatch

/-- The question that a note shows to be put to the cluster. -/
def Note.question? : Note → Option ClientCall
  | .request (.resolve c) => some (.resolve c)
  | .request (.check kind scope) => some (.check kind scope)
  | _ => none

/-- The questions in some notes. -/
def Note.questions (notes : List Note) : List ClientCall := notes.filterMap Note.question?

/-- The question that a wait is about; none if it is for room. -/
def Awaiting.question? : Awaiting → Option ClientCall
  | .discovery _ c _ _ => some (.resolve c)
  | .access kind _ scope _ _ => some (.check kind scope)
  | .room => none

/-- The question that a party comes to wait for. -/
def Progress.question? (p : Progress) : Option ClientCall := p.awaiting?.bind Awaiting.question?

/-- What has come of a party's work asks the question that the party waits for, and no other. -/
def Outcome.Inquires (o : Outcome) : Prop := Note.questions o.notes = o.progress.question?.toList

theorem Note.questions_append (notes more : List Note) :
    questions (notes ++ more) = questions notes ++ questions more := List.filterMap_append

theorem Note.questions_notices (notices : List Notice) : questions (notices.map .notice) = [] := by
  rw [questions, List.filterMap_map, List.filterMap_eq_nil_iff]
  exact fun _ _ => rfl

theorem Note.questions_openScopes (w : Watcher) (scopes : List String) :
    questions ((Registry.openScopes w scopes).2.map .request) = [] := by
  induction scopes generalizing w with
  | nil => rfl
  | cons scope rest ih =>
    simp only [Registry.openScopes]
    split
    · exact ih _
    · exact ih _

theorem Outcome.Inquires.after {o : Outcome} (h : o.Inquires) {notes : List Note}
    (hnotes : Note.questions notes = []) : (o.after notes).Inquires := by
  have happend := Note.questions_append notes o.notes
  rw [hnotes, List.nil_append] at happend
  exact happend.trans h

namespace System

variable {s : System} {party : Party} {action : Action} {o : Outcome}

theorem inquires_send (s : System) (party : Party) (b : Batch) : (s.send party b).Inquires := by
  unfold send
  split
  · rfl
  · cases s.queue.offer party b <;> rfl

theorem inquires_sendChange (s : System) (party : Party) (kind : KindDescriptor)
    (change : Change ClusterObject) (build : Resolver → Change ResourceInfo → Batch) :
    (s.sendChange party kind change build).Inquires := by
  unfold sendChange
  split
  · rfl
  · exact (s.inquires_send party _).after (Note.questions_notices _)

theorem inquires_pursue (s : System) (party : Party) (plan : Plan) :
    (s.pursue party plan).Inquires := by
  fun_induction pursue s party plan with
  | case1 => rfl
  | case2 a next ih => exact ih
  | case3 => rfl
  | case4 kind change => exact s.inquires_sendChange party kind change _

theorem inquires_checkScopes (s : System) (party : Party) (kind : KindDescriptor)
    (scopes rest : List String) (next : Plan) :
    (s.checkScopes party kind scopes rest next).Inquires := by
  cases rest with
  | cons scope rest => rfl
  | nil =>
    exact (inquires_pursue { s with registry := (s.registry.openWatches kind scopes).1 } party
      next).after (Note.questions_openScopes _ scopes)

theorem inquires_handleApplication (s : System) (party : Party) (kind : KindDescriptor)
    (cache : WatchCache) (e : ResourceEvent) :
    (s.handleApplication party kind cache e).Inquires := by
  unfold handleApplication
  simp only
  split
  · exact s.inquires_pursue party _
  · split
    · rfl
    · exact s.inquires_pursue party _

theorem inquires_handle (s : System) (party : Party) (w : Watcher) (e : ResourceEvent) :
    (s.handle party w e).Inquires := by
  unfold handle
  split
  · exact s.inquires_handleApplication party _ _ e
  · exact s.inquires_sendChange party _ _ _

/-- **A party asks what it then waits for.** -/
theorem Works.inquires (h : s.Works action party o) : o.Inquires := by
  cases h with
  | @called id c o h =>
    cases c with
    | addToWatch kind =>
      cases h
      exact s.inquires_checkScopes _ kind _ _ .done
    | watchComponents a =>
      cases h
      exact s.inquires_pursue _ _
    | handleApplication gvr e =>
      obtain ⟨w, -, rfl⟩ := Option.map_eq_some_iff.mp h
      exact s.inquires_handleApplication _ _ _ e
    | handleResource gvr e =>
      obtain ⟨w, -, rfl⟩ := Option.map_eq_some_iff.mp h
      exact s.inquires_sendChange _ _ _ _
    | send b =>
      cases h
      exact s.inquires_send _ b
  | @discovered party a c rest next reply h =>
    cases reply with
    | error f => rfl
    | ok found =>
      cases found with
      | none => exact s.inquires_pursue party (.components a rest next)
      | some kind => exact inquires_checkScopes _ party kind _ _ (.components a rest next)
  | @checked party kind scopes scope rest next reply h =>
    cases reply with
    | error f => rfl
    | ok _ => exact s.inquires_checkScopes party kind scopes rest next
  | entered _ => rfl
  | refused _ _ => rfl

theorem questions_concludeWorker (gvr : GroupVersionResource) (kind : KindDescriptor)
    (e : ResourceEvent) (rest : List ResourceEvent) (o : Outcome) :
    Note.questions (concludeWorker gvr kind e rest o).2 = Note.questions o.notes := by
  unfold concludeWorker
  split
  · rfl
  · rfl
  · exact (Note.questions_append _ _).trans (List.append_nil _)

/-- A party that concludes its work asks nothing more. -/
theorem questions_conclude (s : System) (party : Party) (o : Outcome) :
    Note.questions (s.conclude party o).2 = Note.questions o.notes := by
  cases party with
  | caller id =>
    change Note.questions (concludeCaller id o).2 = _
    unfold concludeCaller
    split
    · rfl
    · exact (Note.questions_append _ _).trans (List.append_nil _)
  | worker gvr =>
    unfold conclude
    simp only
    split
    · exact questions_concludeWorker _ _ _ _ o
    · rfl

end System

end AppWatch
