/-
# When the watches of an application can be started

A call that watches the components of an application goes through the declared kinds one by one.
For each it permits the application's namespaces and then has every scope checked in which the kind
should be watched and is not.  These are not the application's own scopes only.  Permissions belong
to the kind and are never taken back, so a namespace that another application has brought in is
checked again for as long as it is not watched, and a refusal there fails the call.

Nothing else can go wrong.  Whatever other parties do in the meantime, a
call that fails was given a failure by discovery for one of its own kinds, or was refused a scope
that is wanted of one of them and was not watched when the call began.  Without such a refusal it
can always be brought to its end by answers of the cluster alone; and it does not return well before
all that is wanted of its kinds is watched.
-/
import AppWatch.Proofs.Permissions

namespace AppWatch

/-! ## 1. Answers of the cluster -/

/-- What the cluster answers, whoever asks and whenever. -/
structure Answers where
  resolve : GroupKind → Except Failure (Option KindDescriptor)
  access : KindDescriptor → String → Except Failure Unit

/-- The answer that ends a wait. -/
def Answers.reply? (ans : Answers) (party : Party) : Awaiting → Option System.Action
  | .discovery _ c _ _ => some (.discovered party (ans.resolve c))
  | .access kind _ scope _ _ => some (.checked party (ans.access kind scope))
  | .room => none

/-- In a run a party is only given the answers of the cluster. -/
def Answers.Attend (ans : Answers) (party : Party) (s : System) (actions : List System.Action) :
    Prop :=
  ∀ before action after s₁ notes₁, actions = before ++ action :: after →
    s.run before = some (s₁, notes₁) → action.party? = some party →
      (s₁.awaiting? party).bind (ans.reply? party) = some action

theorem Answers.attend_nil (ans : Answers) (party : Party) (s : System) :
    ans.Attend party s [] := by
  intro before action after s₁ notes₁ hsplit
  exact absurd hsplit (by simp)

theorem Answers.attend_cons {ans : Answers} {party : Party} {s s₁ : System}
    {action : System.Action} {actions : List System.Action} {notes₁ : List Note}
    (hstep : s.step action = some (s₁, notes₁)) :
    ans.Attend party s (action :: actions) ↔
      (action.party? = some party → (s.awaiting? party).bind (ans.reply? party) = some action) ∧
        ans.Attend party s₁ actions := by
  constructor
  · intro h
    refine ⟨h [] action actions s [] rfl rfl, fun before a after s₂ notes₂ hsplit hrun => ?_⟩
    refine h (action :: before) a after s₂ (notes₁ ++ notes₂) ?_
      (System.run_cons_of_step hstep hrun)
    rw [hsplit]
    rfl
  · rintro ⟨hhead, htail⟩ before a after s₂ notes₂ hsplit hrun
    cases before with
    | nil =>
      obtain ⟨rfl, rfl⟩ := List.cons.inj hsplit
      cases hrun
      exact hhead
    | cons b before =>
      obtain ⟨rfl, hrest⟩ := List.cons.inj hsplit
      obtain ⟨s₃, notes₃, notes₄, hstep', hmore, -⟩ := System.run_cons hrun
      rw [hstep] at hstep'
      obtain ⟨rfl, rfl⟩ := Prod.mk.inj (Option.some.inj hstep')
      exact htail before a after s₂ notes₄ hrest hmore

theorem Answers.party?_of_reply? {ans : Answers} {party : Party} {w : Awaiting}
    {action : System.Action} (h : ans.reply? party w = some action) :
    action.party? = some party := by
  cases w <;> cases h <;> rfl

/-- Gives a party up to so many answers, with nothing else in between. -/
def Answers.serve (ans : Answers) (party : Party) : Nat → System → System × List Note
  | 0, s => (s, [])
  | n + 1, s =>
    match (s.awaiting? party).bind (ans.reply? party) with
    | none => (s, [])
    | some action =>
      match s.step action with
      | none => (s, [])
      | some (s', notes) => ((ans.serve party n s').1, notes ++ (ans.serve party n s').2)

/-- To give answers is to run. -/
theorem Answers.exists_run_serve (ans : Answers) (party : Party) (n : Nat) (s : System) :
    ∃ actions, (∀ x ∈ actions, x.party? = some party) ∧ ans.Attend party s actions ∧
      s.run actions = some ((ans.serve party n s).1, (ans.serve party n s).2) := by
  induction n generalizing s with
  | zero => exact ⟨[], by simp, ans.attend_nil party s, rfl⟩
  | succ n ih =>
    unfold serve
    split
    · exact ⟨[], by simp, ans.attend_nil party s, rfl⟩
    · next action hreply =>
      split
      · exact ⟨[], by simp, ans.attend_nil party s, rfl⟩
      · next s' notes hstep =>
        obtain ⟨actions, hparties, hattend, hrun⟩ := ih s'
        obtain ⟨w, -, hw⟩ := Option.bind_eq_some_iff.mp hreply
        refine ⟨action :: actions, ?_, ?_, System.run_cons_of_step hstep hrun⟩
        · exact List.forall_mem_cons.mpr ⟨party?_of_reply? hw, hparties⟩
        · exact (attend_cons hstep).mpr ⟨fun _ => hreply, hattend⟩

/-! ## 2. The course of a call -/

section Course

variable (ans : Answers) (a : Application) (base r : Registry)

/-- All that was wanted of some kinds in the beginning is watched now. -/
def AllWatched (kinds : List GroupKind) : Prop :=
  ∀ c ∈ kinds, ∀ kind, ans.resolve c = .ok (some kind) →
    ∀ scope ∈ base.wanted a kind, r.isWatched (kind.gvr, scope) = true

/-- What a call can fail of: discovery fails for one of the kinds, or a scope that is wanted of one
of them, and was not watched in the beginning, is refused. -/
inductive Refused : Prop where
  | discovery {c : GroupKind} {f : Failure} (hc : c ∈ a.componentKinds)
      (hresolve : ans.resolve c = .error f)
  | access {c : GroupKind} {kind : KindDescriptor} {scope : String} {f : Failure}
      (hc : c ∈ a.componentKinds) (hresolve : ans.resolve c = .ok (some kind))
      (hwanted : scope ∈ r.wanted a kind) (hnew : base.isWatched (kind.gvr, scope) = false)
      (haccess : ans.access kind scope = .error f)

/-- How far a call can have come. -/
inductive Underway : Progress → Prop where
  /-- Discovery is asked for the next kind. -/
  | asks {past rest : List GroupKind} {c : GroupKind}
      (hkinds : a.componentKinds = past ++ c :: rest) (hpast : AllWatched ans a base r past) :
      Underway (.waits (.discovery a c rest .done))
  /-- A kind was found, and its new scopes are being checked. -/
  | checks {past rest : List GroupKind} {c : GroupKind} {kind : KindDescriptor}
      {scopes left : List String} {scope : String}
      (hkinds : a.componentKinds = past ++ c :: rest) (hpast : AllWatched ans a base r past)
      (hresolve : ans.resolve c = .ok (some kind))
      (hnew : ∀ x ∈ scopes, x ∈ r.wanted a kind ∧ base.isWatched (kind.gvr, x) = false)
      (hleft : ∀ x ∈ scope :: left, x ∈ scopes)
      (hall : ∀ x ∈ base.wanted a kind, x ∈ scopes ∨ r.isWatched (kind.gvr, x) = true) :
      Underway (.waits (.access kind scopes scope left (.components a rest .done)))
  | returns (hall : AllWatched ans a base r a.componentKinds) : Underway (.finished (.ok ()))
  | fails {f : Failure} (hrefused : Refused ans a base r) : Underway (.finished (.error f))

end Course

variable {ans : Answers} {a : Application} {base r r' : Registry}

theorem AllWatched.widen {kinds : List GroupKind} (h : AllWatched ans a base r kinds)
    (hwide : r.Widens r') : AllWatched ans a base r' kinds :=
  fun c hc kind hresolve scope hscope => hwide.watched (h c hc kind hresolve scope hscope)

theorem Refused.widen (h : Refused ans a base r) (hwide : r.Widens r') :
    Refused ans a base r' := by
  cases h with
  | discovery hc hresolve => exact .discovery hc hresolve
  | access hc hresolve hwanted hnew haccess =>
    exact .access hc hresolve (hwide.mem_wanted hwanted) hnew haccess

/-- What others do in the meantime does not set a call back. -/
theorem Underway.widen {p : Progress} (h : Underway ans a base r p) (hwide : r.Widens r') :
    Underway ans a base r' p := by
  cases h with
  | asks hkinds hpast => exact .asks hkinds (hpast.widen hwide)
  | checks hkinds hpast hresolve hnew hleft hall =>
    refine .checks hkinds (hpast.widen hwide) hresolve (fun x hx => ?_) hleft fun x hx => ?_
    · exact ⟨hwide.mem_wanted (hnew x hx).1, (hnew x hx).2⟩
    · exact (hall x hx).imp_right hwide.watched
  | returns hall => exact .returns (hall.widen hwide)
  | fails hrefused => exact .fails (hrefused.widen hwide)

namespace System

variable {s s' : System} {party : Party} {past rest : List GroupKind} {c : GroupKind}
  {kind : KindDescriptor} {scopes left : List String}

/-- A call goes on with the kinds that are left. -/
theorem underway_pursue (hkinds : a.componentKinds = past ++ rest)
    (hpast : AllWatched ans a base s.registry past) :
    Underway ans a base (s.pursue party (.components a rest .done)).system.registry
      (s.pursue party (.components a rest .done)).progress := by
  cases rest with
  | nil =>
    simp only [pursue]
    rw [List.append_nil] at hkinds
    exact .returns (hkinds ▸ hpast)
  | cons c rest =>
    simp only [pursue]
    exact .asks hkinds hpast

/-- A call goes on with the scopes that are left to be checked; without any, all of them are
opened. -/
theorem underway_checkScopes (hkinds : a.componentKinds = past ++ c :: rest)
    (hpast : AllWatched ans a base s.registry past) (hresolve : ans.resolve c = .ok (some kind))
    (hnew : ∀ x ∈ scopes, x ∈ s.registry.wanted a kind ∧ base.isWatched (kind.gvr, x) = false)
    (hleft : ∀ x ∈ left, x ∈ scopes)
    (hall : ∀ x ∈ base.wanted a kind, x ∈ scopes ∨ s.registry.isWatched (kind.gvr, x) = true) :
    Underway ans a base
      (s.checkScopes party kind scopes left (.components a rest .done)).system.registry
      (s.checkScopes party kind scopes left (.components a rest .done)).progress := by
  cases left with
  | cons scope left => exact .checks hkinds hpast hresolve hnew hleft hall
  | nil =>
    have hwide : s.registry.Widens (s.registry.openWatches kind scopes).1 :=
      s.registry.widens_grow (.watch kind scopes)
    rw [List.append_cons] at hkinds
    refine underway_pursue (s := { s with registry := (s.registry.openWatches kind scopes).1 })
      hkinds fun c' hc' kind' hresolve' x hx => ?_
    rcases List.mem_append.mp hc' with hc' | hc'
    · exact hwide.watched (hpast c' hc' kind' hresolve' x hx)
    · rw [List.mem_singleton.mp hc', hresolve] at hresolve'
      obtain rfl := Option.some.inj (Except.ok.inj hresolve')
      refine (s.registry.isWatched_openWatches kind scopes _).mpr ?_
      exact (hall x hx).imp_left fun hscope => ⟨rfl, hscope⟩

/-- Discovery's answer brings the call to the scopes of the kind, to the next kind, or to its
failure. -/
theorem underway_onDiscovery (hbase : base.Widens s.registry)
    (hkinds : a.componentKinds = past ++ c :: rest)
    (hpast : AllWatched ans a base s.registry past) :
    Underway ans a base (s.onDiscovery party a c rest .done (ans.resolve c)).system.registry
      (s.onDiscovery party a c rest .done (ans.resolve c)).progress := by
  have hc : c ∈ a.componentKinds := by
    rw [hkinds]
    exact List.mem_append_right _ List.mem_cons_self
  cases hresolve : ans.resolve c with
  | error f => exact .fails (.discovery hc hresolve)
  | ok found =>
    cases found with
    | none =>
      rw [List.append_cons] at hkinds
      refine underway_pursue hkinds fun c' hc' kind' hresolve' => ?_
      rcases List.mem_append.mp hc' with hc' | hc'
      · exact hpast c' hc' kind' hresolve'
      · rw [List.mem_singleton.mp hc', hresolve] at hresolve'
        cases hresolve'
    | some kind =>
      have hwide := s.registry.widens_permitFor a kind
      refine underway_checkScopes (s := { s with registry := s.registry.permitFor a kind })
        hkinds (hpast.widen hwide) hresolve (fun x hx => ?_) (fun x hx => hx) fun x hx => ?_
      · obtain ⟨hscope, hnot⟩ := Registry.mem_newScopes.mp hx
        rw [Registry.isWatched_permitFor] at hnot
        refine ⟨hwide.mem_wanted hscope, ?_⟩
        exact Bool.eq_false_iff.mpr fun hwatched => by
          rw [hbase.watched hwatched] at hnot
          cases hnot
      · have hscope : x ∈ (s.registry.permitFor a kind).scopesFor kind := hbase.mem_wanted hx
        cases hwatched : (s.registry.permitFor a kind).isWatched (kind.gvr, x) with
        | true => exact .inr rfl
        | false => exact .inl (Registry.mem_newScopes.mpr ⟨hscope, hwatched⟩)

/-- The answer about a scope brings the call to the next scope, to its opened watches, or to its
failure. -/
theorem underway_onAccess {scope : String} (hkinds : a.componentKinds = past ++ c :: rest)
    (hpast : AllWatched ans a base s.registry past) (hresolve : ans.resolve c = .ok (some kind))
    (hnew : ∀ x ∈ scopes, x ∈ s.registry.wanted a kind ∧ base.isWatched (kind.gvr, x) = false)
    (hleft : ∀ x ∈ scope :: left, x ∈ scopes)
    (hall : ∀ x ∈ base.wanted a kind, x ∈ scopes ∨ s.registry.isWatched (kind.gvr, x) = true) :
    Underway ans a base (s.onAccess party kind scopes scope left (.components a rest .done)
        (ans.access kind scope)).system.registry
      (s.onAccess party kind scopes scope left (.components a rest .done)
        (ans.access kind scope)).progress := by
  obtain ⟨hscope, hleft⟩ := List.forall_mem_cons.mp hleft
  cases haccess : ans.access kind scope with
  | ok _ => exact underway_checkScopes hkinds hpast hresolve hnew hleft hall
  | error f =>
    have hc : c ∈ a.componentKinds := by
      rw [hkinds]
      exact List.mem_append_right _ List.mem_cons_self
    obtain ⟨hwanted, hnot⟩ := hnew scope hscope
    exact .fails (.access hc hresolve hwanted hnot haccess)

/-! ## 3. Every answer brings a party on -/

end System

/-- How many kinds a plan has before it. -/
def Plan.size : Plan → Nat
  | .components _ kinds next => kinds.length + next.size
  | .done | .sendBatch _ _ => 0

/-- How many kinds are before a party that waits, and how many scopes of the present one. -/
def Awaiting.toGo : Awaiting → Nat × Nat
  | .discovery _ _ rest next => (rest.length + next.size + 1, 0)
  | .access _ _ _ left next => (next.size, left.length + 1)
  | .room => (0, 0)

/-- A party has less before it than something, if it waits at all. -/
def Progress.Below (p : Progress) (n : Nat × Nat) : Prop :=
  ∀ w, p = .waits w → Prod.Lex (· < ·) (· < ·) w.toGo n

namespace System

theorem pursue_below (s : System) (party : Party) (plan : Plan) :
    (s.pursue party plan).progress.Below (plan.size, 1) := by
  intro w h
  fun_induction pursue s party plan with
  | case1 => cases h
  | case2 a next ih =>
    have hlt := ih h
    rw [Plan.size, List.length_nil, Nat.zero_add]
    exact hlt
  | case3 a c rest next =>
    cases h
    have hsize : (Plan.components a (c :: rest) next).size = rest.length + next.size + 1 := by
      simp only [Plan.size, List.length_cons]
      omega
    rw [hsize]
    exact .right _ Nat.zero_lt_one
  | case4 kind change =>
    rw [s.sendChange_waits party h]
    exact .right _ Nat.zero_lt_one

theorem checkScopes_below (s : System) (party : Party) (kind : KindDescriptor)
    (scopes left : List String) (next : Plan) :
    (s.checkScopes party kind scopes left next).progress.Below (next.size, left.length + 1) := by
  cases left with
  | nil => exact pursue_below _ party next
  | cons scope left =>
    intro w h
    cases h
    exact .right _ (Nat.lt_succ_self _)

theorem onDiscovery_below (s : System) (party : Party) (a : Application) (c : GroupKind)
    (rest : List GroupKind) (next : Plan) (reply : Except Failure (Option KindDescriptor)) :
    (s.onDiscovery party a c rest next reply).progress.Below
      (Awaiting.discovery a c rest next).toGo := by
  have hless : ∀ {p : Progress} {n : Nat}, p.Below ((Plan.components a rest next).size, n) →
      p.Below (Awaiting.discovery a c rest next).toGo := fun hbelow w h => by
    have hle : w.toGo.1 ≤ (Plan.components a rest next).size := by
      rcases Prod.lex_def.mp (hbelow w h) with hlt | ⟨he, -⟩
      · exact Nat.le_of_lt hlt
      · exact Nat.le_of_eq he
    exact .left _ _ (Nat.lt_succ_of_le hle)
  cases reply with
  | error f => exact fun w h => by cases h
  | ok found =>
    cases found with
    | none => exact hless (s.pursue_below party (.components a rest next))
    | some kind => exact hless (checkScopes_below _ party kind _ _ (.components a rest next))

theorem onAccess_below (s : System) (party : Party) (kind : KindDescriptor)
    (scopes : List String) (scope : String) (left : List String) (next : Plan)
    (reply : Except Failure Unit) :
    (s.onAccess party kind scopes scope left next reply).progress.Below
      (Awaiting.access kind scopes scope left next).toGo := by
  cases reply with
  | error f => exact fun w h => by cases h
  | ok _ => exact s.checkScopes_below party kind scopes left next

/-! ## 4. A call in a run -/

variable {s s' : System} {party : Party} {past rest : List GroupKind} {c : GroupKind}
  {kind : KindDescriptor} {scopes left : List String}

/-- How a call stands: how far it has come since the beginning, and that it has returned with
what came of it, if anything has. -/
structure Stands (ans : Answers) (a : Application) (base : Registry) (id : Nat) (s : System)
    (notes : List Note) (p : Progress) : Prop where
  widens : base.Widens s.registry
  underway : Underway ans a base s.registry p
  waits : s.awaiting? (.caller id) = p.awaiting?
  returned : ∀ r, .returned id r ∈ notes ↔ p = .finished r

variable {id : Nat} {action : Action} {actions : List Action} {notes notes' : List Note}
  {p : Progress} {w : Awaiting} {o : Outcome}

/-- The call has returned exactly if its work has come to an end. -/
theorem returned_mem_concludeCaller (h : ∀ r, Note.returned id r ∉ o.notes)
    (r : Except Failure Unit) :
    .returned id r ∈ (concludeCaller id o).2 ↔ o.progress = .finished r := by
  unfold concludeCaller
  split
  · next hwaits =>
    rw [hwaits]
    exact ⟨fun hmem => absurd hmem (h r), fun he => by cases he⟩
  · next r' hfinished =>
    rw [hfinished, List.mem_append, List.mem_singleton]
    constructor
    · rintro (hmem | he)
      · exact absurd hmem (h r)
      · cases he
        rfl
    · intro he
      cases he
      exact .inr rfl

/-- Work of the call brings it as far as the work has come. -/
theorem stands_conclude (hworks : s.Works action (.caller id) o)
    (hbase : base.Widens s.registry) (hsilent : ∀ r, Note.returned id r ∉ notes)
    (hunderway : Underway ans a base o.system.registry o.progress) :
    Stands ans a base id (concludeCaller id o).1 (notes ++ (concludeCaller id o).2)
      o.progress := by
  have hgrows := hworks.grows
  have hstep : Step s action (concludeCaller id o).1 (concludeCaller id o).2 := .works hworks
  refine ⟨hbase.trans hstep.widens, ?_, ?_, fun r => ?_⟩
  · rw [registry_concludeCaller]
    exact hunderway
  · rw [awaiting?_concludeCaller hgrows, if_pos rfl]
  · rw [List.mem_append, returned_mem_concludeCaller fun r => hgrows.returns id r]
    exact ⟨fun h => h.resolve_left (hsilent r), .inr⟩

/-- **An answer of the cluster brings the call on.** -/
theorem exists_work_of_reply (hbase : base.Widens s.registry)
    (hunderway : Underway ans a base s.registry (.waits w))
    (ha : s.awaiting? (.caller id) = some w) (h : ans.reply? (.caller id) w = some action) :
    ∃ o, s.Works action (.caller id) o ∧ s.step action = some (concludeCaller id o) ∧
      Underway ans a base o.system.registry o.progress ∧ o.progress.Below w.toGo := by
  cases hunderway with
  | asks hkinds hpast =>
    cases h
    exact ⟨_, .discovered ha, by simp only [step, ha]; rfl,
      underway_onDiscovery hbase hkinds hpast, s.onDiscovery_below _ _ _ _ _ _⟩
  | checks hkinds hpast hresolve hnew hleft hall =>
    cases h
    exact ⟨_, .checked ha, by simp only [step, ha]; rfl,
      underway_onAccess hkinds hpast hresolve hnew hleft hall, s.onAccess_below _ _ _ _ _ _ _⟩

theorem Stands.step (h : Stands ans a base id s notes p) (hs : s.step action = some (s', notes'))
    (hrun : action.stops = false)
    (hattend : action.party? = some (.caller id) →
      (s.awaiting? (.caller id)).bind (ans.reply? (.caller id)) = some action) :
    ∃ p', Stands ans a base id s' (notes ++ notes') p' := by
  have hstep := step_cases hs hrun
  by_cases hp : action.party? = some (.caller id)
  · obtain ⟨w, ha, hreply⟩ := Option.bind_eq_some_iff.mp (hattend hp)
    have hwaits : p = .waits w := Progress.eq_waits (h.waits.symm.trans ha)
    subst hwaits
    obtain ⟨o, hworks, hconcludes, hunderway, -⟩ :=
      exists_work_of_reply h.widens h.underway ha hreply
    rw [hconcludes] at hs
    obtain ⟨rfl, rfl⟩ := Prod.ext_iff.mp (Option.some.inj hs)
    refine ⟨_, stands_conclude hworks h.widens (fun r hmem => ?_) hunderway⟩
    cases (h.returned r).mp hmem
  · refine ⟨p, h.widens.trans hstep.widens, h.underway.widen hstep.widens,
      (hstep.awaiting?_eq hp).trans h.waits, fun r => ?_⟩
    rw [List.mem_append, h.returned]
    exact ⟨fun hmem => hmem.resolve_right fun hmem => hp (hstep.party?_of_returned hmem), .inl⟩

/-- **Whatever happens in a run, the call stands somewhere on its course.** -/
theorem Stands.run (h : Stands ans a base id s notes p) (hrun : s.run actions = some (s', notes'))
    (hstop : ∀ x ∈ actions, x.stops = false) (hattend : ans.Attend (.caller id) s actions) :
    ∃ p', Stands ans a base id s' (notes ++ notes') p' := by
  induction actions generalizing s notes notes' p with
  | nil =>
    cases hrun
    rw [List.append_nil]
    exact ⟨p, h⟩
  | cons action rest ih =>
    obtain ⟨haction, hrest⟩ := List.forall_mem_cons.mp hstop
    obtain ⟨s₁, notes₁, notes₂, hstep, hmore, rfl⟩ := run_cons hrun
    obtain ⟨hnow, hlater⟩ := (Answers.attend_cons hstep).mp hattend
    obtain ⟨p₁, h₁⟩ := h.step hstep haction hnow
    rw [← List.append_assoc]
    exact ih h₁ hmore hrest hlater

/-- A call begins its course with all of its kinds before it. -/
theorem stands_begin (ans : Answers)
    (h : s.step (.call id (.watchComponents a)) = some (s', notes)) :
    ∃ p, Stands ans a s.registry id s' notes p := by
  have hnone : AllWatched ans a s.registry s.registry [] := fun c hc => absurd hc (by simp)
  have hsilent : ∀ r, Note.returned id r ∉ [] := fun r hmem => absurd hmem (by simp)
  have hworks : s.Works (.call id (.watchComponents a)) (.caller id)
      (s.pursue (.caller id) (.components a a.componentKinds .done)) := .called rfl
  obtain ⟨rfl, rfl⟩ := Prod.ext_iff.mp (Option.some.inj h)
  exact ⟨_, stands_conclude hworks (.refl _) hsilent (underway_pursue rfl hnone)⟩

/-! ## 5. The end of a call -/

/-- Whoever stops a watcher is no party. -/
theorem stops_of_party? (h : action.party? = some party) : action.stops = false := by
  cases action <;> first | rfl | cases h

/-- A call always waits for an answer of the cluster. -/
theorem exists_reply (id : Nat) (h : Underway ans a base r (.waits w)) :
    ∃ action, ans.reply? (.caller id) w = some action := by
  cases h with
  | asks => exact ⟨_, rfl⟩
  | checks => exact ⟨_, rfl⟩

/-- What a call makes of the registry is on account of its application. -/
theorem growth_of_reply (hunderway : Underway ans a base s.registry (.waits w))
    (ha : s.awaiting? (.caller id) = some w) (h : ans.reply? (.caller id) w = some action) :
    ∀ g ∈ s.growth action, (∃ k : KindDescriptor, g = .permit k.gvr (a.namespacesFor k)) ∨
      ∃ k scopes, g = .watch k scopes := by
  intro g hg
  cases hunderway with
  | @asks past rest c =>
    cases h
    cases hresolve : ans.resolve c with
    | error f =>
      rw [hresolve] at hg
      cases hg
    | ok found =>
      rw [hresolve] at hg
      cases found with
      | none => cases hg
      | some kind =>
        simp only [growth, ha] at hg
        rcases List.mem_cons.mp hg with rfl | hg
        · exact .inl ⟨kind, rfl⟩
        · split at hg
          · exact .inr ⟨_, _, List.mem_singleton.mp hg⟩
          · cases hg
  | @checks past rest c kind scopes left scope =>
    cases h
    cases haccess : ans.access kind scope with
    | error f =>
      rw [haccess] at hg
      cases hg
    | ok _ =>
      rw [haccess] at hg
      simp only [growth, ha] at hg
      cases left with
      | nil => exact .inr ⟨_, _, List.mem_singleton.mp hg⟩
      | cons scope' left => cases hg

/-- A call that nothing can fail is not put in danger by what it does itself. -/
theorem refused_of_work (hworks : s.Works action (.caller id) o)
    (hunderway : Underway ans a base s.registry (.waits w))
    (ha : s.awaiting? (.caller id) = some w) (h : ans.reply? (.caller id) w = some action)
    (hrefused : Refused ans a base o.system.registry) : Refused ans a base s.registry := by
  cases hrefused with
  | discovery hc hresolve => exact .discovery hc hresolve
  | access hc hresolve hwanted hnew haccess =>
    rw [hworks.grows.registry] at hwanted
    exact .access hc hresolve (Registry.mem_wanted_of_growAll (growth_of_reply hunderway ha h)
      hwanted) hnew haccess

/-- **A call that nothing can fail is brought to its end by answers alone.** -/
theorem exists_serve_returns {s : System} {w : Awaiting} (hbase : base.Widens s.registry)
    (hunderway : Underway ans a base s.registry (.waits w))
    (ha : s.awaiting? (.caller id) = some w) (hfree : ¬ Refused ans a base s.registry) :
    ∃ n, .returned id (.ok ()) ∈ (ans.serve (.caller id) n s).2 := by
  obtain ⟨action, hreply⟩ := exists_reply id hunderway
  obtain ⟨o, hworks, hstep, hunderway', hbelow⟩ :=
    exists_work_of_reply hbase hunderway ha hreply
  have hfree' : ¬ Refused ans a base o.system.registry := fun hrefused =>
    hfree (refused_of_work hworks hunderway ha hreply hrefused)
  have hserve : ∀ n, (ans.serve (.caller id) (n + 1) s).2 = (concludeCaller id o).2 ++
      (ans.serve (.caller id) n (concludeCaller id o).1).2 := fun n => by
    simp only [Answers.serve, ha, Option.bind_some, hreply, hstep]
  cases hp : o.progress with
  | finished r =>
    rw [hp] at hunderway'
    cases hunderway' with
    | fails hrefused => exact absurd hrefused hfree'
    | returns hall =>
      refine ⟨1, ?_⟩
      rw [hserve, List.mem_append]
      exact .inl ((returned_mem_concludeCaller (fun r => hworks.grows.returns id r) _).mpr hp)
  | waits w' =>
    have hlt := hbelow w' hp
    have hregistry := registry_concludeCaller id o
    have hwork : Step s action (concludeCaller id o).1 (concludeCaller id o).2 := .works hworks
    have ha' : (concludeCaller id o).1.awaiting? (.caller id) = some w' := by
      rw [awaiting?_concludeCaller hworks.grows, if_pos rfl, hp]
      rfl
    rw [hp, ← hregistry] at hunderway'
    rw [← hregistry] at hfree'
    obtain ⟨n, hn⟩ := exists_serve_returns (hbase.trans hwork.widens) hunderway' ha' hfree'
    refine ⟨n + 1, ?_⟩
    rw [hserve]
    exact List.mem_append_right _ hn
termination_by w.toGo
decreasing_by exact hlt

/-- **What the call for an application depends on.**  Whatever other parties do in the meantime: if
discovery answers for each of its kinds, and every scope that is wanted of one of them by then is
either watched already when the call begins or found listable, then the call does not fail, and it
has returned well or is brought to it by answers alone.  And it does not return well before all
scopes are watched that were wanted of its kinds when it began. -/
theorem components_watched (ans : Answers) (a : Application) (id : Nat) {s s₀ s' : System}
    {notes₀ notes : List Note} {actions : List Action}
    (hcall : s.step (.call id (.watchComponents a)) = some (s₀, notes₀))
    (hrun : s₀.run actions = some (s', notes)) (hstop : ∀ x ∈ actions, x.stops = false)
    (hattend : ans.Attend (.caller id) s₀ actions) :
    ((∀ c ∈ a.componentKinds, ∀ f, ans.resolve c ≠ .error f) →
      (∀ c ∈ a.componentKinds, ∀ kind, ans.resolve c = .ok (some kind) →
        ∀ scope ∈ s'.registry.wanted a kind,
          s.registry.isWatched (kind.gvr, scope) = false → ans.access kind scope = .ok ()) →
      (∀ f, .returned id (.error f) ∉ notes₀ ++ notes) ∧
        (.returned id (.ok ()) ∈ notes₀ ++ notes ∨
          ∃ n, .returned id (.ok ()) ∈ (ans.serve (.caller id) n s').2)) ∧
      (.returned id (.ok ()) ∈ notes₀ ++ notes →
        ∀ c ∈ a.componentKinds, ∀ kind, ans.resolve c = .ok (some kind) →
          ∀ scope ∈ s.registry.wanted a kind,
            s'.registry.isWatched (kind.gvr, scope) = true) := by
  obtain ⟨p₀, h₀⟩ := stands_begin ans hcall
  obtain ⟨p, h⟩ := h₀.run hrun hstop hattend
  have hunderway := h.underway
  constructor
  · intro hresolve haccess
    have hfree : ¬ Refused ans a s.registry s'.registry := by
      intro hrefused
      cases hrefused with
      | discovery hc hfails => exact hresolve _ hc _ hfails
      | access hc hfound hwanted hnew hfails =>
        rw [haccess _ hc _ hfound _ hwanted hnew] at hfails
        cases hfails
    refine ⟨fun f hmem => ?_, ?_⟩
    · rw [(h.returned _).mp hmem] at hunderway
      cases hunderway with
      | fails hrefused => exact hfree hrefused
    · cases p with
      | waits w => exact .inr (exists_serve_returns h.widens hunderway h.waits hfree)
      | finished r =>
        cases hunderway with
        | fails hrefused => exact absurd hrefused hfree
        | returns hall => exact .inl ((h.returned _).mpr rfl)
  · intro hmem
    rw [(h.returned _).mp hmem] at hunderway
    cases hunderway with
    | returns hall => exact hall

deriving instance DecidableEq for Note

/-- An application of the services in a namespace. -/
def sampleApplicationIn (ns : String) : Application where
  resource := { «namespace» := ns, name := "shop" }
  componentKinds := [⟨"", "Service"⟩]

/-- The answer of a cluster to those who may not list. -/
def sampleForbidden : Failure := .transport .unreadable

/-- A cluster that serves services and lets them be listed in some namespaces. -/
def sampleCluster (listable : List String) : Answers where
  resolve _ := .ok (some sampleServices)
  access _ scope := if scope ∈ listable then .ok () else .error sampleForbidden

/-- The call for an application in one namespace has failed there. -/
def sampleRefusal : List Action :=
  [.call 1 (.watchComponents (sampleApplicationIn "vault")),
    .discovered (.caller 1) (.ok (some sampleServices)),
    .checked (.caller 1) (.error sampleForbidden)]

/-- The call for an application in another namespace, answered by the cluster. -/
def sampleCall : Action := .call 2 (.watchComponents (sampleApplicationIn "blue"))

/-- Once the first namespace can be listed too, the call for an application in another namespace
does not fail, and both namespaces are watched when it has returned. -/
theorem components_watched_two_namespaces :
    ∃ s notes s₀ notes₀, sampleQuiet.run sampleRefusal = some (s, notes) ∧
      s.step sampleCall = some (s₀, notes₀) ∧
      let served := (sampleCluster ["blue", "vault"]).serve (.caller 2) 3 s₀
      (∀ f, .returned 2 (.error f) ∉ notes₀ ++ served.2) ∧
        .returned 2 (.ok ()) ∈ notes₀ ++ served.2 ∧
        served.1.registry.isWatched (sampleServices.gvr, "blue") = true ∧
        served.1.registry.isWatched (sampleServices.gvr, "vault") = true := by
  have hend : ((sampleQuiet.run sampleRefusal).any fun r => (r.1.step sampleCall).any fun t =>
      let served := (sampleCluster ["blue", "vault"]).serve (.caller 2) 3 t.1
      r.1.registry.wanted (sampleApplicationIn "blue") sampleServices = ["blue", "vault"] &&
        served.1.registry.wanted (sampleApplicationIn "blue") sampleServices =
          ["blue", "vault"] &&
        .returned 2 (.ok ()) ∈ served.2) = true := by decide
  obtain ⟨⟨s, notes⟩, hrun, hend⟩ := (Option.any_eq_true _ _).mp hend
  obtain ⟨⟨s₀, notes₀⟩, hcall, hend⟩ := (Option.any_eq_true _ _).mp hend
  simp only [Bool.and_eq_true, decide_eq_true_eq] at hend
  obtain ⟨⟨hbefore, hafter⟩, hok⟩ := hend
  obtain ⟨answers, hparties, hattend, hserved⟩ :=
    (sampleCluster ["blue", "vault"]).exists_run_serve (.caller 2) 3 s₀
  obtain ⟨hfree, hwatched⟩ := components_watched (sampleCluster ["blue", "vault"])
    (sampleApplicationIn "blue") 2 hcall hserved
    (fun x hx => stops_of_party? (hparties x hx)) hattend
  have hresolve : ∀ c kind, (sampleCluster ["blue", "vault"]).resolve c = .ok (some kind) →
      kind = sampleServices := fun c kind h => by
    cases h
    rfl
  have hreturned := List.mem_append_right notes₀ hok
  have hall := hwatched hreturned ⟨"", "Service"⟩ (List.mem_singleton_self _) sampleServices rfl
  rw [hbefore] at hall
  refine ⟨s, notes, s₀, notes₀, hrun, hcall, ?_, hreturned, hall _ (by simp), hall _ (by simp)⟩
  refine (hfree (fun c _ f h => by cases h) fun c _ kind hkind scope hscope _ => ?_).1
  rw [hresolve c kind hkind, hafter] at hscope
  exact if_pos hscope

/-- **A namespace of another application fails the call.**  Services of an application in one
namespace may not be listed there, and its call has failed.  The call for an application in another
namespace, where services may be listed, fails of the same refusal. -/
theorem refused_elsewhere_fails :
    ∃ s notes s₀ notes₀, sampleQuiet.run sampleRefusal = some (s, notes) ∧
      (∀ c ∈ (sampleApplicationIn "blue").componentKinds,
        (sampleCluster ["blue"]).resolve c = .ok (some sampleServices)) ∧
      (∀ scope ∈ (sampleApplicationIn "blue").namespacesFor sampleServices,
        (sampleCluster ["blue"]).access sampleServices scope = .ok ()) ∧
      s.step sampleCall = some (s₀, notes₀) ∧
      .returned 2 (.error (.cannotList sampleServices "vault" sampleForbidden)) ∈
        ((sampleCluster ["blue"]).serve (.caller 2) 3 s₀).2 := by
  have hend : ((sampleQuiet.run sampleRefusal).any fun r => (r.1.step sampleCall).any fun t =>
      .returned 2 (.error (.cannotList sampleServices "vault" sampleForbidden)) ∈
        ((sampleCluster ["blue"]).serve (.caller 2) 3 t.1).2) = true := by decide
  obtain ⟨⟨s, notes⟩, hrun, hend⟩ := (Option.any_eq_true _ _).mp hend
  obtain ⟨⟨s₀, notes₀⟩, hcall, hend⟩ := (Option.any_eq_true _ _).mp hend
  refine ⟨s, notes, s₀, notes₀, hrun, fun _ _ => rfl, ?_, hcall, of_decide_eq_true hend⟩
  have hown : (sampleApplicationIn "blue").namespacesFor sampleServices = ["blue"] := rfl
  rw [hown]
  exact fun scope hscope => if_pos hscope

end System

end AppWatch
