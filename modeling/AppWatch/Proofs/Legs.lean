/-
# The legs of a call for an application

A call for an application takes the declared kinds one after the other.  For each it waits for
discovery's answer; if there is such a kind, it permits the application's namespaces, has the scopes
checked that are new then and opens them.  So what a party does in the call falls into legs, one
for each kind that the call has come to (`Legs`), and a leg tells all of the party's deeds in its
part of the run: in it the kind is skipped, or exactly the new scopes are checked and opened
(`Leg`).

While the answers are good the call keeps this course, whatever others do (`Course.step`).  An
answer that is not good ends it in a last leg, which opens nothing and asks nothing more
(`Course.fails`, `LastLeg`).  Since the legs tell everything, nothing is done for the kinds that are
left.  That somebody stops the engine matters for what is watched in the end (`Legs.isWatched`), and
not for what the party does.
-/
import AppWatch.Proofs.Deeds

namespace AppWatch

/-- The declared kind about which discovery is asked. -/
def ClientCall.component? : ClientCall → Option GroupKind
  | .resolve c => some c
  | _ => none

/-- The declared kinds about which a party has asked discovery. -/
def Deeds.resolved (d : Deeds) : List GroupKind := d.questions.filterMap ClientCall.component?

theorem Deeds.resolved_append (d e : Deeds) :
    (d ++ e).resolved = d.resolved ++ e.resolved := List.filterMap_append

/-- Permissions alone change no watcher and ask for no watch. -/
theorem Registry.growAll_of_permits {r : Registry} {gs : List Growth}
    (h : ∀ g ∈ gs, ∃ gvr namespaces, g = .permit gvr namespaces) :
    (r.growAll gs).1.watchers = r.watchers ∧ (r.growAll gs).2 = [] := by
  induction gs generalizing r with
  | nil => exact ⟨rfl, rfl⟩
  | cons g gs ih =>
    obtain ⟨⟨gvr, namespaces, rfl⟩, hrest⟩ := List.forall_mem_cons.mp h
    exact ih hrest

/-- Whether a plan is no application's any more. -/
def Plan.isLast : Plan → Bool
  | .components _ _ _ => false
  | .done | .sendBatch _ _ => true

namespace System

/-! ## 1. Scopes of a kind -/

section Checks

variable {party : Party} {told : Action} {granted : List Growth} {kind : KindDescriptor}
  {checked : List String} {scope : String} {questions : List ClientCall} {f : Failure}

/-- The answers of a party for whom some scopes were found listable. -/
def listable (party : Party) (scopes : List String) : List Action :=
  scopes.map fun _ => .checked party (.ok ())

/-- What a party has done that was told of a kind, has had some scopes checked and asks about the
next. -/
def checking (party : Party) (told : Action) (granted : List Growth) (kind : KindDescriptor)
    (checked : List String) (scope : String) : Deeds :=
  ⟨told :: listable party checked, (checked ++ [scope]).map (.check kind), granted⟩

/-- What a party has done that was told of a kind, has had some scopes checked, in this order, and
has then opened them; in the end it asks what is to be asked next. -/
def opening (party : Party) (told : Action) (granted : List Growth) (kind : KindDescriptor)
    (scopes : List String) (questions : List ClientCall) : Deeds :=
  ⟨told :: listable party scopes, scopes.map (.check kind) ++ questions,
    granted ++ [.watch kind scopes]⟩

/-- What a party has done that was told of a kind and was refused a scope of it. -/
def refusing (party : Party) (told : Action) (granted : List Growth) (kind : KindDescriptor)
    (checked : List String) (scope : String) (f : Failure) : Deeds :=
  ⟨told :: (listable party checked ++ [.checked party (.error f)]),
    (checked ++ [scope]).map (.check kind), granted⟩

theorem checking_append_passed (scope' : String) :
    checking party told granted kind checked scope ++
        ⟨[.checked party (.ok ())], [.check kind scope'], []⟩ =
      checking party told granted kind (checked ++ [scope]) scope' := by
  simp [checking, listable]

theorem checking_append_opened :
    checking party told granted kind checked scope ++
        ⟨[.checked party (.ok ())], questions, [.watch kind (checked ++ [scope])]⟩ =
      opening party told granted kind (checked ++ [scope]) questions := by
  simp [checking, opening, listable]

theorem checking_append_refused :
    checking party told granted kind checked scope ++ ⟨[.checked party (.error f)], [], []⟩ =
      refusing party told granted kind checked scope f := by
  simp [checking, refusing]

end Checks

/-! ## 2. The course of a call for an application -/

/-- In a run discovery has found a kind for a party, over this registry. -/
def Discovers (party : Party) (kind : KindDescriptor) (s : System) (actions : List Action)
    (r : Registry) : Prop :=
  ∃ before after s₁ notes₁, actions = before ++ .discovered party (.ok (some kind)) :: after ∧
    s.run before = some (s₁, notes₁) ∧ s₁.registry = r

/-- The part of a call for an application that is about one declared kind, by what discovery has
found for it and over which registry; in the end the party asks what is to be asked next. -/
inductive Leg (party : Party) (a : Application) (s : System) (actions : List Action)
    (questions : List ClientCall) : Option (KindDescriptor × Registry) → Prop where
  /-- The kind is unknown. -/
  | skipped (hdeeds : s.deeds party actions = ⟨[.discovered party (.ok none)], questions, []⟩) :
      Leg party a s actions questions none
  /-- The application's namespaces are permitted, and the scopes that are new then are checked and
  opened. -/
  | watched {kind : KindDescriptor} {r : Registry} (hfound : Discovers party kind s actions r)
      (hdeeds : s.deeds party actions = opening party (.discovered party (.ok (some kind)))
        [.permit kind.gvr (a.namespacesFor kind)] kind ((r.permitFor a kind).newScopes kind)
        questions) :
      Leg party a s actions questions (some (kind, r))

/-- The part of a call that is about the kind at which it fails. -/
inductive LastLeg (party : Party) (a : Application) (s : System) (actions : List Action) :
    Prop where
  /-- Discovery has failed. -/
  | unresolved {f : Failure}
      (hdeeds : s.deeds party actions = ⟨[.discovered party (.error f)], [], []⟩) :
      LastLeg party a s actions
  /-- The application's namespaces are permitted, and one of the scopes that are new then is
  refused. -/
  | refused {kind : KindDescriptor} {r : Registry} {checked left : List String} {scope : String}
      {f : Failure} (hfound : Discovers party kind s actions r)
      (hscopes : (r.permitFor a kind).newScopes kind = checked ++ scope :: left)
      (hdeeds : s.deeds party actions = refusing party (.discovered party (.ok (some kind)))
        [.permit kind.gvr (a.namespacesFor kind)] kind checked scope f) :
      LastLeg party a s actions

/-- A call for an application has come from the question about its first kind, in a run into a
state, to the question about another: these kinds are behind it, with what was found for them, and
those are ahead of it. -/
inductive Legs (party : Party) (a : Application) (next : Plan) (s : System) : List GroupKind →
    List (Option (KindDescriptor × Registry)) → List GroupKind → List Action → System → Prop where
  | start {c : GroupKind} {rest : List GroupKind} (hkinds : a.componentKinds = c :: rest)
      (ha : s.awaiting? party = some (.discovery a c rest next)) :
      Legs party a next s [] [] (c :: rest) [] s
  | leg {past rest : List GroupKind} {found : List (Option (KindDescriptor × Registry))}
      {c c' : GroupKind} {before actions : List Action} {s₁ s₂ : System} {notes : List Note}
      {x : Option (KindDescriptor × Registry)}
      (hbefore : Legs party a next s past found (c :: c' :: rest) before s₁)
      (hrun : s₁.run actions = some (s₂, notes)) (hleg : Leg party a s₁ actions [.resolve c'] x)
      (ha : s₂.awaiting? party = some (.discovery a c' rest next)) :
      Legs party a next s (past ++ [c]) (found ++ [x]) (c' :: rest) (before ++ actions) s₂

/-- How far a call for an application has come with good answers. -/
inductive Course (party : Party) (a : Application) (next : Plan) (s₀ : System) :
    List Action → System → Prop where
  /-- Discovery is asked for a kind, and the party has done nothing since. -/
  | asks {past rest : List GroupKind} {found : List (Option (KindDescriptor × Registry))}
      {c : GroupKind} {before seg : List Action} {s₁ s : System} {notes : List Note}
      (hlegs : Legs party a next s₀ past found (c :: rest) before s₁)
      (hrun : s₁.run seg = some (s, notes)) (hdeeds : s₁.deeds party seg = .nothing)
      (ha : s.awaiting? party = some (.discovery a c rest next)) :
      Course party a next s₀ (before ++ seg) s
  /-- A kind was found, and the scopes that were new then are being checked. -/
  | checks {past rest : List GroupKind} {found : List (Option (KindDescriptor × Registry))}
      {c : GroupKind} {before seg : List Action} {s₁ s : System} {notes : List Note}
      {kind : KindDescriptor} {r : Registry} {checked left : List String} {scope : String}
      (hlegs : Legs party a next s₀ past found (c :: rest) before s₁)
      (hrun : s₁.run seg = some (s, notes)) (hfound : Discovers party kind s₁ seg r)
      (hscopes : (r.permitFor a kind).newScopes kind = checked ++ scope :: left)
      (hdeeds : s₁.deeds party seg = checking party (.discovered party (.ok (some kind)))
        [.permit kind.gvr (a.namespacesFor kind)] kind checked scope)
      (ha : s.awaiting? party = some (.access kind ((r.permitFor a kind).newScopes kind) scope left
        (.components a rest next))) :
      Course party a next s₀ (before ++ seg) s
  /-- The call has come to its end, and the party gets no answers any more. -/
  | ended {actions : List Action} {s : System}
      (hended : ∀ w, s.awaiting? party = some w → w = .room) :
      Course party a next s₀ actions s

variable {s s' s₀ s₁ s₂ : System} {party : Party} {action : Action}
  {actions before after seg : List Action} {notes notes' : List Note} {a : Application}
  {c : GroupKind} {past ahead rest : List GroupKind} {next : Plan} {kind : KindDescriptor}
  {scopes left : List String} {scope : String} {found : List (Option (KindDescriptor × Registry))}
  {x : Option (KindDescriptor × Registry)} {r : Registry}

theorem Discovers.append (h : Discovers party kind s before r) (after : List Action) :
    Discovers party kind s (before ++ after) r := by
  obtain ⟨first, last, s₁, notes₁, rfl, hrun, hr⟩ := h
  refine ⟨first, last ++ after, s₁, notes₁, ?_, hrun, hr⟩
  rw [List.append_assoc, List.cons_append]

theorem Legs.kinds (h : Legs party a next s past found ahead before s₁) :
    a.componentKinds = past ++ ahead := by
  induction h with
  | start hkinds => exact hkinds
  | leg _ _ _ _ ih => rw [ih, List.append_assoc, List.singleton_append]

theorem Legs.run (h : Legs party a next s past found ahead before s₁) :
    ∃ notes, s.run before = some (s₁, notes) := by
  induction h with
  | start => exact ⟨[], rfl⟩
  | leg _ hrun _ _ ih =>
    obtain ⟨notes, hbefore⟩ := ih
    exact ⟨_, run_append hbefore hrun⟩

/-- What others do leaves a party waiting, or takes its wait away if they stop its kind. -/
theorem awaiting?_of_ne (hs : s.step action = some (s', notes))
    (hp : action.party? ≠ some party) :
    s'.awaiting? party = none ∨ s'.awaiting? party = s.awaiting? party := by
  cases hstop : action.stops with
  | false => exact .inr ((step_cases hs hstop).awaiting?_eq hp)
  | true =>
    cases hw : s'.awaiting? party with
    | none => exact .inl rfl
    | some w => exact .inr ((stopped_of_stops hs hstop).1.waits hw).symm

/-- A plan that is no application's ends in a wait for room at most. -/
theorem pursue_of_isLast (h : next.isLast = true) (s : System) (party : Party) {w : Awaiting}
    (hw : (s.pursue party next).progress.awaiting? = some w) : w = .room := by
  cases next with
  | done => cases hw
  | components => cases h
  | sendBatch kind change => exact s.sendChange_waits party (Progress.eq_waits hw)

/-- With a leg behind it a call goes on with the kinds that are left, or is over. -/
theorem course_pursue (hlast : next.isLast = true)
    (hlegs : Legs party a next s₀ past found (c :: rest) before s₁)
    (hrun : s₁.run seg = some (s', notes)) (t : System)
    (hwaits : s'.awaiting? party =
      (t.pursue party (.components a rest next)).progress.awaiting?)
    (hleg : Leg party a s₁ seg
      (t.pursue party (.components a rest next)).progress.question?.toList x) :
    Course party a next s₀ (before ++ seg) s' := by
  cases rest with
  | nil =>
    refine .ended fun w hw => ?_
    rw [hwaits] at hw
    exact pursue_of_isLast hlast t party hw
  | cons c' rest =>
    have hmore : Legs party a next s₀ (past ++ [c]) (found ++ [x]) (c' :: rest) (before ++ seg)
        s' := .leg hlegs hrun hleg hwaits
    rw [← List.append_nil (before ++ seg)]
    exact .asks hmore rfl rfl hwaits

/-- Discovery's answer brings a call to the scopes of the kind, to the next kind or to its end. -/
theorem Course.discovered {answer : Option KindDescriptor} (hlast : next.isLast = true)
    (hlegs : Legs party a next s₀ past found (c :: rest) before s₁)
    (hrun : s₁.run seg = some (s, notes)) (hdeeds : s₁.deeds party seg = .nothing)
    (ha : s.awaiting? party = some (.discovery a c rest next))
    (hs : s.step (.discovered party (.ok answer)) = some (s', notes')) :
    Course party a next s₀ (before ++ seg ++ [.discovered party (.ok answer)]) s' := by
  have hcomes := comes_discovered ha hs
  have hrun' := run_append hrun (run_one hs)
  have hsnoc := hcomes.deeds hrun hs
  rw [hdeeds, Deeds.nothing_append] at hsnoc
  rw [List.append_assoc]
  cases answer with
  | none => exact course_pursue hlast hlegs hrun' s hcomes.waits (.skipped hsnoc)
  | some kind =>
    have hfound : Discovers party kind s₁ (seg ++ [.discovered party (.ok (some kind))])
        s.registry := ⟨seg, [], s, notes, rfl, hrun, rfl⟩
    have hwaits := hcomes.waits
    rw [growth_discovered ha] at hsnoc
    simp only [onDiscovery, addToWatch] at hwaits hsnoc
    cases hnew : (s.registry.permitFor a kind).newScopes kind with
    | nil =>
      simp only [hnew, checkScopes, ↓reduceIte] at hwaits hsnoc
      refine course_pursue hlast hlegs hrun' _ hwaits (.watched hfound ?_)
      rw [hsnoc, hnew]
      rfl
    | cons scope left =>
      have hscopes : (s.registry.permitFor a kind).newScopes kind = [] ++ scope :: left := hnew
      simp only [hnew, checkScopes, reduceCtorEq, ↓reduceIte] at hwaits hsnoc
      refine .checks hlegs hrun' hfound hscopes hsnoc ?_
      rw [hwaits, hnew]
      rfl

/-- A passed check brings a call to the next scope, or with the last of them to the next kind or to
its end. -/
theorem Course.checked {checked : List String} (hlast : next.isLast = true)
    (hlegs : Legs party a next s₀ past found (c :: rest) before s₁)
    (hrun : s₁.run seg = some (s, notes)) (hfound : Discovers party kind s₁ seg r)
    (hscopes : (r.permitFor a kind).newScopes kind = checked ++ scope :: left)
    (hdeeds : s₁.deeds party seg = checking party (.discovered party (.ok (some kind)))
      [.permit kind.gvr (a.namespacesFor kind)] kind checked scope)
    (ha : s.awaiting? party = some (.access kind ((r.permitFor a kind).newScopes kind) scope left
      (.components a rest next)))
    (hs : s.step (.checked party (.ok ())) = some (s', notes')) :
    Course party a next s₀ (before ++ seg ++ [.checked party (.ok ())]) s' := by
  have hcomes := comes_checked ha hs
  have hrun' := run_append hrun (run_one hs)
  have hfound' := hfound.append [.checked party (.ok ())]
  have hwaits := hcomes.waits
  have hsnoc := hcomes.deeds hrun hs
  rw [hdeeds, growth_checked ha] at hsnoc
  rw [List.append_assoc]
  cases left with
  | nil =>
    simp only [hscopes, ↓reduceIte] at hsnoc
    rw [checking_append_opened, ← hscopes] at hsnoc
    exact course_pursue hlast hlegs hrun' _ hwaits (.watched hfound' hsnoc)
  | cons scope' left =>
    simp only [reduceCtorEq, ↓reduceIte] at hsnoc
    have hpassed := hsnoc.trans (checking_append_passed scope')
    rw [List.append_cons] at hscopes
    exact .checks hlegs hrun' hfound' hscopes hpassed hwaits

/-- **While a party is given good answers its call keeps its course**, whatever others do. -/
theorem Course.step (h : Course party a next s₀ actions s) (hlast : next.isLast = true)
    (hs : s.step action = some (s', notes))
    (hgood : action.party? = some party → action.isGood = true) :
    Course party a next s₀ (actions ++ [action]) s' := by
  by_cases hp : action.party? = some party
  case neg =>
    rcases awaiting?_of_ne hs hp with hnone | hsame
    · refine .ended fun w hw => ?_
      rw [hnone] at hw
      cases hw
    cases h with
    | asks hlegs hrun hdeeds ha =>
      rw [List.append_assoc]
      refine .asks hlegs (run_append hrun (run_one hs)) ?_ (hsame.trans ha)
      rw [deeds_snoc hrun hs, hdeeds, deed_of_ne hp, Deeds.append_nothing]
    | checks hlegs hrun hfound hscopes hdeeds ha =>
      rw [List.append_assoc]
      refine .checks hlegs (run_append hrun (run_one hs)) (hfound.append _) hscopes ?_
        (hsame.trans ha)
      rw [deeds_snoc hrun hs, hdeeds, deed_of_ne hp, Deeds.append_nothing]
    | ended hended =>
      rw [← hsame] at hended
      exact .ended hended
  rcases Action.isGood_cases hp (hgood hp) with ⟨answer, rfl⟩ | rfl
  · obtain ⟨a', c', rest', next', hdiscovery, -⟩ := (step_cases hs rfl).discovered
    cases h with
    | asks hlegs hrun hdeeds ha => exact .discovered hlast hlegs hrun hdeeds ha hs
    | checks _ _ _ _ _ ha => cases ha.symm.trans hdiscovery
    | ended hended => cases hended _ hdiscovery
  · obtain ⟨kind', scopes', scope', left', next', haccess, -⟩ := (step_cases hs rfl).checked
    cases h with
    | asks _ _ _ ha => cases ha.symm.trans haccess
    | checks hlegs hrun hfound hscopes hdeeds ha =>
      exact .checked hlast hlegs hrun hfound hscopes hdeeds ha hs
    | ended hended => cases hended _ haccess

theorem Course.run (h : Course party a next s₀ before s) (hlast : next.isLast = true)
    (hrun : s.run actions = some (s', notes))
    (hgood : ∀ x ∈ actions, x.party? = some party → x.isGood = true) :
    Course party a next s₀ (before ++ actions) s' := by
  induction actions generalizing s before notes with
  | nil =>
    cases hrun
    rw [List.append_nil]
    exact h
  | cons action rest ih =>
    obtain ⟨hfirst, hgood⟩ := List.forall_mem_cons.mp hgood
    obtain ⟨s₁, notes₁, notes₂, hs, hmore, -⟩ := run_cons hrun
    rw [List.append_cons]
    exact ih (h.step hlast hs hfirst) hmore hgood

/-- An answer that is not good ends the call in its last leg. -/
theorem Course.fails (h : Course party a next s₀ actions s)
    (hs : s.step action = some (s', notes)) (hp : action.party? = some party)
    (hanswer : action.isAnswer = true) (hbad : action.isGood = false) :
    ∃ past found c rest before seg s₁, Legs party a next s₀ past found (c :: rest) before s₁ ∧
      actions ++ [action] = before ++ seg ∧ LastLeg party a s₁ seg := by
  cases action with
  | discovered party reply =>
    obtain rfl := Option.some.inj hp
    obtain ⟨a', c', rest', next', hdiscovery, -⟩ := (step_cases hs rfl).discovered
    cases h with
    | @asks past rest found c before seg s₁ s notes hlegs hrun hdeeds ha =>
      refine ⟨past, found, c, rest, before, _, s₁, hlegs, List.append_assoc _ _ _, ?_⟩
      cases reply with
      | ok answer => cases hbad
      | error f =>
        have hsnoc := (comes_discovered ha hs).deeds hrun hs
        rw [hdeeds] at hsnoc
        exact .unresolved hsnoc
    | checks _ _ _ _ _ ha => cases ha.symm.trans hdiscovery
    | ended hended => cases hended _ hdiscovery
  | checked party reply =>
    obtain rfl := Option.some.inj hp
    obtain ⟨kind', scopes', scope', left', next', haccess, -⟩ := (step_cases hs rfl).checked
    cases h with
    | asks _ _ _ ha => cases ha.symm.trans haccess
    | @checks past rest found c before seg s₁ s notes kind r checked left scope hlegs hrun hfound
        hscopes hdeeds ha =>
      refine ⟨past, found, c, rest, before, _, s₁, hlegs, List.append_assoc _ _ _, ?_⟩
      cases reply with
      | ok _ => cases hbad
      | error f =>
        have hsnoc := (comes_checked ha hs).deeds hrun hs
        rw [hdeeds] at hsnoc
        exact .refused (hfound.append _) hscopes (hsnoc.trans checking_append_refused)
    | ended hended => cases hended _ haccess
  | _ => cases hanswer

/-! ## 3. What a leg leaves watched -/

/-- Unless something is stopped, a kind for which a call was not broken off is watched in the end
in all the scopes in which the application wanted it when it was found. -/
theorem Leg.isWatched {questions : List ClientCall}
    (h : Leg party a s actions questions (some (kind, r)))
    (hrun : s.run actions = some (s', notes)) (hstop : ∀ x ∈ actions, x.stops = false)
    (hscope : scope ∈ r.wanted a kind) : s'.registry.isWatched (kind.gvr, scope) = true := by
  cases h with
  | watched hfound hdeeds =>
  -- A scope that was watched when the kind was found stays so; any other is opened in the leg.
  cases hbefore : r.isWatched (kind.gvr, scope) with
  | true =>
    obtain ⟨first, last, s₁, notes₁, rfl, hfirst, rfl⟩ := hfound
    obtain ⟨notes₂, hlast⟩ := exists_run_after hrun hfirst
    have hcalm := fun x hx => hstop x (List.mem_append_right first hx)
    exact (widens_run hlast hcalm).watched hbefore
  | false =>
    have hnew : scope ∈ (r.permitFor a kind).newScopes kind := by
      rw [Registry.mem_newScopes, Registry.isWatched_permitFor]
      exact ⟨hscope, hbefore⟩
    have hopens : Growth.watch kind ((r.permitFor a kind).newScopes kind) ∈
        (s.deeds party actions).growths := by
      rw [hdeeds]
      exact List.mem_append_right _ (List.mem_singleton_self _)
    obtain ⟨first, action, last, s₁, notes₁, rfl, hfirst, hp, hmem⟩ :=
      exists_of_mem_growths hrun hopens
    obtain ⟨notes₂, hlast⟩ := exists_run_after hrun hfirst
    obtain ⟨s₂, notes₃, notes₄, hs, hmore, -⟩ := run_cons hlast
    have hopened : s₂.registry.isWatched (kind.gvr, scope) = true :=
      (step_cases hs (stops_of_party? hp)).grown.1.widens.watched
        (Registry.isWatched_growAll hmem hnew)
    have hcalm := fun x hx =>
      hstop x (List.mem_append_right first (List.mem_cons_of_mem action hx))
    exact (widens_run hmore hcalm).watched hopened

theorem Legs.isWatched (h : Legs party a next s past found ahead before s₁)
    (hstop : ∀ x ∈ before, x.stops = false) (hkind : some (kind, r) ∈ found)
    (hscope : scope ∈ r.wanted a kind) : s₁.registry.isWatched (kind.gvr, scope) = true := by
  induction h with
  | start => cases hkind
  | leg _ hrun hleg _ ih =>
    obtain ⟨hbefore, hactions⟩ := List.forall_mem_append.mp hstop
    rcases List.mem_append.mp hkind with hkind | hkind
    · exact (widens_run hrun hactions).watched (ih hbefore hkind)
    · rw [← List.mem_singleton.mp hkind] at hleg
      exact hleg.isWatched hrun hactions hscope

/-! ## 4. What is asked and opened in a leg -/

/-- Checks are no questions to discovery. -/
theorem component?_checks (kind : KindDescriptor) (scopes : List String) :
    (scopes.map (ClientCall.check kind)).filterMap ClientCall.component? = [] := by
  rw [List.filterMap_map, List.filterMap_eq_nil_iff]
  exact fun scope _ => rfl

/-- In a leg discovery is asked for the next kind only. -/
theorem Leg.resolved (h : Leg party a s actions questions x) :
    (s.deeds party actions).resolved = questions.filterMap ClientCall.component? := by
  cases h with
  | skipped hdeeds => rw [hdeeds, Deeds.resolved]
  | watched hfound hdeeds =>
    rw [hdeeds, Deeds.resolved, opening, List.filterMap_append, component?_checks, List.nil_append]

theorem LastLeg.resolved (h : LastLeg party a s actions) :
    (s.deeds party actions).resolved = [] := by
  cases h with
  | unresolved hdeeds =>
    rw [hdeeds]
    rfl
  | refused hfound hscopes hdeeds => rw [hdeeds, Deeds.resolved, refusing, component?_checks]

/-- Up to a kind discovery was asked for the kinds before it and for itself; for the first of them
it was asked before. -/
theorem Legs.resolved (h : Legs party a next s past found (c :: rest) before s₁) :
    (s.deeds party before).resolved = (past ++ [c]).tail := by
  generalize hahead : c :: rest = ahead at h
  induction h generalizing c rest with
  | start => rfl
  | @leg past rest' found c₁ c' before actions s₁ s₂ notes x hbefore hrun hleg ha ih =>
    obtain ⟨notes₁, hfirst⟩ := hbefore.run
    cases hahead
    rw [deeds_append hfirst, Deeds.resolved_append, ih rfl, hleg.resolved,
      List.tail_append_of_ne_nil (List.append_ne_nil_of_right_ne_nil _ (List.cons_ne_nil _ _))]
    rfl

/-- The last leg of a call that fails adds no watcher and no scope and asks for no watch. -/
theorem LastLeg.unopened (h : LastLeg party a s actions)
    (hown : s.OwnStep party actions s₁ s₂ notes₂) :
    Note.watches notes₂ = [] ∧ ∀ gvr, (s₂.registry.watcher? gvr).map Watcher.watching =
      (s₁.registry.watcher? gvr).map Watcher.watching := by
  obtain ⟨before, action, after, notes₁, rfl, hrun, hs, hp⟩ := hown
  have hpermits : ∀ g ∈ s₁.growth action, ∃ gvr namespaces, g = .permit gvr namespaces := by
    intro g hg
    have hmem := mem_growths_deeds hrun hs hp hg after
    cases h with
    | unresolved hdeeds =>
      rw [hdeeds] at hmem
      cases hmem
    | refused hfound hscopes hdeeds =>
      rw [hdeeds] at hmem
      exact ⟨_, _, List.mem_singleton.mp hmem⟩
  obtain ⟨hsame, hwatches⟩ := (step_cases hs (stops_of_party? hp)).grown
  obtain ⟨hwatchers, hnone⟩ := Registry.growAll_of_permits (r := s₁.registry) hpermits
  refine ⟨hwatches.trans hnone, fun gvr => ?_⟩
  rw [hsame.watching, Registry.watcher?, hwatchers]
  rfl

end System

end AppWatch
