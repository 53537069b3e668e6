/-
# A watch that fails to start

To have a kind watched, a party asks about its new scopes one after the other and opens all of them
when the last was found listable.  A refusal ends this with nothing opened.  A call for an
application does the same for one declared kind after the other and ends with the first that fails.

A call that has a kind watched and fails has asked about the new scopes up to the first that is
refused, and there is no growth among its deeds (`addStands_run`).  A call for an application that
fails falls into legs (`Legs`), of which the last opens nothing.  It may belong to a worker as well
as to a caller.  That it fails is read off the answers (`System.Fails`): all are good but the last.
For a caller this is what the engine says (`exists_fails_of_returned`).
-/
import AppWatch.Proofs.Legs

namespace AppWatch

namespace System

variable {s s' s₀ s₁ s₂ : System} {party : Party} {action : Action} {actions past : List Action}
  {notes notes' notes₂ : List Note} {a : Application} {next : Plan} {kind : KindDescriptor}
  {id : Nat} {p : Progress} {f : Failure}

/-! ## 1. A call for one kind -/

/-- How far a call to have a kind watched has come, with what the caller has done in it; the new
scopes were these when it began. -/
inductive Adding (id : Nat) (kind : KindDescriptor) (scopes : List String) :
    Deeds → Progress → Prop where
  /-- Some scopes were found listable, and the next is asked about. -/
  | checks {checked left : List String} {scope : String}
      (hscopes : scopes = checked ++ scope :: left) :
      Adding id kind scopes
        (checking (.caller id) (.call id (.addToWatch kind)) [] kind checked scope)
        (.waits (.access kind scopes scope left .done))
  | watched {d : Deeds} : Adding id kind scopes d (.finished (.ok ()))
  | refused {checked left : List String} {scope : String} {f : Failure}
      (hscopes : scopes = checked ++ scope :: left) :
      Adding id kind scopes
        (refusing (.caller id) (.call id (.addToWatch kind)) [] kind checked scope f)
        (.finished (.error (refusal kind scope f)))

/-- How a call to have a kind watched stands in a run that began with it: what the caller waits for,
what has returned, and how far it has come. -/
structure AddStands (id : Nat) (kind : KindDescriptor) (s₀ : System) (past : List Action)
    (s : System) (notes : List Note) (p : Progress) : Prop where
  run : s₀.run past = some (s, notes)
  waits : s.awaiting? (.caller id) = p.awaiting?
  returned : ∀ result, .returned id result ∈ notes ↔ p = .finished result
  adding : Adding id kind (s₀.registry.newScopes kind) (s₀.deeds (.caller id) past) p

theorem AddStands.step (h : AddStands id kind s₀ past s notes p)
    (hs : s.step action = some (s', notes'))
    (hanswer : action.party? = some (.caller id) → action.isAnswer = true) :
    ∃ p', AddStands id kind s₀ (past ++ [action]) s' (notes ++ notes') p' := by
  have hrun := run_append h.run (run_one hs)
  by_cases hp : action.party? = some (.caller id)
  case neg =>
    refine ⟨p, hrun, (awaiting?_caller_of_ne hs hp).trans h.waits, fun result => ?_, ?_⟩
    · rw [List.mem_append, h.returned]
      exact or_iff_left fun hmem => hp (party?_of_returned hs hmem)
    · rw [deeds_snoc h.run hs, deed_of_ne hp, Deeds.append_nothing]
      exact h.adding
  obtain ⟨w, ha⟩ := exists_awaiting_of_answer hs hp (hanswer hp)
  obtain rfl : p = .waits w := Progress.eq_waits (h.waits.symm.trans ha)
  obtain ⟨hpast, -, hreturned, hadding⟩ := h
  generalize hdeeds : s₀.deeds (.caller id) past = d at hadding
  cases hadding with
  | @checks checked left scope hscopes =>
  cases action with
  | discovered party reply =>
    obtain rfl := Option.some.inj hp
    obtain ⟨a, c, rest, next, hdiscovery, -⟩ := (step_cases hs rfl).discovered
    cases ha.symm.trans hdiscovery
  | checked party reply =>
    obtain rfl := Option.some.inj hp
    have hcomes := comes_checked ha hs
    have hsnoc := hcomes.deeds hpast hs
    rw [hdeeds] at hsnoc
    refine ⟨_, hrun, hcomes.waits, fun result => ?_, ?_⟩
    · rw [List.mem_append, hcomes.returned id rfl]
      refine or_iff_right fun hmem => ?_
      cases (hreturned result).mp hmem
    cases reply with
    | error f =>
      rw [hsnoc.trans checking_append_refused]
      exact .refused hscopes
    | ok _ =>
      rw [growth_checked ha] at hsnoc
      cases left with
      | nil => exact .watched
      | cons scope' left =>
        rw [hsnoc.trans (checking_append_passed scope')]
        refine .checks ?_
        rw [hscopes, List.append_cons]
  | _ => cases hanswer hp

/-- A call begins with the question about the first of the new scopes; without any it is over. -/
theorem addStands_begin (hs : s.step (.call id (.addToWatch kind)) = some (s', notes)) :
    ∃ p, AddStands id kind s [.call id (.addToWatch kind)] s' notes p := by
  have hcomes := comes_called (o := s.addToWatch (.caller id) kind .done) rfl hs
  refine ⟨_, run_one hs, hcomes.waits, hcomes.returned id rfl, ?_⟩
  rw [deeds_cons hs, deeds, Deeds.append_nothing, hcomes.deed]
  cases hnew : s.registry.newScopes kind with
  | nil =>
    simp only [addToWatch, hnew, checkScopes]
    exact .watched
  | cons scope left =>
    have hscopes : scope :: left = [] ++ scope :: left := rfl
    simp only [addToWatch, hnew, checkScopes, growth, reduceCtorEq, ↓reduceIte]
    exact .checks hscopes

theorem addStands_run (hrun : s.run (.call id (.addToWatch kind) :: actions) = some (s', notes))
    (hanswers : ∀ x ∈ actions, x.party? = some (.caller id) → x.isAnswer = true) :
    ∃ p, AddStands id kind s (.call id (.addToWatch kind) :: actions) s' notes p := by
  obtain ⟨s₁, notes₁, notes₂, hs, hmore, rfl⟩ := run_cons hrun
  refine run_keeps (P := fun past s' notes => ∃ p, AddStands id kind s past s' notes p) ?_
    (addStands_begin hs) hmore hanswers
  rintro past s₁ notes₁ action s₂ notes₂ ⟨p, h⟩ hanswer hs
  exact h.step hs hanswer

/-- A caller who brings no growth leaves the registry as it is and asks for no watch. -/
theorem OwnStep.registry_eq (h : s.OwnStep (.caller id) actions s₁ s₂ notes₂)
    (hnone : (s.deeds (.caller id) actions).growths = []) :
    s₂.registry = s₁.registry ∧ Note.watches notes₂ = [] := by
  obtain ⟨before, action, after, notes₁, rfl, hrun, hs, hp⟩ := h
  have hgrowth : s₁.growth action = [] := List.eq_nil_iff_forall_not_mem.mpr fun g hg => by
    have hmem := mem_growths_deeds hrun hs hp hg after
    rw [hnone] at hmem
    cases hmem
  have hregistry := registry_of_caller hs hp
  rw [hgrowth] at hregistry
  exact hregistry

/-! ## 2. Calls that fail -/

/-- A call for an application fails: from the question for the first declared kind on the party is
given good answers only, and then one that is not. -/
def Fails (s : System) (party : Party) (a : Application) (next : Plan) (actions : List Action) :
    Prop :=
  ∃ c rest during bad, a.componentKinds = c :: rest ∧ next.isLast = true ∧
    s.awaiting? party = some (.discovery a c rest next) ∧ actions = during ++ [bad] ∧
    (∀ x ∈ during, x.party? = some party → x.isGood = true) ∧
    bad.party? = some party ∧ bad.isAnswer = true ∧ bad.isGood = false

theorem Action.isAnswer_of_isGood (h : action.isGood = true) : action.isAnswer = true := by
  unfold isGood at h
  split at h
  · rfl
  · rfl
  · cases h

theorem Fails.isAnswer (h : s.Fails party a next actions) :
    ∀ x ∈ actions, x.party? = some party → x.isAnswer = true := by
  obtain ⟨c, rest, during, bad, -, -, -, rfl, hgood, -, hanswer, -⟩ := h
  intro x hx hp
  rcases List.mem_append.mp hx with hx | hx
  · exact Action.isAnswer_of_isGood (hgood x hx hp)
  · rw [List.mem_singleton.mp hx]
    exact hanswer

/-- A caller that waits for nothing gets no answer, and nothing returns to it. -/
theorem quiet_of_none (hnone : s.awaiting? (.caller id) = none)
    (hrun : s.run actions = some (s', notes))
    (hanswers : ∀ x ∈ actions, x.party? = some (.caller id) → x.isAnswer = true) :
    (∀ x ∈ actions, x.party? ≠ some (.caller id)) ∧ ∀ result, .returned id result ∉ notes := by
  induction actions generalizing s notes with
  | nil =>
    cases hrun
    exact ⟨fun x hx => absurd hx List.not_mem_nil, fun result => List.not_mem_nil⟩
  | cons action rest ih =>
    obtain ⟨hfirst, hanswers⟩ := List.forall_mem_cons.mp hanswers
    obtain ⟨s₁, notes₁, notes₂, hs, hmore, rfl⟩ := run_cons hrun
    have hp : action.party? ≠ some (.caller id) := by
      intro hp
      obtain ⟨w, ha⟩ := exists_awaiting_of_answer hs hp (hfirst hp)
      rw [hnone] at ha
      cases ha
    obtain ⟨hrest, hsilent⟩ := ih ((awaiting?_caller_of_ne hs hp).trans hnone) hmore hanswers
    refine ⟨List.forall_mem_cons.mpr ⟨hp, hrest⟩, fun result hmem => ?_⟩
    rcases List.mem_append.mp hmem with hmem | hmem
    · exact hp (party?_of_returned hs hmem)
    · exact hsilent result hmem

/-- Unless all answers to a party are good there is a first that is not. -/
theorem exists_first_bad
    (h : ¬ ∀ x ∈ actions, x.party? = some party → x.isGood = true) :
    ∃ during bad later, actions = during ++ bad :: later ∧
      (∀ x ∈ during, x.party? = some party → x.isGood = true) ∧
      bad.party? = some party ∧ bad.isGood = false := by
  induction actions with
  | nil => exact absurd (fun x hx => absurd hx List.not_mem_nil) h
  | cons action rest ih =>
    by_cases hfirst : action.party? = some party → action.isGood = true
    · obtain ⟨during, bad, later, rfl, hgood, hbad⟩ :=
        ih fun hrest => h (List.forall_mem_cons.mpr ⟨hfirst, hrest⟩)
      exact ⟨action :: during, bad, later, rfl, List.forall_mem_cons.mpr ⟨hfirst, hgood⟩, hbad⟩
    · obtain ⟨hp, hnot⟩ := Classical.not_imp.mp hfirst
      exact ⟨[], action, rest, rfl, fun x hx => absurd hx List.not_mem_nil, hp,
        Bool.eq_false_iff.mpr hnot⟩

/-- **For a call from outside, to fail is what the engine says it is.**  While the caller is given
nothing but answers, a call for an application that returns a failure has failed with one of them.
Before, it has only asked for the first kind, and after it the caller does nothing. -/
theorem exists_fails_of_returned (hcall : s.step (.call id (.watchComponents a)) = some (s₀, notes))
    (hrun : s₀.run actions = some (s', notes'))
    (hanswers : ∀ x ∈ actions, x.party? = some (.caller id) → x.isAnswer = true)
    (hreturned : .returned id (.error f) ∈ notes ++ notes') :
    s₀.registry = s.registry ∧ s.deed (.caller id) (.call id (.watchComponents a)) notes =
        ⟨[.call id (.watchComponents a)], (a.componentKinds.take 1).map .resolve, []⟩ ∧
      ∃ during bad later s₁ notes₁, actions = during ++ bad :: later ∧
        s₀.run (during ++ [bad]) = some (s₁, notes₁) ∧
        s₀.Fails (.caller id) a .done (during ++ [bad]) ∧
        ∀ x ∈ later, x.party? ≠ some (.caller id) := by
  have hcomes := comes_called
    (o := s.pursue (.caller id) (.components a a.componentKinds .done)) rfl hcall
  cases hkinds : a.componentKinds with
  | nil =>
    -- Without kinds the call returns at once, and well.
    rw [hkinds] at hcomes
    have hnone : s₀.awaiting? (.caller id) = none := hcomes.waits
    rcases List.mem_append.mp hreturned with hmem | hmem
    · cases (hcomes.returned id rfl _).mp hmem
    · exact absurd hmem ((quiet_of_none hnone hrun hanswers).2 _)
  | cons c rest =>
    rw [hkinds] at hcomes
    have hbegun := callStands_begin hcall hkinds
    obtain ⟨p, hstands⟩ := hbegun.run hrun hanswers
    rw [List.nil_append, List.nil_append] at hstands
    have hreturned : .returned id (.error f) ∈ notes' := by
      refine (List.mem_append.mp hreturned).resolve_left fun hmem => ?_
      cases (hcomes.returned id rfl _).mp hmem
    have hnot : ¬ ∀ x ∈ actions, x.party? = some (.caller id) → x.isGood = true := by
      intro hgood
      have hwell := hstands.goesOn hgood
      rw [(hstands.returned _).mp hreturned] at hwell
      cases hwell
    obtain ⟨during, bad, later, rfl, hgood, hp, hbad⟩ := exists_first_bad hnot
    have hanswer : bad.isAnswer = true :=
      hanswers bad (List.mem_append_right _ List.mem_cons_self) hp
    rw [List.append_cons] at hrun hanswers
    obtain ⟨s₁, notes₁, notes₂, hfirst, hlater, -⟩ := exists_run_of_append hrun
    refine ⟨(registry_of_caller hcall rfl).1, hcomes.deed, during, bad, later, s₁, notes₁, rfl,
      hfirst, ?_, ?_⟩
    · exact ⟨c, rest, during, bad, hkinds, rfl, hbegun.waits, rfl, hgood, hp, hanswer, hbad⟩
    · -- After the failure the caller waits for nothing.
      obtain ⟨hfirsts, hlaters⟩ := List.forall_mem_append.mp hanswers
      obtain ⟨p₁, hstands₁⟩ := hbegun.run hfirst hfirsts
      rw [List.nil_append, List.nil_append] at hstands₁
      obtain ⟨f₁, rfl⟩ := hstands₁.fails fun hall => by
        rw [hall bad (List.mem_append_right _ (List.mem_singleton_self _)) hp] at hbad
        cases hbad
      exact (quiet_of_none hstands₁.waits hlater hlaters).1

/-! ## 3. Failed starts -/

/-- A call to have a kind watched that has failed: it has checked the new scopes in their order up
to the first that was refused, and none of its steps has made anything of the registry or asked for
a watch. -/
structure AddFails (s : System) (id : Nat) (kind : KindDescriptor) (actions : List Action)
    (f : Failure) : Prop where
  refused : ∃ checked scope left e, s.registry.newScopes kind = checked ++ scope :: left ∧
    f = refusal kind scope e ∧ s.deeds (.caller id) (.call id (.addToWatch kind) :: actions) =
      refusing (.caller id) (.call id (.addToWatch kind)) [] kind checked scope e
  unopened : ∀ s₁ s₂ notes₂,
    s.OwnStep (.caller id) (.call id (.addToWatch kind) :: actions) s₁ s₂ notes₂ →
      s₂.registry = s₁.registry ∧ Note.watches notes₂ = []

/-- **A call to have a kind watched fails with nothing opened.** -/
theorem addFails_of_returned
    (hrun : s.run (.call id (.addToWatch kind) :: actions) = some (s', notes))
    (hanswers : ∀ x ∈ actions, x.party? = some (.caller id) → x.isAnswer = true)
    (hreturned : .returned id (.error f) ∈ notes) : s.AddFails id kind actions f := by
  obtain ⟨p, -, -, hends, hadding⟩ := addStands_run hrun hanswers
  rw [(hends _).mp hreturned] at hadding
  generalize hd : s.deeds (.caller id) (.call id (.addToWatch kind) :: actions) = d at hadding
  cases hadding with
  | @refused checked left scope e hscopes =>
    refine ⟨⟨checked, scope, left, e, hscopes, rfl, hd⟩, fun s₁ s₂ notes₂ hown => ?_⟩
    exact hown.registry_eq (congrArg Deeds.growths hd)

/-- **A call for an application that has failed at one of the declared kinds.** -/
structure FailsAt (s : System) (party : Party) (a : Application) (next : Plan)
    (actions : List Action) (s' : System) (past : List GroupKind) (c : GroupKind)
    (rest : List GroupKind) : Prop where
  kinds : a.componentKinds = past ++ c :: rest
  /-- The kinds before it are skipped or watched, each in a leg of its own, and stay watched as
  wanted unless somebody stops them; for the kind itself no watcher and no scope is added, and no
  watch asked for. -/
  legs : ∃ found before seg s₁, Legs party a next s past found (c :: rest) before s₁ ∧
    actions = before ++ seg ∧ LastLeg party a s₁ seg ∧
    ((∀ x ∈ actions, x.stops = false) → ∀ kind r, some (kind, r) ∈ found →
      ∀ scope ∈ r.wanted a kind, s'.registry.isWatched (kind.gvr, scope) = true) ∧
    ∀ s₂ s₃ notes₃, s₁.OwnStep party seg s₂ s₃ notes₃ → Note.watches notes₃ = [] ∧
      ∀ gvr, (s₃.registry.watcher? gvr).map Watcher.watching =
        (s₂.registry.watcher? gvr).map Watcher.watching
  /-- Discovery is not asked for the kinds after it. -/
  resolved : (s.deeds party actions).resolved = (past ++ [c]).tail
  /-- The party takes nothing away, neither permissions nor watches. -/
  keeps : ∀ s₁ s₂ notes₂, s.OwnStep party actions s₁ s₂ notes₂ →
    s₁.registry.Widens s₂.registry ∧ s₁.registry.Keeps s₂.registry

theorem Fails.exists_failsAt (h : s.Fails party a next actions)
    (hrun : s.run actions = some (s', notes)) :
    ∃ past c rest, s.FailsAt party a next actions s' past c rest := by
  have hanswers := h.isAnswer
  obtain ⟨c₀, rest₀, during, bad, hkinds, hlast, ha, rfl, hgood, hp, hanswer, hbad⟩ := h
  obtain ⟨s₂, notes₁, notes₂, hduring, hend, -⟩ := exists_run_of_append hrun
  obtain ⟨s₃, notes₃, notes₄, hs, hnil, -⟩ := run_cons hend
  have hbegun : Course party a next s ([] ++ []) s :=
    .asks (.start hkinds ha) rfl rfl ha
  obtain ⟨past, found, c, rest, before, seg, s₁, hlegs, hsplit, hlastLeg⟩ :=
    (hbegun.run hlast hduring hgood).fails hs hp hanswer hbad
  rw [List.append_nil, List.nil_append] at hsplit
  obtain ⟨notes₅, hbefore⟩ := hlegs.run
  rw [hsplit] at hrun hanswers ⊢
  obtain ⟨notes₆, hseg⟩ := exists_run_after hrun hbefore
  refine ⟨past, c, rest, hlegs.kinds, ?_, ?_, fun s₁ s₂ notes₂ hown => hown.keeps hanswers⟩
  · refine ⟨found, before, seg, s₁, hlegs, rfl, hlastLeg, ?_, fun _ _ _ => hlastLeg.unopened⟩
    intro hstop kind r hkind scope hscope
    obtain ⟨hfirst, hthen⟩ := List.forall_mem_append.mp hstop
    exact (widens_run hseg hthen).watched (hlegs.isWatched hfirst hkind hscope)
  · rw [deeds_append hbefore, Deeds.resolved_append, hlegs.resolved, hlastLeg.resolved,
      List.append_nil]

/-- **A watch that fails to start leaves nothing behind but permissions.**

When a call to have a kind watched fails, it has checked the new scopes in their order up to the
first that was refused, and has opened no watch and made nothing of the registry.

When a call for an application, a caller's or a worker's, fails at one of the declared kinds, each
kind before it was skipped as unknown, or its new scopes were checked and opened, all of them; the
failing kind adds no watcher and no scope; and nothing was done for the kinds after it.  All that
the party does leaves the permissions, the watchers and the readers that were there.

A call from outside that returns a failure is such a call. -/
theorem failed_starts_atomic :
    (∀ (s s' : System) (id : Nat) (kind : KindDescriptor) (actions : List Action)
      (notes : List Note) (f : Failure),
      s.run (.call id (.addToWatch kind) :: actions) = some (s', notes) →
      (∀ x ∈ actions, x.party? = some (.caller id) → x.isAnswer = true) →
      .returned id (.error f) ∈ notes → s.AddFails id kind actions f) ∧
    (∀ (s s' : System) (party : Party) (a : Application) (next : Plan) (actions : List Action)
      (notes : List Note), s.run actions = some (s', notes) → s.Fails party a next actions →
      ∃ past c rest, s.FailsAt party a next actions s' past c rest) ∧
    ∀ (s s₀ s' : System) (id : Nat) (a : Application) (actions : List Action)
      (notes notes' : List Note) (f : Failure),
      s.step (.call id (.watchComponents a)) = some (s₀, notes) →
      s₀.run actions = some (s', notes') →
      (∀ x ∈ actions, x.party? = some (.caller id) → x.isAnswer = true) →
      .returned id (.error f) ∈ notes ++ notes' →
      s₀.registry = s.registry ∧ s.deed (.caller id) (.call id (.watchComponents a)) notes =
          ⟨[.call id (.watchComponents a)], (a.componentKinds.take 1).map .resolve, []⟩ ∧
        ∃ during bad later s₁ notes₁, actions = during ++ bad :: later ∧
          s₀.run (during ++ [bad]) = some (s₁, notes₁) ∧
          s₀.Fails (.caller id) a .done (during ++ [bad]) ∧
          ∀ x ∈ later, x.party? ≠ some (.caller id) := by
  refine ⟨?_, ?_, ?_⟩
  · intro s s' id kind actions notes f hrun hanswers hreturned
    exact addFails_of_returned hrun hanswers hreturned
  · intro s s' party a next actions notes hrun hfails
    exact hfails.exists_failsAt hrun
  · intro s s₀ s' id a actions notes notes' f hcall hrun hanswers hreturned
    exact exists_fails_of_returned hcall hrun hanswers hreturned

/-- A kind that may not be listed. -/
def sampleIngresses : KindDescriptor :=
  ⟨⟨"networking.k8s.io", "v1", "ingresses"⟩, "Ingress", true⟩

/-- An application with an unknown kind, one that is served, one that may not be listed, and one
more. -/
def sampleManyKinds : Application :=
  { sampleApplicationIn "blue" with
    componentKinds :=
      [⟨"", "Gadget"⟩, ⟨"", "Service"⟩, ⟨"networking.k8s.io", "Ingress"⟩, ⟨"batch", "Job"⟩] }

/-- The answers to its call, up to the refusal. -/
def sampleManyAnswers : List Action :=
  [.discovered (.caller 1) (.ok none), .discovered (.caller 1) (.ok (some sampleServices)),
    .checked (.caller 1) (.ok ()), .discovered (.caller 1) (.ok (some sampleIngresses)),
    .checked (.caller 1) (.error sampleForbidden)]

/-- Two namespaces of a kind are permitted. -/
def samplePermits : List Action :=
  [.permit sampleServices.gvr "blue", .permit sampleServices.gvr "green"]

/-- The first of them may be listed and the second not. -/
def sampleHalfListed : List Action :=
  [.checked (.caller 1) (.ok ()), .checked (.caller 1) (.error sampleForbidden)]

/-- A kind that is refused in its second namespace is watched in neither; and an application whose
third kind is refused has the second one watched when its call fails. -/
theorem failed_starts_atomic_sample :
    (∃ s notes s' notes' f, sampleQuiet.run samplePermits = some (s, notes) ∧
      s.run (.call 1 (.addToWatch sampleServices) :: sampleHalfListed) = some (s', notes') ∧
      .returned 1 (.error f) ∈ notes' ∧ s.AddFails 1 sampleServices sampleHalfListed f) ∧
    ∃ s notes s' notes' f, sampleQuiet.step (.call 1 (.watchComponents sampleManyKinds)) =
        some (s, notes) ∧
      s.run sampleManyAnswers = some (s', notes') ∧ .returned 1 (.error f) ∈ notes' ∧
      (∃ during bad later s₁ notes₁, sampleManyAnswers = during ++ bad :: later ∧
        s.run (during ++ [bad]) = some (s₁, notes₁) ∧
        s.Fails (.caller 1) sampleManyKinds .done (during ++ [bad])) ∧
      (∃ past c rest, s.FailsAt (.caller 1) sampleManyKinds .done sampleManyAnswers s' past c
        rest) ∧
      s'.registry.isWatched (sampleServices.gvr, "blue") = true := by
  obtain ⟨hadd, hfailsAt, hcalls⟩ := failed_starts_atomic
  constructor
  · have hend : ((sampleQuiet.run samplePermits).any fun r =>
        (r.1.run (.call 1 (.addToWatch sampleServices) :: sampleHalfListed)).any fun t =>
          .returned 1 (.error (refusal sampleServices "green" sampleForbidden)) ∈ t.2) = true := by
      decide
    obtain ⟨⟨s, notes⟩, hpermits, hend⟩ := (Option.any_eq_true _ _).mp hend
    obtain ⟨⟨s', notes'⟩, hrun, hend⟩ := (Option.any_eq_true _ _).mp hend
    have hreturned := of_decide_eq_true hend
    have hanswers : ∀ x ∈ sampleHalfListed, x.party? = some (.caller 1) → x.isAnswer = true := by
      simp [sampleHalfListed, Action.isAnswer]
    exact ⟨s, notes, s', notes', _, hpermits, hrun, hreturned,
      hadd s s' 1 sampleServices _ notes' _ hrun hanswers hreturned⟩
  · have hend : ((sampleQuiet.step (.call 1 (.watchComponents sampleManyKinds))).any fun r =>
        (r.1.run sampleManyAnswers).any fun t =>
          .returned 1 (.error (refusal sampleIngresses "blue" sampleForbidden)) ∈ t.2 &&
            r.1.awaiting? (.caller 1) = some (.discovery sampleManyKinds ⟨"", "Gadget"⟩
              [⟨"", "Service"⟩, ⟨"networking.k8s.io", "Ingress"⟩, ⟨"batch", "Job"⟩] .done) &&
            t.1.registry.isWatched (sampleServices.gvr, "blue")) = true := by decide
    obtain ⟨⟨s, notes⟩, hcall, hend⟩ := (Option.any_eq_true _ _).mp hend
    obtain ⟨⟨s', notes'⟩, hrun, hend⟩ := (Option.any_eq_true _ _).mp hend
    simp only [Bool.and_eq_true, decide_eq_true_eq] at hend
    obtain ⟨⟨hreturned, ha⟩, hwatched⟩ := hend
    have hanswers : ∀ x ∈ sampleManyAnswers, x.party? = some (.caller 1) → x.isAnswer = true := by
      simp [sampleManyAnswers, Action.isAnswer]
    have hfails : s.Fails (.caller 1) sampleManyKinds .done sampleManyAnswers := by
      refine ⟨_, _, sampleManyAnswers.dropLast, .checked (.caller 1) (.error sampleForbidden), rfl,
        rfl, ha, rfl, ?_, rfl, rfl, rfl⟩
      simp [sampleManyAnswers, Action.isGood]
    obtain ⟨-, -, during, bad, later, s₁, notes₁, hsplit, hfirst, hcaller, -⟩ :=
      hcalls sampleQuiet s s' 1 sampleManyKinds _ notes notes' _ hcall hrun hanswers
        (List.mem_append_right _ hreturned)
    exact ⟨s, notes, s', notes', _, hcall, hrun, hreturned,
      ⟨during, bad, later, s₁, notes₁, hsplit, hfirst, hcaller⟩,
      hfailsAt s s' _ _ _ _ notes' hrun hfails, hwatched⟩

end System

end AppWatch
