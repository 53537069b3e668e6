/-
# An application whose call has returned well is covered

A call for an application permits the application's namespaces for each of its kinds and then opens
the scopes of the kind that were not watched when discovery had answered.  Between that answer and
the opening other parties may act, and what they do is not looked at again.  Nothing is missed all
the same.  Whatever is granted to the application is permitted before the scopes are read from the
registry, so each namespace is either among the scopes to be opened or watched already, and a
watched scope stays watched (`Application.Covered`, `covered_permitFor`).  This is carried along
the call (`Covering`), whose steps alone can change what it is about to open.

A call may belong to a worker as well as to a caller, and a worker goes on with its batch in the
step in which the call returns.  That a call has returned well is therefore read off the party's
answers (`System.ReturnsWell`); for a caller this is what the engine says (`returnsWell_iff`).
-/
import AppWatch.Proofs.Isolation
import AppWatch.Proofs.Provenance

namespace AppWatch

/-! ## 1. Calls for an application -/

/-- The application whose call a wait belongs to, with what the party does after it. -/
def Awaiting.call? : Awaiting → Option (Application × Plan)
  | .discovery a _ _ next => some (a, next)
  | .access _ _ _ _ (.components a _ next) => some (a, next)
  | _ => none

/-- A call from outside for an application is under way, or it has returned well. -/
def Progress.GoesOn (a : Application) : Progress → Prop
  | .waits w => w.call? = some (a, .done)
  | .finished r => r = .ok ()

namespace System

/-- Whether an action is an answer of the cluster. -/
def Action.isAnswer : Action → Bool
  | .discovered _ _ | .checked _ _ => true
  | _ => false

/-- Whether an answer brings a party on. -/
def Action.isGood : Action → Bool
  | .discovered _ (.ok _) | .checked _ (.ok ()) => true
  | _ => false

/-- What an answer of discovery tells a party; nothing if the kind is unknown. -/
def Action.found? (party : Party) : Action → Option (Option KindDescriptor)
  | .discovered p (.ok found) => if p = party then some found else none
  | _ => none

/-- What discovery has found for a party, kind after kind. -/
def found (party : Party) (actions : List Action) : List (Option KindDescriptor) :=
  actions.filterMap (Action.found? party)

/-- A call for an application has returned well: from the question for the first declared kind on
the party was given good answers only, and in the end it does not wait in this call any more. -/
def ReturnsWell (s : System) (party : Party) (a : Application) (actions : List Action)
    (s' : System) : Prop :=
  ∃ c rest next, a.componentKinds = c :: rest ∧
    s.awaiting? party = some (.discovery a c rest next) ∧
    (∀ x ∈ actions, x.party? = some party → x.isGood = true) ∧
    (s'.awaiting? party).bind Awaiting.call? ≠ some (a, next)

theorem Action.found?_eq_none {party : Party} {action : Action} (h : action.party? ≠ some party) :
    action.found? party = none := by
  unfold found?
  split
  · exact if_neg fun he => h (congrArg some he)
  · rfl

/-- A good answer is one of discovery or one about a scope. -/
theorem Action.isGood_cases {party : Party} {action : Action} (hp : action.party? = some party)
    (h : action.isGood = true) :
    (∃ answer, action = .discovered party (.ok answer)) ∨ action = .checked party (.ok ()) := by
  unfold isGood at h
  split at h
  · obtain rfl := Option.some.inj hp
    exact .inl ⟨_, rfl⟩
  · obtain rfl := Option.some.inj hp
    exact .inr rfl
  · cases h

theorem found_cons (party : Party) (action : Action) (actions : List Action) :
    found party (action :: actions) = (action.found? party).toList ++ found party actions := by
  rw [found, List.filterMap_cons, found]
  cases action.found? party <;> rfl

end System

/-! ## 2. What covers an application -/

/-- Some scopes of a kind cover an application: its granted namespaces are among them if the kind
has namespaces, unless the scope of all namespaces is, and that scope is if it has none. -/
structure Application.Covered (a : Application) (kind : KindDescriptor) (f : NamespaceFilter)
    (isScope : String → Prop) : Prop where
  namespaced : kind.namespaced = true → ∀ n ∈ a.namespacesFor kind, f.grants n = true →
    isScope n ∨ isScope ""
  clusterWide : kind.namespaced = false → isScope ""

/-- The kinds that were found for an application, one after the other, are watched in scopes that
cover it. -/
def Registry.Covers (r : Registry) (a : Application) (found : List (Option KindDescriptor)) :
    Prop :=
  ∀ c kind, (c, some kind) ∈ a.componentKinds.zip found →
    a.Covered kind r.filter fun scope => r.isWatched (kind.gvr, scope) = true

section Covered

variable {a : Application} {kind : KindDescriptor} {f f' : NamespaceFilter}
  {isScope isScope' : String → Prop} {r r' : Registry} {earlier : List (Option KindDescriptor)}
  {past rest : List GroupKind} {c : GroupKind} {answer : Option KindDescriptor}

theorem Application.Covered.mono (h : a.Covered kind f isScope) (hglobal : f'.global = f.global)
    (hscope : ∀ x, isScope x → isScope' x) : a.Covered kind f' isScope' := by
  refine ⟨fun hns n hn hgrants => ?_, fun hns => hscope _ (h.clusterWide hns)⟩
  rw [NamespaceFilter.grants_congr hglobal] at hgrants
  exact (h.namespaced hns n hn hgrants).imp (hscope _) (hscope _)

theorem Registry.Covers.widen (h : r.Covers a earlier) (hwide : r.Widens r') :
    r'.Covers a earlier :=
  fun c kind hmem => (h c kind hmem).mono hwide.global fun _ => hwide.watched

/-- **The scopes of a kind cover an application once its namespaces are permitted.** -/
theorem Registry.covered_scopesFor (r : Registry) (a : Application) (kind : KindDescriptor) :
    a.Covered kind r.filter fun scope => scope ∈ r.wanted a kind := by
  have hglobal : (r.permitFor a kind).filter.global = r.filter.global :=
    (r.widens_permitFor a kind).global
  constructor
  · intro hns n hn hgrants
    unfold wanted scopesFor
    simp only [hns, Bool.not_true, Bool.false_eq_true, ↓reduceIte]
    split
    · -- For the application kind the global list decides, whoever asks for it.
      split
      · exact .inr (List.mem_singleton_self _)
      · next hall =>
        have hpermitted : r.filter.isPermitted n = true := (Bool.and_eq_true_iff.mp hgrants).2
        rw [NamespaceFilter.permitsAll, hglobal] at hall
        rw [NamespaceFilter.isPermitted, NamespaceFilter.permitsAll, Bool.eq_false_iff.mpr hall,
          Bool.false_or] at hpermitted
        refine .inl ?_
        rw [NamespaceFilter.globalNamespaces, hglobal]
        exact SortedMap.contains_iff_mem_keys.mp hpermitted
    · refine .inl ?_
      rw [filter_permitFor]
      exact NamespaceFilter.mem_permittedNamespaces_permitEach.mpr (.inr ⟨rfl, hn, hgrants⟩)
  · intro hns
    simp [wanted, scopesFor, hns]

/-- When the namespaces of an application have been permitted, the scopes to be opened and those
that are watched cover it together. -/
theorem Registry.covered_permitFor (r : Registry) (a : Application) (kind : KindDescriptor) :
    a.Covered kind (r.permitFor a kind).filter fun scope =>
      scope ∈ (r.permitFor a kind).newScopes kind ∨
        (r.permitFor a kind).isWatched (kind.gvr, scope) = true := by
  refine (r.covered_scopesFor a kind).mono (r.widens_permitFor a kind).global fun x hx => ?_
  cases hwatched : (r.permitFor a kind).isWatched (kind.gvr, x) with
  | true => exact .inr rfl
  | false => exact .inl (mem_newScopes.mpr ⟨hx, hwatched⟩)

/-- The answer for a kind stands beside that kind. -/
theorem mem_zip_snoc {d : GroupKind} {x : Option KindDescriptor}
    (hlength : earlier.length = past.length) :
    (d, x) ∈ (past ++ c :: rest).zip (earlier ++ [answer]) ↔
      (d, x) ∈ (past ++ c :: rest).zip earlier ∨ d = c ∧ x = answer := by
  have hbefore : (past ++ c :: rest).zip earlier = past.zip earlier := by
    rw [← List.append_nil earlier, List.zip_append hlength.symm, List.zip_nil_right,
      List.append_nil, List.append_nil]
  rw [hbefore, List.zip_append hlength.symm]
  simp

theorem Registry.Covers.snoc (h : r.Covers a earlier)
    (hkinds : a.componentKinds = past ++ c :: rest) (hlength : earlier.length = past.length)
    (hanswer : ∀ kind, answer = some kind →
      a.Covered kind r.filter fun scope => r.isWatched (kind.gvr, scope) = true) :
    r.Covers a (earlier ++ [answer]) := by
  intro d kind hmem
  rw [hkinds, mem_zip_snoc hlength, ← hkinds] at hmem
  rcases hmem with hmem | ⟨-, he⟩
  · exact h d kind hmem
  · exact hanswer kind he.symm

end Covered

/-! ## 3. The course of a call -/

namespace System

/-- How far a call with good answers has come, by what the party waits for. -/
inductive Covering (a : Application) (next : Plan) (r : Registry) :
    List (Option KindDescriptor) → Option Awaiting → Prop where
  /-- Discovery is asked for the next kind. -/
  | asks {past rest : List GroupKind} {c : GroupKind} {found : List (Option KindDescriptor)}
      (hkinds : a.componentKinds = past ++ c :: rest) (hlength : found.length = past.length)
      (hcovers : r.Covers a found) :
      Covering a next r found (some (.discovery a c rest next))
  /-- A kind was found, and its scopes are being checked. -/
  | checks {past rest : List GroupKind} {c : GroupKind} {found : List (Option KindDescriptor)}
      {kind : KindDescriptor} {scopes left : List String} {scope : String}
      (hkinds : a.componentKinds = past ++ c :: rest) (hlength : found.length = past.length)
      (hcovers : r.Covers a found)
      (hscopes : a.Covered kind r.filter fun x => x ∈ scopes ∨ r.isWatched (kind.gvr, x) = true) :
      Covering a next r (found ++ [some kind])
        (some (.access kind scopes scope left (.components a rest next)))
  /-- The call has returned, and the party goes on with something else. -/
  | finished {found more : List (Option KindDescriptor)} {w : Option Awaiting}
      (hlength : found.length = a.componentKinds.length) (hcovers : r.Covers a found) :
      Covering a next r (found ++ more) w

variable {a : Application} {next : Plan} {r r' : Registry} {s s' : System} {party : Party}
  {earlier : List (Option KindDescriptor)} {w : Option Awaiting} {past rest : List GroupKind}
  {c : GroupKind} {kind : KindDescriptor} {scopes left : List String} {action : Action}
  {actions : List Action} {notes : List Note}

theorem Covering.widen (h : Covering a next r earlier w) (hwide : r.Widens r') :
    Covering a next r' earlier w := by
  cases h with
  | asks hkinds hlength hcovers => exact .asks hkinds hlength (hcovers.widen hwide)
  | checks hkinds hlength hcovers hscopes =>
    refine .checks hkinds hlength (hcovers.widen hwide) ?_
    exact hscopes.mono hwide.global fun _ => Or.imp_right hwide.watched
  | finished hlength hcovers => exact .finished hlength (hcovers.widen hwide)

/-- A party that does not wait in the call any more has it behind it. -/
theorem Covering.covers (h : Covering a next r earlier w)
    (hover : w.bind Awaiting.call? ≠ some (a, next)) :
    a.componentKinds.length ≤ earlier.length ∧ r.Covers a earlier := by
  cases h with
  | asks => exact absurd rfl hover
  | checks => exact absurd rfl hover
  | finished hlength hcovers =>
    refine ⟨?_, fun c kind hmem => hcovers c kind ?_⟩
    · rw [List.length_append, hlength]
      exact Nat.le_add_right _ _
    · rw [← List.append_nil a.componentKinds, List.zip_append hlength.symm, List.zip_nil_left,
        List.append_nil] at hmem
      exact hmem

/-- A call goes on with the kinds that are left, or returns. -/
theorem covering_pursue (hkinds : a.componentKinds = past ++ rest)
    (hlength : earlier.length = past.length) (hcovers : s.registry.Covers a earlier) :
    Covering a next (s.pursue party (.components a rest next)).system.registry earlier
      (s.pursue party (.components a rest next)).progress.awaiting? := by
  have hgrows := s.pursue_grows party (.components a rest next)
  rw [hgrows.registry, Registry.growAll]
  cases rest with
  | nil =>
    rw [List.append_nil] at hkinds
    rw [← List.append_nil earlier]
    exact .finished (hlength.trans (congrArg List.length hkinds).symm) hcovers
  | cons c rest =>
    simp only [pursue]
    exact .asks hkinds hlength hcovers

/-- A call goes on with the scopes that are left to be checked; without any, all of them are
opened. -/
theorem covering_checkScopes (hkinds : a.componentKinds = past ++ c :: rest)
    (hlength : earlier.length = past.length) (hcovers : s.registry.Covers a earlier)
    (hscopes : a.Covered kind s.registry.filter fun x =>
      x ∈ scopes ∨ s.registry.isWatched (kind.gvr, x) = true) :
    Covering a next
      (s.checkScopes party kind scopes left (.components a rest next)).system.registry
      (earlier ++ [some kind])
      (s.checkScopes party kind scopes left (.components a rest next)).progress.awaiting? := by
  cases left with
  | cons scope left => exact .checks hkinds hlength hcovers hscopes
  | nil =>
    have hwide : s.registry.Widens (s.registry.openWatches kind scopes).1 :=
      s.registry.widens_grow (.watch kind scopes)
    have hopened : a.Covered kind (s.registry.openWatches kind scopes).1.filter fun x =>
        (s.registry.openWatches kind scopes).1.isWatched (kind.gvr, x) = true := by
      refine hscopes.mono hwide.global fun x hx => ?_
      exact (s.registry.isWatched_openWatches kind scopes _).mpr (hx.imp_left fun h => ⟨rfl, h⟩)
    have hcovers' : (s.registry.openWatches kind scopes).1.Covers a (earlier ++ [some kind]) :=
      (hcovers.widen hwide).snoc hkinds hlength fun k he => by
        obtain rfl := Option.some.inj he
        exact hopened
    rw [List.append_cons] at hkinds
    refine covering_pursue (s := { s with registry := (s.registry.openWatches kind scopes).1 })
      hkinds ?_ hcovers'
    rw [List.length_append, List.length_append, hlength]
    rfl

/-- Discovery's answer brings the call to the scopes of the kind or to the next kind. -/
theorem covering_onDiscovery (answer : Option KindDescriptor)
    (hkinds : a.componentKinds = past ++ c :: rest) (hlength : earlier.length = past.length)
    (hcovers : s.registry.Covers a earlier) :
    Covering a next (s.onDiscovery party a c rest next (.ok answer)).system.registry
      (earlier ++ [answer])
      (s.onDiscovery party a c rest next (.ok answer)).progress.awaiting? := by
  cases answer with
  | none =>
    have hcovers' : s.registry.Covers a (earlier ++ [none]) :=
      hcovers.snoc hkinds hlength fun k he => by cases he
    rw [List.append_cons] at hkinds
    refine covering_pursue hkinds ?_ hcovers'
    rw [List.length_append, List.length_append, hlength]
    rfl
  | some kind =>
    exact covering_checkScopes (s := { s with registry := s.registry.permitFor a kind }) hkinds
      hlength (hcovers.widen (s.registry.widens_permitFor a kind))
      (s.registry.covered_permitFor a kind)

/-- What discovery has answered brings a call on. -/
theorem Covering.discovered (h : Covering a next s.registry earlier (s.awaiting? party))
    {answer : Option KindDescriptor}
    (hs : s.step (.discovered party (.ok answer)) = some (s', notes)) :
    Covering a next s'.registry (earlier ++ [answer]) (s'.awaiting? party) := by
  have hwide := (step_cases hs rfl).widens
  obtain ⟨b, c, rest, after, hw, heq⟩ := (step_cases hs rfl).discovered
  rw [hw] at h
  cases h with
  | asks hkinds hlength hcovers =>
    have hworks : s.Works (.discovered party (.ok answer)) party _ := .discovered hw
    obtain ⟨rfl, rfl⟩ := Prod.ext_iff.mp heq
    rw [hworks.awaiting?_self hw]
    exact (covering_onDiscovery answer hkinds hlength hcovers).widen
      (s.sameWatches_conclude party _).1.widens
  | finished hlength hcovers =>
    rw [List.append_assoc]
    exact .finished hlength (hcovers.widen hwide)

/-- A scope that can be listed brings a call on. -/
theorem Covering.checked (h : Covering a next s.registry earlier (s.awaiting? party))
    (hs : s.step (.checked party (.ok ())) = some (s', notes)) :
    Covering a next s'.registry earlier (s'.awaiting? party) := by
  have hwide := (step_cases hs rfl).widens
  obtain ⟨kind, scopes, scope, left, after, hw, heq⟩ := (step_cases hs rfl).checked
  rw [hw] at h
  cases h with
  | checks hkinds hlength hcovers hscopes =>
    have hworks : s.Works (.checked party (.ok ())) party _ := .checked hw
    obtain ⟨rfl, rfl⟩ := Prod.ext_iff.mp heq
    rw [hworks.awaiting?_self hw]
    exact (covering_checkScopes hkinds hlength hcovers hscopes).widen
      (s.sameWatches_conclude party _).1.widens
  | finished hlength hcovers => exact .finished hlength (hcovers.widen hwide)

/-- **Good answers bring a call on**, and whatever others do leaves it as it stands. -/
theorem Covering.step (h : Covering a next s.registry earlier (s.awaiting? party))
    (hs : s.step action = some (s', notes)) (hrun : action.stops = false)
    (hgood : action.party? = some party → action.isGood = true) :
    Covering a next s'.registry (earlier ++ (action.found? party).toList)
      (s'.awaiting? party) := by
  have hstep := step_cases hs hrun
  by_cases hp : action.party? = some party
  · rcases Action.isGood_cases hp (hgood hp) with ⟨answer, rfl⟩ | rfl
    · rw [Action.found?, if_pos rfl]
      exact h.discovered hs
    · simp only [Action.found?, Option.toList_none, List.append_nil]
      exact h.checked hs
  · rw [Action.found?_eq_none hp, hstep.awaiting?_eq hp, Option.toList_none, List.append_nil]
    exact h.widen hstep.widens

theorem Covering.run (h : Covering a next s.registry earlier (s.awaiting? party))
    (hrun : s.run actions = some (s', notes)) (hstop : ∀ x ∈ actions, x.stops = false)
    (hgood : ∀ x ∈ actions, x.party? = some party → x.isGood = true) :
    Covering a next s'.registry (earlier ++ found party actions) (s'.awaiting? party) := by
  induction actions generalizing s earlier notes with
  | nil =>
    cases hrun
    rw [found, List.filterMap_nil, List.append_nil]
    exact h
  | cons action rest ih =>
    obtain ⟨haction, hstop⟩ := List.forall_mem_cons.mp hstop
    obtain ⟨hfirst, hgood⟩ := List.forall_mem_cons.mp hgood
    obtain ⟨s₁, notes₁, notes₂, hs, hmore, -⟩ := run_cons hrun
    rw [found_cons, ← List.append_assoc]
    exact ih (h.step hs haction hfirst) hmore hstop hgood

/-- As long as nothing is stopped the registry only widens. -/
theorem widens_run (hrun : s.run actions = some (s', notes))
    (hstop : ∀ x ∈ actions, x.stops = false) : s.registry.Widens s'.registry := by
  induction actions generalizing s notes with
  | nil =>
    cases hrun
    exact .refl _
  | cons action rest ih =>
    obtain ⟨haction, hstop⟩ := List.forall_mem_cons.mp hstop
    obtain ⟨s₁, notes₁, notes₂, hs, hmore, -⟩ := run_cons hrun
    exact (step_cases hs haction).widens.trans (ih hmore hstop)

/-! ## 4. Calls from outside -/

theorem goesOn_pursue (s : System) (party : Party) (a : Application) (rest : List GroupKind) :
    (s.pursue party (.components a rest .done)).progress.GoesOn a := by
  cases rest with
  | nil => rfl
  | cons c rest => rfl

theorem goesOn_checkScopes (s : System) (party : Party) (a : Application) (kind : KindDescriptor)
    (scopes left : List String) (rest : List GroupKind) :
    (s.checkScopes party kind scopes left (.components a rest .done)).progress.GoesOn a := by
  cases left with
  | nil => exact goesOn_pursue _ party a rest
  | cons scope left => rfl

/-- Only who waits is given an answer. -/
theorem exists_awaiting_of_answer (hs : s.step action = some (s', notes))
    (hp : action.party? = some party) (hanswer : action.isAnswer = true) :
    ∃ w, s.awaiting? party = some w := by
  cases action with
  | discovered p reply =>
    obtain rfl := Option.some.inj hp
    obtain ⟨_, _, _, _, ha, -⟩ := (step_cases hs rfl).discovered
    exact ⟨_, ha⟩
  | checked p reply =>
    obtain rfl := Option.some.inj hp
    obtain ⟨_, _, _, _, _, ha, -⟩ := (step_cases hs rfl).checked
    exact ⟨_, ha⟩
  | _ => cases hanswer

/-- An answer to a caller brings the call on exactly if it is good. -/
theorem exists_work_of_answer {id : Nat} {w : Awaiting} (hs : s.step action = some (s', notes))
    (hp : action.party? = some (.caller id)) (hanswer : action.isAnswer = true)
    (ha : s.awaiting? (.caller id) = some w) (hcall : w.call? = some (a, .done)) :
    ∃ o, s.Works action (.caller id) o ∧ (s', notes) = concludeCaller id o ∧
      (action.isGood = true → o.progress.GoesOn a) ∧
      (action.isGood = false → ∃ f, o.progress = .finished (.error f)) := by
  cases action with
  | discovered party reply =>
    obtain rfl := Option.some.inj hp
    obtain ⟨b, c, rest, next, ha', heq⟩ := (step_cases hs rfl).discovered
    obtain rfl := Option.some.inj (ha.symm.trans ha')
    obtain ⟨rfl, rfl⟩ := Prod.mk.inj (Option.some.inj hcall)
    refine ⟨_, .discovered ha, heq, fun hgood => ?_, fun hbad => ?_⟩
    · cases reply with
      | error f => cases hgood
      | ok answer =>
        cases answer with
        | none => exact goesOn_pursue s _ b rest
        | some kind => exact goesOn_checkScopes _ _ b kind _ _ rest
    · cases reply with
      | error f => exact ⟨f, rfl⟩
      | ok answer => cases hbad
  | checked party reply =>
    obtain rfl := Option.some.inj hp
    obtain ⟨kind, scopes, scope, left, next, ha', heq⟩ := (step_cases hs rfl).checked
    obtain rfl := Option.some.inj (ha.symm.trans ha')
    refine ⟨_, .checked ha, heq, fun hgood => ?_, fun hbad => ?_⟩
    · cases reply with
      | error f => cases hgood
      | ok answer =>
        cases next with
        | components b rest next =>
          obtain ⟨rfl, rfl⟩ := Prod.mk.inj (Option.some.inj hcall)
          exact goesOn_checkScopes s _ b kind scopes left rest
        | _ => cases hcall
    · cases reply with
      | error f => exact ⟨_, rfl⟩
      | ok answer => cases hbad
  | _ => cases hanswer

/-- How a call from outside stands: what the caller waits for, what the call has returned, and that
it has failed exactly if an answer was bad. -/
structure CallStands (a : Application) (id : Nat) (past : List Action) (s : System)
    (notes : List Note) (p : Progress) : Prop where
  waits : s.awaiting? (.caller id) = p.awaiting?
  returned : ∀ r, .returned id r ∈ notes ↔ p = .finished r
  goesOn : (∀ x ∈ past, x.party? = some (.caller id) → x.isGood = true) → p.GoesOn a
  fails : ¬ (∀ x ∈ past, x.party? = some (.caller id) → x.isGood = true) →
    ∃ f, p = .finished (.error f)

variable {id : Nat} {past : List Action} {p : Progress} {notes' : List Note}

theorem CallStands.step (h : CallStands a id past s notes p)
    (hs : s.step action = some (s', notes'))
    (hanswer : action.party? = some (.caller id) → action.isAnswer = true) :
    ∃ p', CallStands a id (past ++ [action]) s' (notes ++ notes') p' := by
  have hsnoc : (∀ x ∈ past ++ [action], x.party? = some (.caller id) → x.isGood = true) ↔
      (∀ x ∈ past, x.party? = some (.caller id) → x.isGood = true) ∧
        (action.party? = some (.caller id) → action.isGood = true) := by
    rw [List.forall_mem_append, List.forall_mem_singleton]
  by_cases hp : action.party? = some (.caller id)
  case neg =>
    have hgood := hsnoc.trans (and_iff_left fun he => absurd he hp)
    refine ⟨p, (awaiting?_caller_of_ne hs hp).trans h.waits, fun r => ?_,
      fun hall => h.goesOn (hgood.mp hall), fun hnot => h.fails (hgood.not.mp hnot)⟩
    rw [List.mem_append, h.returned]
    exact ⟨fun hmem => hmem.resolve_right fun hmem => hp (party?_of_returned hs hmem), .inl⟩
  obtain ⟨w, ha⟩ : ∃ w, s.awaiting? (.caller id) = some w := exists_awaiting_of_answer hs hp
    (hanswer hp)
  obtain rfl : p = .waits w := Progress.eq_waits (h.waits.symm.trans ha)
  have hpast : ∀ x ∈ past, x.party? = some (.caller id) → x.isGood = true :=
    Decidable.byContradiction fun hnot => by
      obtain ⟨f, hf⟩ := h.fails hnot
      cases hf
  obtain ⟨o, hworks, hconcludes, hgood, hbad⟩ :=
    exists_work_of_answer hs hp (hanswer hp) ha (h.goesOn hpast)
  obtain ⟨rfl, rfl⟩ := Prod.ext_iff.mp hconcludes
  have hsilent : ∀ r, Note.returned id r ∉ notes := fun r hmem => by
    cases (h.returned r).mp hmem
  refine ⟨o.progress, ?_, fun r => ?_, fun hall => hgood ((hsnoc.mp hall).2 hp), fun hnot => ?_⟩
  · rw [awaiting?_concludeCaller hworks.grows, if_pos rfl]
  · rw [List.mem_append, returned_mem_concludeCaller fun r => hworks.grows.returns id r]
    exact ⟨fun hr => hr.resolve_left (hsilent r), .inr⟩
  · refine hbad (Bool.eq_false_iff.mpr fun hg => hnot (hsnoc.mpr ⟨hpast, fun _ => hg⟩))

theorem CallStands.run (h : CallStands a id past s notes p)
    (hrun : s.run actions = some (s', notes'))
    (hanswers : ∀ x ∈ actions, x.party? = some (.caller id) → x.isAnswer = true) :
    ∃ p', CallStands a id (past ++ actions) s' (notes ++ notes') p' := by
  refine run_keeps (P := fun past s notes => ∃ p, CallStands a id past s notes p) ?_ ⟨p, h⟩ hrun
    hanswers
  rintro past s notes action s' notes' ⟨p, h⟩ hanswer hs
  exact h.step hs hanswer

/-- A call with kinds to watch begins with the question about the first of them. -/
theorem callStands_begin {s₀ : System} {notes₀ : List Note}
    (hcall : s.step (.call id (.watchComponents a)) = some (s₀, notes₀))
    (hkinds : a.componentKinds = c :: rest) :
    CallStands a id [] s₀ [] (.waits (.discovery a c rest .done)) := by
  have hbegun : s₀.awaiting? (.caller id) = some (.discovery a c rest .done) := by
    obtain ⟨rfl, -⟩ := Prod.ext_iff.mp (Option.some.inj hcall)
    rw [hkinds]
    exact SortedMap.get?_insert_self ..
  exact ⟨hbegun, fun r => by simp, fun _ => rfl, fun hnot => absurd (by simp) hnot⟩

/-- **For a call from outside, to return well is what the engine says it is.**  While the caller is
given nothing but answers, its call for an application has returned well exactly if the engine says
so. -/
theorem returnsWell_iff {s₀ : System} {notes₀ : List Note}
    (hcall : s.step (.call id (.watchComponents a)) = some (s₀, notes₀))
    (hkinds : a.componentKinds ≠ []) (hrun : s₀.run actions = some (s', notes))
    (hanswers : ∀ x ∈ actions, x.party? = some (.caller id) → x.isAnswer = true) :
    s₀.ReturnsWell (.caller id) a actions s' ↔ .returned id (.ok ()) ∈ notes := by
  obtain ⟨c, rest, hkinds⟩ := List.exists_cons_of_ne_nil hkinds
  have hstands := callStands_begin hcall hkinds
  have hbegun : s₀.awaiting? (.caller id) = some (.discovery a c rest .done) := hstands.waits
  obtain ⟨p, h⟩ := hstands.run hrun hanswers
  rw [List.nil_append, List.nil_append] at h
  rw [h.returned]
  constructor
  · rintro ⟨c', rest', next, hkinds', ha, hgood, hover⟩
    rw [hbegun] at ha
    cases ha
    have hgoesOn := h.goesOn hgood
    cases p with
    | waits w =>
      rw [h.waits] at hover
      exact absurd hgoesOn hover
    | finished r => exact congrArg Progress.finished hgoesOn
  · rintro rfl
    refine ⟨c, rest, .done, hkinds, hbegun, Decidable.byContradiction fun hnot => ?_, ?_⟩
    · obtain ⟨f, hf⟩ := h.fails hnot
      cases hf
    · rw [h.waits]
      simp [Progress.awaiting?]

/-! ## 5. Coverage -/

/-- **An application whose call has returned well is covered from then on.**  Whatever other parties
do during the call and after it: discovery has answered for each of the declared kinds, and each
kind that it found is watched, if it has namespaces, in each globally permitted namespace from which
the application draws components, unless it is watched in all of them, and if it has none, in the
scope of all namespaces. -/
theorem component_kinds_covered {s s₁ s₂ : System} {party : Party} {a : Application}
    {call later : List Action} {notes notes' : List Note}
    (hcall : s.run call = some (s₁, notes)) (hreturns : s.ReturnsWell party a call s₁)
    (hlater : s₁.run later = some (s₂, notes')) (hstop : ∀ x ∈ call ++ later, x.stops = false) :
    a.componentKinds.length ≤ (found party call).length ∧
      ∀ c kind, (c, some kind) ∈ a.componentKinds.zip (found party call) →
        (kind.namespaced = true →
          ∀ n ∈ a.«namespace» :: SortedSet.toList a.componentNamespaces, n ≠ "" →
            s.registry.filter.isPermitted n = true →
              ∃ w, s₂.registry.watcher? kind.gvr = some w ∧
                (w.hasScope n = true ∨ w.hasScope "" = true)) ∧
        (kind.namespaced = false →
          ∃ w, s₂.registry.watcher? kind.gvr = some w ∧ w.hasScope "" = true) := by
  obtain ⟨c, rest, next, hkinds, ha, hgood, hover⟩ := hreturns
  have hnow : ∀ x ∈ call, x.stops = false := fun x hx => hstop x (List.mem_append_left _ hx)
  have hthen : ∀ x ∈ later, x.stops = false := fun x hx => hstop x (List.mem_append_right _ hx)
  have hbegun : Covering a next s.registry [] (s.awaiting? party) := by
    have hnone : s.registry.Covers a [] := fun c kind hmem => by
      rw [List.zip_nil_right] at hmem
      cases hmem
    have hfirst : a.componentKinds = [] ++ c :: rest := hkinds
    rw [ha]
    exact .asks hfirst rfl hnone
  obtain ⟨hlength, hcovers⟩ := (hbegun.run hcall hnow hgood).covers hover
  rw [List.nil_append] at hlength hcovers
  have hwide := widens_run hlater hthen
  have hglobal := ((widens_run hcall hnow).trans hwide).global
  have hwatched : ∀ (kind : KindDescriptor) scope, s₂.registry.isWatched (kind.gvr, scope) = true →
      ∃ w, s₂.registry.watcher? kind.gvr = some w ∧ w.hasScope scope = true := fun kind scope =>
    (Option.any_eq_true _ _).mp
  refine ⟨hlength, fun c kind hmem => ?_⟩
  have hcovered := (hcovers.widen hwide) c kind hmem
  refine ⟨fun hns n hn hne hpermitted => ?_, fun hns => hwatched _ _ (hcovered.clusterWide hns)⟩
  have hown : n ∈ a.namespacesFor kind := by
    rw [Application.namespacesFor, if_pos hns]
    exact hn
  have hgrants : s₂.registry.filter.grants n = true := by
    rw [NamespaceFilter.grants_congr hglobal, NamespaceFilter.grants, hpermitted, Bool.and_true]
    exact bne_iff_ne.mpr hne
  rcases hcovered.namespaced hns n hown hgrants with hscope | hscope
  · obtain ⟨w, hw, hscope⟩ := hwatched _ _ hscope
    exact ⟨w, hw, .inl hscope⟩
  · obtain ⟨w, hw, hscope⟩ := hwatched _ _ hscope
    exact ⟨w, hw, .inr hscope⟩

/-- The call for an application in one namespace has begun. -/
def sampleBegun : List Action := [.call 1 (.watchComponents (sampleApplicationIn "blue"))]

/-- While it is under way, the call for an application in another namespace fails, in which the
first call then has the kind checked too. -/
def sampleAnswers : List Action :=
  [.call 2 (.watchComponents (sampleApplicationIn "vault")),
    .discovered (.caller 2) (.ok (some sampleServices)),
    .discovered (.caller 1) (.ok (some sampleServices)),
    .checked (.caller 2) (.error sampleForbidden),
    .checked (.caller 1) (.ok ()), .checked (.caller 1) (.ok ())]

/-- The namespace of the application whose call has returned well is watched, also when the other
call is made once more. -/
theorem component_kinds_covered_beside_failure :
    ∃ s notes₀ s₁ notes s₂ notes', sampleQuiet.run sampleBegun = some (s, notes₀) ∧
      s.run sampleAnswers = some (s₁, notes) ∧
      s.ReturnsWell (.caller 1) (sampleApplicationIn "blue") sampleAnswers s₁ ∧
      s₁.run [.call 2 (.watchComponents (sampleApplicationIn "vault"))] = some (s₂, notes') ∧
      ∃ w, s₂.registry.watcher? sampleServices.gvr = some w ∧
        (w.hasScope "blue" = true ∨ w.hasScope "" = true) := by
  have hend : ((sampleQuiet.run sampleBegun).any fun r => (r.1.run sampleAnswers).any fun t =>
      (t.1.run [.call 2 (.watchComponents (sampleApplicationIn "vault"))]).isSome &&
        r.1.registry.filter.isPermitted "blue" &&
        r.1.awaiting? (.caller 1) = some (.discovery (sampleApplicationIn "blue")
          ⟨"", "Service"⟩ [] .done) &&
        t.1.awaiting? (.caller 1) = none) = true := by decide
  obtain ⟨⟨s, notes₀⟩, hbegun, hend⟩ := (Option.any_eq_true _ _).mp hend
  obtain ⟨⟨s₁, notes⟩, hcall, hend⟩ := (Option.any_eq_true _ _).mp hend
  simp only [Bool.and_eq_true, decide_eq_true_eq] at hend
  obtain ⟨⟨⟨hlater, hpermitted⟩, ha⟩, hover⟩ := hend
  obtain ⟨⟨s₂, notes'⟩, hlater⟩ := Option.isSome_iff_exists.mp hlater
  have hreturns : s.ReturnsWell (.caller 1) (sampleApplicationIn "blue") sampleAnswers s₁ := by
    refine ⟨⟨"", "Service"⟩, [], .done, rfl, ha, ?_, ?_⟩
    · simp [sampleAnswers, Action.party?, Action.isGood]
    · rw [hover]
      simp
  obtain ⟨-, hcovered⟩ := component_kinds_covered hcall hreturns hlater
    (by simp [sampleAnswers, Action.stops])
  have hblue := (hcovered ⟨"", "Service"⟩ sampleServices (List.mem_singleton_self _)).1 rfl
    "blue" List.mem_cons_self (by decide) hpermitted
  exact ⟨s, notes₀, s₁, notes, s₂, notes', hbegun, hcall, hreturns, hlater, hblue⟩

end System

end AppWatch
