/-
# What one party does in a run

Parties act in between each other, on the same registry, so what a party does has to be told from
what happens.  `System.deeds` lists a party's own actions in a run, the questions it asks and the
growths it brings, which are all that it makes of the registry.  What each action adds to this is
determined by the outcome of the work in it (`System.Comes`).

A party's work takes nothing away: no permission, no watch (`Step.widens`), and not even a reader
that has come some way with its stream is touched (`Works.keeps`).
-/
import AppWatch.Proofs.Coverage
import AppWatch.Proofs.Questions

namespace AppWatch

/-! ## 1. What one party does in a run -/

/-- What a party does in a run: its actions, the questions it asks and the growths it brings. -/
structure Deeds where
  actions : List System.Action
  questions : List ClientCall
  growths : List Growth

namespace Deeds

def nothing : Deeds := ⟨[], [], []⟩

instance : Append Deeds :=
  ⟨fun d e => ⟨d.actions ++ e.actions, d.questions ++ e.questions, d.growths ++ e.growths⟩⟩

@[simp] theorem mk_append_mk (as bs : List System.Action) (qs ps : List ClientCall)
    (gs hs : List Growth) :
    (⟨as, qs, gs⟩ : Deeds) ++ (⟨bs, ps, hs⟩ : Deeds) = ⟨as ++ bs, qs ++ ps, gs ++ hs⟩ := rfl

@[simp] theorem nothing_append (d : Deeds) : nothing ++ d = d := rfl

@[simp] theorem append_nothing (d : Deeds) : d ++ nothing = d := by
  obtain ⟨as, qs, gs⟩ := d
  simp [nothing]

theorem append_assoc (d e f : Deeds) : d ++ e ++ f = d ++ (e ++ f) := by
  obtain ⟨_, _, _⟩ := d
  obtain ⟨_, _, _⟩ := e
  obtain ⟨_, _, _⟩ := f
  simp

end Deeds

namespace System

/-- What a party does in one step. -/
def deed (party : Party) (s : System) (action : Action) (notes : List Note) : Deeds :=
  if action.party? = some party then ⟨[action], Note.questions notes, s.growth action⟩
  else .nothing

/-- What a party does in a run. -/
def deeds (party : Party) : System → List Action → Deeds
  | _, [] => .nothing
  | s, action :: rest =>
    match s.step action with
    | none => .nothing
    | some (s', notes) => s.deed party action notes ++ deeds party s' rest

variable {s s' s₁ : System} {party : Party} {action : Action} {before : List Action}
  {notes notes' : List Note} {o : Outcome} {a : Application} {c : GroupKind}
  {rest : List GroupKind} {next : Plan} {kind : KindDescriptor} {scopes left : List String}
  {scope : String} {id : Nat}

theorem deed_of_ne (h : action.party? ≠ some party) : s.deed party action notes = .nothing :=
  if_neg h

theorem deeds_cons (hs : s.step action = some (s', notes)) (rest : List Action) :
    s.deeds party (action :: rest) = s.deed party action notes ++ s'.deeds party rest := by
  simp only [deeds, hs]

theorem deeds_append (hrun : s.run before = some (s₁, notes)) (after : List Action) :
    s.deeds party (before ++ after) = s.deeds party before ++ s₁.deeds party after := by
  induction before generalizing s notes with
  | nil =>
    cases hrun
    rfl
  | cons action before ih =>
    obtain ⟨s₂, notes₁, notes₂, hs, hmore, rfl⟩ := run_cons hrun
    rw [List.cons_append, deeds_cons hs, deeds_cons hs, ih hmore, Deeds.append_assoc]

theorem deeds_snoc (hrun : s.run before = some (s₁, notes))
    (hs : s₁.step action = some (s', notes')) :
    s.deeds party (before ++ [action]) = s.deeds party before ++ s₁.deed party action notes' := by
  rw [deeds_append hrun, deeds_cons hs, deeds, Deeds.append_nothing]

/-- The growths of a party's steps are among its deeds. -/
theorem mem_growths_deeds {g : Growth} (hrun : s.run before = some (s₁, notes))
    (hs : s₁.step action = some (s', notes')) (hp : action.party? = some party)
    (hg : g ∈ s₁.growth action) (after : List Action) :
    g ∈ (s.deeds party (before ++ action :: after)).growths := by
  rw [deeds_append hrun, deeds_cons hs, deed, if_pos hp]
  exact List.mem_append_right _ (List.mem_append_left _ hg)

/-! ## 2. What an answer brings -/

/-- What comes of a party's work: what it waits for then, what it has done, and that a call from
outside has returned, if the work is finished. -/
structure Comes (s : System) (party : Party) (action : Action) (o : Outcome) (s' : System)
    (notes : List Note) : Prop where
  waits : s'.awaiting? party = o.progress.awaiting?
  deed : s.deed party action notes = ⟨[action], o.progress.question?.toList, s.growth action⟩
  returned : ∀ id, party = .caller id → ∀ r, .returned id r ∈ notes ↔ o.progress = .finished r

theorem Works.comes (h : s.Works action party o)
    (hwaits : (s.conclude party o).1.awaiting? party = o.progress.awaiting?) :
    s.Comes party action o (s.conclude party o).1 (s.conclude party o).2 where
  waits := hwaits
  deed := by rw [System.deed, if_pos h.party?, questions_conclude, h.inquires]
  returned := by
    rintro id rfl r
    exact returned_mem_concludeCaller (fun r => h.grows.returns id r) r

/-- What a party has done in a run that ends with its work. -/
theorem Comes.deeds (h : s.Comes party action o s' notes')
    (hrun : s₁.run before = some (s, notes)) (hs : s.step action = some (s', notes')) :
    s₁.deeds party (before ++ [action]) =
      s₁.deeds party before ++ ⟨[action], o.progress.question?.toList, s.growth action⟩ := by
  rw [deeds_snoc hrun hs, h.deed]

theorem comes_discovered {reply : Except Failure (Option KindDescriptor)}
    (ha : s.awaiting? party = some (.discovery a c rest next))
    (hs : s.step (.discovered party reply) = some (s', notes)) :
    s.Comes party (.discovered party reply) (s.onDiscovery party a c rest next reply) s' notes := by
  obtain ⟨a', c', rest', next', ha', heq⟩ := (step_cases hs rfl).discovered
  cases ha.symm.trans ha'
  obtain ⟨rfl, rfl⟩ := Prod.ext_iff.mp heq
  have hworks : s.Works (.discovered party reply) party _ := .discovered ha
  exact hworks.comes (hworks.awaiting?_self ha)

theorem comes_checked {reply : Except Failure Unit}
    (ha : s.awaiting? party = some (.access kind scopes scope left next))
    (hs : s.step (.checked party reply) = some (s', notes)) :
    s.Comes party (.checked party reply) (s.onAccess party kind scopes scope left next reply) s'
      notes := by
  obtain ⟨kind', scopes', scope', left', next', ha', heq⟩ := (step_cases hs rfl).checked
  cases ha.symm.trans ha'
  obtain ⟨rfl, rfl⟩ := Prod.ext_iff.mp heq
  have hworks : s.Works (.checked party reply) party _ := .checked ha
  exact hworks.comes (hworks.awaiting?_self ha)

theorem comes_called {call : Call} (ho : s.begin id call = some o)
    (hs : s.step (.call id call) = some (s', notes)) :
    s.Comes (.caller id) (.call id call) o s' notes := by
  simp only [step, ho, Option.map_some] at hs
  obtain ⟨rfl, rfl⟩ := Prod.ext_iff.mp (Option.some.inj hs)
  have hworks : s.Works (.call id call) (.caller id) o := .called ho
  exact hworks.comes ((awaiting?_concludeCaller hworks.grows _).trans (if_pos rfl))

/-- A check that is passed opens the scopes if it was the last. -/
theorem growth_checked (ha : s.awaiting? party = some (.access kind scopes scope left next)) :
    s.growth (.checked party (.ok ())) = if left = [] then [.watch kind scopes] else [] := by
  simp only [growth, ha]
  cases left <;> rfl

theorem growth_discovered (ha : s.awaiting? party = some (.discovery a c rest next)) :
    s.growth (.discovered party (.ok (some kind))) =
      .permit kind.gvr (a.namespacesFor kind) ::
        if (s.registry.permitFor a kind).newScopes kind = [] then [.watch kind []] else [] := by
  simp only [growth, ha]

/-- What a caller does makes of the registry what its growths make of it. -/
theorem registry_of_caller (hs : s.step action = some (s', notes))
    (hp : action.party? = some (.caller id)) :
    s'.registry = (s.registry.growAll (s.growth action)).1 ∧
      Note.watches notes = (s.registry.growAll (s.growth action)).2 := by
  have hstep := step_cases hs (stops_of_party? hp)
  refine ⟨?_, hstep.grown.2⟩
  cases hstep with
  | works h =>
    obtain rfl := Option.some.inj (h.party?.symm.trans hp)
    rw [← h.grows.registry]
    exact registry_concludeCaller id _
  | elsewhere => rfl
  | flows _ h => cases h <;> cases hp
  | unread _ h =>
    rcases h with rfl | ⟨items, rfl⟩
    · cases hp
    · cases hp
  | _ => cases hp

/-- The work behind an answer. -/
theorem exists_work (hs : s.step action = some (s', notes)) (hanswer : action.isAnswer = true)
    (hp : action.party? = some party) :
    ∃ o, s.Works action party o ∧ s' = (s.conclude party o).1 := by
  cases action with
  | discovered p reply =>
    obtain rfl := Option.some.inj hp
    obtain ⟨a, c, rest, next, ha, heq⟩ := (step_cases hs rfl).discovered
    exact ⟨_, .discovered ha, congrArg Prod.fst heq⟩
  | checked p reply =>
    obtain rfl := Option.some.inj hp
    obtain ⟨kind, scopes, scope, left, next, ha, heq⟩ := (step_cases hs rfl).checked
    exact ⟨_, .checked ha, congrArg Prod.fst heq⟩
  | _ => cases hanswer

end System

/-! ## 3. What stays as it was -/

namespace Registry

variable {r r' r'' : Registry}

/-- A registry has every watcher of another, for the same kind, and every reader as it was. -/
def Keeps (r r' : Registry) : Prop :=
  ∀ gvr w, r.watcher? gvr = some w → ∃ w', r'.watcher? gvr = some w' ∧ w'.kind = w.kind ∧
    ∀ scope reader, w.readers.get? scope = some reader → w'.readers.get? scope = some reader

theorem Keeps.refl (r : Registry) : r.Keeps r := fun _ w hw => ⟨w, hw, rfl, fun _ _ hr => hr⟩

theorem Keeps.trans (h : r.Keeps r') (h' : r'.Keeps r'') : r.Keeps r'' := by
  intro gvr w hw
  obtain ⟨w', hw', hkind, hreaders⟩ := h gvr w hw
  obtain ⟨w'', hw'', hkind', hreaders'⟩ := h' gvr w' hw'
  exact ⟨w'', hw'', hkind'.trans hkind, fun scope reader hr => hreaders' _ _ (hreaders _ _ hr)⟩

/-- Growth touches no reader. -/
theorem keeps_grow (r : Registry) (g : Growth) : r.Keeps (r.grow g).1 := by
  cases g with
  | permit gvr namespaces => exact fun g w hw => ⟨w, hw, rfl, fun _ _ hr => hr⟩
  | watch kind scopes =>
    intro gvr w hw
    by_cases hgvr : gvr = kind.gvr
    · subst hgvr
      refine ⟨(openScopes w scopes).1, ?_, congrArg Core.kind (core_openScopes w scopes), ?_⟩
      · rw [grow, watcher?_openWatches, if_pos rfl, hw, Option.getD_some]
      · intro scope reader hr
        rw [get?_readers_openScopes, hr, Option.some_or]
    · refine ⟨w, ?_, rfl, fun _ _ hr => hr⟩
      rw [grow, watcher?_openWatches, if_neg hgvr, hw]

theorem keeps_growAll (r : Registry) (gs : List Growth) : r.Keeps (r.growAll gs).1 := by
  induction gs generalizing r with
  | nil => exact .refl r
  | cons g gs ih => exact (r.keeps_grow g).trans (ih _)

/-- Scopes that are opened in the course of some growths are watched after them. -/
theorem isWatched_growAll {gs : List Growth} {kind : KindDescriptor} {scopes : List String}
    {scope : String} (hg : .watch kind scopes ∈ gs) (hscope : scope ∈ scopes) :
    (r.growAll gs).1.isWatched (kind.gvr, scope) = true := by
  induction gs generalizing r with
  | nil => cases hg
  | cons g gs ih =>
    rcases List.mem_cons.mp hg with rfl | hg
    · refine (widens_growAll _ gs).watched ?_
      exact (r.isWatched_openWatches kind scopes _).mpr (.inl ⟨rfl, hscope⟩)
    · exact ih hg

end Registry

namespace System

variable {s s' s₁ s₂ : System} {party : Party} {action : Action}
  {actions : List Action} {notes notes₂ : List Note} {o : Outcome}

/-- A worker that goes on or stops keeps its readers. -/
theorem keeps_setWorker (s : System) (gvr : GroupVersionResource) (worker : Worker) :
    s.registry.Keeps (s.setWorker gvr worker).registry := by
  intro g w hw
  unfold setWorker
  split
  · exact ⟨w, hw, rfl, fun _ _ hr => hr⟩
  · next v hv =>
    rw [setWatcher, Registry.watcher?_insert]
    split
    · next hg =>
      rw [hg, hv] at hw
      obtain rfl := Option.some.inj hw
      exact ⟨_, rfl, rfl, fun _ _ hr => hr⟩
    · exact ⟨w, hw, rfl, fun _ _ hr => hr⟩

/-- **A party's work touches no reader that is there.** -/
theorem Works.keeps (h : s.Works action party o) :
    s.registry.Keeps (s.conclude party o).1.registry := by
  have hgrown : s.registry.Keeps o.system.registry := by
    rw [h.grows.registry]
    exact s.registry.keeps_growAll _
  refine hgrown.trans ?_
  cases party with
  | caller id =>
    change o.system.registry.Keeps (concludeCaller id o).1.registry
    rw [registry_concludeCaller]
    exact .refl _
  | worker gvr =>
    unfold conclude
    simp only
    split
    · rw [concludeWorker_system]
      exact keeps_setWorker _ _ _
    · exact .refl _

/-- In a run a party makes a step into a state, with the notes of that step. -/
def OwnStep (s : System) (party : Party) (actions : List Action) (s₁ s₂ : System)
    (notes₂ : List Note) : Prop :=
  ∃ before action after notes₁, actions = before ++ action :: after ∧
    s.run before = some (s₁, notes₁) ∧ s₁.step action = some (s₂, notes₂) ∧
    action.party? = some party

/-- The answers that a party is given take nothing away. -/
theorem OwnStep.keeps (h : s.OwnStep party actions s₁ s₂ notes₂)
    (hanswers : ∀ x ∈ actions, x.party? = some party → x.isAnswer = true) :
    s₁.registry.Widens s₂.registry ∧ s₁.registry.Keeps s₂.registry := by
  obtain ⟨before, action, after, notes₁, rfl, -, hs, hp⟩ := h
  have hanswer := hanswers action (List.mem_append_right _ List.mem_cons_self) hp
  obtain ⟨o, hworks, rfl⟩ := exists_work hs hanswer hp
  exact ⟨(step_cases hs (stops_of_party? hp)).widens, hworks.keeps⟩

/-- Each growth among a party's deeds is brought by a step of its own. -/
theorem exists_of_mem_growths {g : Growth} (hrun : s.run actions = some (s', notes))
    (hg : g ∈ (s.deeds party actions).growths) :
    ∃ before action after s₁ notes₁, actions = before ++ action :: after ∧
      s.run before = some (s₁, notes₁) ∧ action.party? = some party ∧ g ∈ s₁.growth action := by
  induction actions generalizing s notes with
  | nil => cases hg
  | cons first rest ih =>
    obtain ⟨s₁, notes₁, notes₂, hs, hmore, rfl⟩ := run_cons hrun
    rw [deeds_cons hs] at hg
    rcases List.mem_append.mp hg with hg | hg
    · unfold deed at hg
      split at hg
      · next hp => exact ⟨[], first, rest, s, [], rfl, rfl, hp, hg⟩
      · cases hg
    · obtain ⟨before, action, after, s₂, notes₃, rfl, hbefore, hp, hmem⟩ := ih hmore hg
      exact ⟨first :: before, action, after, s₂, notes₁ ++ notes₃, rfl,
        run_cons_of_step hs hbefore, hp, hmem⟩

end System

end AppWatch
