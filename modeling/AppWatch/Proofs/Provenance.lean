/-
# Where scopes come from

What is checked and watched goes back to the global list or to something that has happened.  A kind
is watched because a party was told of it, from outside or by discovery on behalf of an application
that declares it (`System.Sourced`).  A namespace is permitted for a kind only within the global
list, and only because it was permitted from outside or because such an application draws
components from it (`System.Drawn`).  Hence a scope that a party has checked is one of three: the
scope of all namespaces for a kind without them, an entry of the global list for the application
kind, and a permitted namespace for any other (`System.Allowed`).

`System.Traced` is what carries this along a run.  It holds over stops too, which take watchers and
workers away but bring no scope; whoever was having scopes checked at a stop may open them after it.
-/
import AppWatch.Proofs.Permissions

namespace AppWatch

/-- The scopes of a kind depend on the application kind and on the permissions alone. -/
theorem Registry.SameWatches.scopesFor_eq {r r' : Registry} (h : r.SameWatches r')
    (kind : KindDescriptor) : r'.scopesFor kind = r.scopesFor kind := by
  unfold scopesFor isApplicationKind
  rw [h.filter, h.applicationKind]

/-! ## 1. Declared kinds -/

/-- The kinds that a plan has before it are declared by its applications. -/
def Plan.Declared : Plan → Prop
  | .components a kinds next => (∀ c ∈ kinds, c ∈ a.componentKinds) ∧ next.Declared
  | .done | .sendBatch _ _ => True

/-- So are those of a party that waits. -/
def Awaiting.Declared : Awaiting → Prop
  | .discovery a c rest next => (∀ d ∈ c :: rest, d ∈ a.componentKinds) ∧ next.Declared
  | .access _ _ _ _ next => next.Declared
  | .room => True

/-- So are those that are before a party that comes to wait. -/
def Progress.Declared (p : Progress) : Prop := ∀ w, p = .waits w → w.Declared

namespace System

variable {s s' : System} {party : Party} {action : Action} {o : Outcome} {notes : List Note}
  {gvr : GroupVersionResource} {kind : KindDescriptor}

theorem declared_room {p : Progress} (h : ∀ w, p = .waits w → w = .room) : p.Declared := by
  intro w hw
  rw [h w hw]
  exact trivial

theorem declared_pursue (s : System) (party : Party) {plan : Plan} (h : plan.Declared) :
    (s.pursue party plan).progress.Declared := by
  fun_induction pursue s party plan with
  | case1 => exact fun w hw => by cases hw
  | case2 a next ih => exact ih h.2
  | case3 a c rest next =>
    rintro w hw
    cases hw
    exact h
  | case4 kind change => exact declared_room fun w => s.sendChange_waits party

theorem declared_checkScopes (s : System) (party : Party) (kind : KindDescriptor)
    (scopes rest : List String) {next : Plan} (h : next.Declared) :
    (s.checkScopes party kind scopes rest next).progress.Declared := by
  cases rest with
  | nil => exact declared_pursue _ party h
  | cons scope rest =>
    rintro w hw
    cases hw
    exact h

theorem declared_handleApplication (s : System) (party : Party) (kind : KindDescriptor)
    (cache : WatchCache) (e : ResourceEvent) :
    (s.handleApplication party kind cache e).progress.Declared := by
  unfold handleApplication
  simp only
  split
  · exact s.declared_pursue party trivial
  · split
    · exact fun w hw => by cases hw
    · exact s.declared_pursue party ⟨fun c hc => hc, trivial⟩

theorem declared_handle (s : System) (party : Party) (w : Watcher) (e : ResourceEvent) :
    (s.handle party w e).progress.Declared := by
  unfold handle
  split
  · exact s.declared_handleApplication party _ _ e
  · exact declared_room fun w => s.sendChange_waits party

/-- A party that goes on has declared kinds before it still. -/
theorem Works.declared (h : s.Works action party o)
    (hbefore : ∀ w, s.awaiting? party = some w → w.Declared) : o.progress.Declared := by
  cases h with
  | @called id c o h =>
    cases c with
    | addToWatch kind =>
      cases h
      exact s.declared_checkScopes _ kind _ _ trivial
    | watchComponents a =>
      cases h
      exact s.declared_pursue _ ⟨fun c hc => hc, trivial⟩
    | handleApplication gvr e =>
      obtain ⟨w, -, rfl⟩ := Option.map_eq_some_iff.mp h
      exact s.declared_handleApplication _ _ _ e
    | handleResource gvr e =>
      obtain ⟨w, -, rfl⟩ := Option.map_eq_some_iff.mp h
      exact declared_room fun w => s.sendChange_waits _
    | send b =>
      cases h
      exact declared_room fun w => s.send_waits _
  | @discovered party a c rest next reply h =>
    obtain ⟨hkinds, hnext⟩ := hbefore _ h
    have hplan : (Plan.components a rest next).Declared :=
      ⟨fun d hd => hkinds d (List.mem_cons_of_mem _ hd), hnext⟩
    cases reply with
    | error f => exact fun w hw => by cases hw
    | ok found =>
      cases found with
      | none => exact s.declared_pursue party hplan
      | some kind => exact declared_checkScopes _ party kind _ _ hplan
  | @checked party kind scopes scope rest next reply h =>
    have hnext : next.Declared := hbefore _ h
    cases reply with
    | error f => exact fun w hw => by cases hw
    | ok _ => exact s.declared_checkScopes party kind scopes rest hnext
  | entered _ => exact fun w hw => by cases hw
  | refused _ _ => exact fun w hw => by cases hw

/-- **A step leaves declared kinds before every party that waits.** -/
theorem Step.declared (h : Step s action s' notes)
    (hbefore : ∀ p w, s.awaiting? p = some w → w.Declared) {p : Party} {w : Awaiting}
    (ha : s'.awaiting? p = some w) : w.Declared := by
  by_cases hp : action.party? = some p
  case neg => exact hbefore p w ((h.awaiting?_eq hp).symm.trans ha)
  rcases h.awaiting_cases hp ha with ⟨o, hworks, hwaits, -⟩ | ⟨s₁, v, e, hwaits⟩
  · exact hworks.declared (hbefore p) w hwaits
  · exact s₁.declared_handle p v e w hwaits

/-! ## 2. What has happened -/

/-- In a run by the given actions discovery has found a kind for an application that declares it. -/
def Finds (s₀ : System) (past : List Action) (a : Application) (kind : KindDescriptor) : Prop :=
  ∃ before mid party s₁ notes₁ c rest next,
    past = before ++ .discovered party (.ok (some kind)) :: mid ∧
    s₀.run before = some (s₁, notes₁) ∧
    s₁.awaiting? party = some (.discovery a c rest next) ∧ c ∈ a.componentKinds

/-- A party was told to watch a kind, from outside or for an application that declares it. -/
def Sourced (s₀ : System) (past : List Action) (kind : KindDescriptor) : Prop :=
  (∃ id, .call id (.addToWatch kind) ∈ past) ∨ ∃ a, s₀.Finds past a kind

/-- A namespace was permitted for a kind from outside, or discovery has found the kind for an
application that draws components of it from there. -/
def Drawn (s₀ : System) (past : List Action) (gvr : GroupVersionResource) (n : String) : Prop :=
  .permit gvr n ∈ past ∨ ∃ a kind, s₀.Finds past a kind ∧ kind.gvr = gvr ∧ n ∈ a.namespacesFor kind

/-- The scopes in which a kind may be looked at after what has happened. -/
inductive Allowed (s₀ : System) (past : List Action) (kind : KindDescriptor) : String → Prop where
  /-- A kind without namespaces. -/
  | clusterWide (hns : kind.namespaced = false) : Allowed s₀ past kind ""
  /-- The application kind, where every namespace is permitted. -/
  | everywhere (hns : kind.namespaced = true)
      (hkind : s₀.registry.isApplicationKind kind = true)
      (hall : s₀.registry.filter.permitsAll = true) : Allowed s₀ past kind ""
  /-- The application kind, where a list says what is permitted. -/
  | listed {n : String} (hns : kind.namespaced = true)
      (hkind : s₀.registry.isApplicationKind kind = true)
      (hall : s₀.registry.filter.permitsAll = false)
      (hn : s₀.registry.filter.global.contains n = true) : Allowed s₀ past kind n
  /-- Any other kind. -/
  | drawn {n : String} (hns : kind.namespaced = true)
      (hkind : s₀.registry.isApplicationKind kind = false)
      (hgrants : s₀.registry.filter.grants n = true) (hn : s₀.Drawn past kind.gvr n) :
      Allowed s₀ past kind n

variable {s₀ : System} {past : List Action} {a : Application} {n scope : String}
  {notes' : List Note}

theorem Finds.snoc (h : s₀.Finds past a kind) (action : Action) :
    s₀.Finds (past ++ [action]) a kind := by
  obtain ⟨before, mid, party, s₁, notes₁, c, rest, next, rfl, hrun, ha, hc⟩ := h
  refine ⟨before, mid ++ [action], party, s₁, notes₁, c, rest, next, ?_, hrun, ha, hc⟩
  rw [List.append_assoc, List.cons_append]

theorem Sourced.snoc (h : s₀.Sourced past kind) (action : Action) :
    s₀.Sourced (past ++ [action]) kind :=
  h.imp (fun ⟨id, hmem⟩ => ⟨id, List.mem_append_left _ hmem⟩) fun ⟨a, ha⟩ => ⟨a, ha.snoc action⟩

theorem Drawn.snoc (h : s₀.Drawn past gvr n) (action : Action) :
    s₀.Drawn (past ++ [action]) gvr n :=
  h.imp (List.mem_append_left _) fun ⟨a, kind, ha, hgvr, hn⟩ => ⟨a, kind, ha.snoc action, hgvr, hn⟩

theorem Allowed.snoc (h : s₀.Allowed past kind scope) (action : Action) :
    s₀.Allowed (past ++ [action]) kind scope := by
  cases h with
  | clusterWide hns => exact .clusterWide hns
  | everywhere hns hkind hall => exact .everywhere hns hkind hall
  | listed hns hkind hall hn => exact .listed hns hkind hall hn
  | drawn hns hkind hgrants hn => exact .drawn hns hkind hgrants (hn.snoc action)

/-- Whoever has caused a kind to be watched was told of it. -/
theorem Finds.told (h : s₀.Finds past a kind) : ∃ x ∈ past, x.told? = some kind := by
  obtain ⟨before, mid, party, s₁, notes₁, c, rest, next, rfl, -⟩ := h
  exact ⟨_, List.mem_append_right _ List.mem_cons_self, rfl⟩

theorem Sourced.told (h : s₀.Sourced past kind) : ∃ x ∈ past, x.told? = some kind := by
  rcases h with ⟨id, hmem⟩ | ⟨a, ha⟩
  · exact ⟨_, hmem, rfl⟩
  · exact ha.told

/-! ## 3. Scopes of a step -/

/-- The scopes that a party sets out to check are those of the kind. -/
theorem Works.mem_scopesFor {scopes rest : List String} {next : Plan}
    (h : s.Works action party o) (htold : action.told? = some kind)
    (ha : o.progress = .waits (.access kind scopes scope rest next)) {x : String}
    (hx : x ∈ scopes) : x ∈ o.system.registry.scopesFor kind := by
  cases h with
  | @called id c o h =>
    cases c with
    | addToWatch k =>
      obtain rfl := Option.some.inj htold
      cases h
      obtain ⟨-, rfl, -, hrest⟩ := s.checkScopes_access _ ha
      rw [addToWatch, hrest]
      exact (Registry.mem_newScopes.mp hx).1
    | _ => cases htold
  | @discovered party a c rest' next' reply h =>
    cases reply with
    | error f => cases ha
    | ok found =>
      cases found with
      | none => cases htold
      | some k =>
        obtain rfl := Option.some.inj htold
        simp only [onDiscovery] at ha ⊢
        obtain ⟨-, rfl, -, hrest⟩ := checkScopes_access _ _ ha
        rw [addToWatch, hrest]
        exact (Registry.mem_newScopes.mp hx).1
  | _ => cases htold

/-- So they are after the step. -/
theorem Step.mem_scopesFor {scopes rest : List String} {next : Plan}
    (h : Step s action s' notes) (htold : action.told? = some kind)
    (hp : action.party? = some party)
    (ha : s'.awaiting? party = some (.access kind scopes scope rest next)) {x : String}
    (hx : x ∈ scopes) : x ∈ s'.registry.scopesFor kind := by
  rcases h.awaiting_cases hp ha with ⟨o, hworks, hwaits, rfl⟩ | ⟨s₁, v, e, hwaits⟩
  · rw [(sameWatches_conclude s party o).1.scopesFor_eq]
    exact hworks.mem_scopesFor htold hwaits hx
  · exact absurd (s₁.handle_not_access _ hwaits) (by simp [Awaiting.isAccess])

/-- A told kind is one that a call brings from outside or that discovery has found for an
application. -/
theorem sourced_of_told (hrun : s₀.run past = some (s, notes))
    (hdeclared : ∀ p w, s.awaiting? p = some w → w.Declared)
    (hs : s.step action = some (s', notes')) (htold : action.told? = some kind) :
    s₀.Sourced (past ++ [action]) kind := by
  have hmem : action ∈ past ++ [action] := List.mem_append_right _ (List.mem_singleton_self _)
  unfold Action.told? at htold
  split at htold
  · next party k =>
    obtain rfl := Option.some.inj htold
    obtain ⟨a, c, rest, next, ha, -⟩ := (step_cases hs rfl).discovered
    have hc := (hdeclared _ _ ha).1 c List.mem_cons_self
    exact .inr ⟨a, past, [], party, s, notes, c, rest, next, rfl, hrun, ha, hc⟩
  · next id k =>
    obtain rfl := Option.some.inj htold
    exact .inl ⟨id, hmem⟩
  · cases htold

/-- Where a permission comes from: a namespace from outside, or what discovery has found for an
application. -/
theorem mem_growth_permit {l : List String} (h : .permit gvr l ∈ s.growth action) :
    (∃ ns, action = .permit gvr ns ∧ l = [ns]) ∨
      ∃ party a c rest next kind, action = .discovered party (.ok (some kind)) ∧
        s.awaiting? party = some (.discovery a c rest next) ∧ kind.gvr = gvr ∧
        l = a.namespacesFor kind := by
  unfold growth at h
  split at h
  · next party kind =>
    split at h
    · next a c rest next ha =>
      rcases List.mem_cons.mp h with he | hmem
      · cases he
        exact .inr ⟨party, a, c, rest, next, kind, rfl, ha, rfl, rfl⟩
      · split at hmem
        · cases List.mem_singleton.mp hmem
        · cases hmem
    · cases h
  · split at h
    · cases List.mem_singleton.mp h
    · cases h
  · split at h
    · cases List.mem_singleton.mp h
    · cases h
  · cases List.mem_singleton.mp h
    exact .inl ⟨_, rfl, rfl⟩
  · cases h

end System

/-- What some growths permit for a kind was permitted before or is granted to one of them. -/
theorem Registry.mem_permitted_growAll {r : Registry} {gs : List Growth}
    {gvr : GroupVersionResource} {n : String}
    (h : n ∈ (r.growAll gs).1.filter.permittedNamespaces gvr) :
    n ∈ r.filter.permittedNamespaces gvr ∨
      r.filter.grants n = true ∧ ∃ l, .permit gvr l ∈ gs ∧ n ∈ l := by
  induction gs generalizing r with
  | nil => exact .inl h
  | cons g gs ih =>
    have hglobal := (r.widens_grow g).global
    rcases ih h with hbefore | ⟨hgrants, l, hmem, hn⟩
    · cases g with
      | watch kind scopes => exact .inl hbefore
      | permit gvr' l =>
        rcases NamespaceFilter.mem_permittedNamespaces_permitEach.mp hbefore with
          hbefore | ⟨rfl, hn, hgrants⟩
        · exact .inl hbefore
        · exact .inr ⟨hgrants, l, List.mem_cons_self, hn⟩
    · rw [NamespaceFilter.grants_congr hglobal] at hgrants
      exact .inr ⟨hgrants, l, List.mem_cons_of_mem _ hmem, hn⟩

namespace System

variable {s₀ s s' : System} {party : Party} {action : Action} {actions past : List Action}
  {notes notes' : List Note} {kind : KindDescriptor} {gvr : GroupVersionResource} {scope : String}

/-! ## 4. What is known along a run -/

/-- What is known when a run has led to a state. -/
structure Traced (s₀ : System) (past : List Action) (s : System) (notes : List Note) : Prop where
  run : s₀.run past = some (s, notes)
  settings : s₀.registry.SameSettings s.registry
  permitted : ∀ {gvr n}, n ∈ s.registry.filter.permittedNamespaces gvr →
    s₀.registry.filter.grants n = true ∧ s₀.Drawn past gvr n
  watches : s.registry.WatchesOnly (s₀.Sourced past)
  declared : ∀ p w, s.awaiting? p = some w → w.Declared
  checks : ∀ {party kind scopes scope rest next},
    s.awaiting? party = some (.access kind scopes scope rest next) →
      s₀.Sourced past kind ∧ (∀ x ∈ scopes, s₀.Allowed past kind x) ∧
        ∀ x ∈ scope :: rest, x ∈ scopes

/-- The scopes in which a kind should be watched are allowed. -/
theorem allowed_of_mem_scopesFor {r : Registry} (hsettings : s₀.registry.SameSettings r)
    (hpermitted : ∀ {gvr n}, n ∈ r.filter.permittedNamespaces gvr →
      s₀.registry.filter.grants n = true ∧ s₀.Drawn past gvr n)
    (h : scope ∈ r.scopesFor kind) : s₀.Allowed past kind scope := by
  have hkind : r.isApplicationKind kind = s₀.registry.isApplicationKind kind := by
    rw [Registry.isApplicationKind, hsettings.applicationKind, Registry.isApplicationKind]
  have hglobal : r.filter.global = s₀.registry.filter.global := hsettings.global
  unfold Registry.scopesFor at h
  split at h
  · next hns =>
    rw [List.mem_singleton.mp h]
    exact .clusterWide (by simpa using hns)
  · next hns =>
    have hns : kind.namespaced = true := by simpa using hns
    split at h
    · next happ =>
      rw [hkind] at happ
      split at h
      · next hall =>
        rw [NamespaceFilter.permitsAll, hglobal] at hall
        rw [List.mem_singleton.mp h]
        exact .everywhere hns happ hall
      · next hall =>
        rw [NamespaceFilter.permitsAll, hglobal] at hall
        rw [NamespaceFilter.globalNamespaces, hglobal] at h
        exact .listed hns happ (Bool.eq_false_iff.mpr hall)
          (SortedMap.contains_iff_mem_keys.mpr h)
    · next happ =>
      rw [hkind] at happ
      obtain ⟨hgrants, hdrawn⟩ := hpermitted h
      exact .drawn hns (Bool.eq_false_iff.mpr happ) hgrants hdrawn

/-- Whoever opens scopes was told of the kind and has checked the scopes. -/
theorem Traced.opens (h : s₀.Traced past s notes) (hs : s.step action = some (s', notes'))
    {scopes : List String} (hmem : .watch kind scopes ∈ s.growth action) :
    s₀.Sourced (past ++ [action]) kind ∧ ∀ x ∈ scopes, s₀.Allowed past kind x := by
  rcases mem_growth hmem with ⟨htold, rfl⟩ | ⟨party, last, next, rfl, ha⟩
  · exact ⟨sourced_of_told h.run h.declared hs htold, fun x hx => absurd hx (by simp)⟩
  · obtain ⟨hsourced, hallowed, -⟩ := h.checks ha
    exact ⟨hsourced.snoc _, hallowed⟩

/-- Nothing is permitted but what is granted and drawn. -/
theorem Traced.permitted_step (h : s₀.Traced past s notes) (hstep : Step s action s' notes')
    {n : String} (hn : n ∈ s'.registry.filter.permittedNamespaces gvr) :
    s₀.registry.filter.grants n = true ∧ s₀.Drawn (past ++ [action]) gvr n := by
  have hmem : action ∈ past ++ [action] := List.mem_append_right _ (List.mem_singleton_self _)
  rw [hstep.grown.1.filter] at hn
  rcases Registry.mem_permitted_growAll hn with hbefore | ⟨hgrants, l, hl, hn⟩
  · obtain ⟨hgrants, hdrawn⟩ := h.permitted hbefore
    exact ⟨hgrants, hdrawn.snoc action⟩
  · rw [NamespaceFilter.grants_congr h.settings.global] at hgrants
    refine ⟨hgrants, ?_⟩
    rcases mem_growth_permit hl with ⟨ns, rfl, rfl⟩ | ⟨party, a, c, rest, next, kind, rfl, ha,
      hgvr, rfl⟩
    · rw [List.mem_singleton.mp hn]
      exact .inl hmem
    · have hc := (h.declared _ _ ha).1 c List.mem_cons_self
      exact .inr ⟨a, kind, ⟨past, [], party, s, notes, c, rest, next, rfl, h.run, ha, hc⟩, hgvr, hn⟩

/-- **A step of a running engine keeps everything that is known.** -/
theorem Traced.step_running (h : s₀.Traced past s notes) (hs : s.step action = some (s', notes'))
    (hstep : Step s action s' notes') : s₀.Traced (past ++ [action]) s' (notes ++ notes') := by
  have hsame := hstep.grown.1
  have hsettings : s₀.registry.SameSettings s'.registry :=
    h.settings.trans hstep.widens.toSameSettings
  refine ⟨run_append h.run (run_one hs), hsettings, h.permitted_step hstep, ?_,
    fun p w => hstep.declared h.declared, ?_⟩
  · have hwatches : s.registry.WatchesOnly (s₀.Sourced (past ++ [action])) := fun gvr w hw =>
      (h.watches gvr w hw).imp_right fun hsourced => hsourced.snoc action
    exact (hwatches.growAll fun kind scopes hmem => (h.opens hs hmem).1).of_sameWatches hsame
  · intro party kind scopes scope rest next ha
    rcases hstep.access ha with ⟨hbefore, -⟩ | ⟨rfl, last, hbefore⟩ | ⟨htold, hp, hscopes⟩
    · obtain ⟨hsourced, hallowed, hrest⟩ := h.checks hbefore
      exact ⟨hsourced.snoc _, fun x hx => (hallowed x hx).snoc _, hrest⟩
    · obtain ⟨hsourced, hallowed, hrest⟩ := h.checks hbefore
      exact ⟨hsourced.snoc _, fun x hx => (hallowed x hx).snoc _,
        (List.forall_mem_cons.mp hrest).2⟩
    · refine ⟨sourced_of_told h.run h.declared hs htold, fun x hx => ?_, fun x hx => hscopes ▸ hx⟩
      exact allowed_of_mem_scopesFor hsettings (h.permitted_step hstep)
        (hstep.mem_scopesFor htold hp ha hx)

/-- What a stop leaves: the permissions, fewer watchers, and fewer parties that wait. -/
structure Stopped (s s' : System) : Prop where
  settings : s.registry.SameSettings s'.registry
  filter : s'.registry.filter = s.registry.filter
  watches : ∀ {gvr w'}, s'.registry.watcher? gvr = some w' →
    ∃ w, s.registry.watcher? gvr = some w ∧ w.kind = w'.kind
  waits : ∀ {p w}, s'.awaiting? p = some w → s.awaiting? p = some w

theorem stopped_of_stops (hs : s.step action = some (s', notes)) (hstop : action.stops = true) :
    s.Stopped s' ∧ notes = [] := by
  cases action with
  | stop =>
    cases hs
    refine ⟨⟨⟨rfl, rfl, rfl⟩, rfl, fun hw => ?_, fun {p w} ha => ?_⟩, rfl⟩
    · cases hw
    · cases p with
      | caller id => exact ha
      | worker gvr => cases ha
  | stopWatcher gvr =>
    cases hs
    refine ⟨⟨⟨rfl, rfl, rfl⟩, rfl, fun {g w'} hw => ?_, fun {p w} ha => ?_⟩, rfl⟩
    · change (s.registry.stopWatcher gvr).watcher? g = some w' at hw
      rw [Registry.watcher?_stopWatcher] at hw
      split at hw
      · next hg =>
        obtain ⟨w, hbefore, rfl⟩ := Option.map_eq_some_iff.mp hw
        exact ⟨w, hg ▸ hbefore, rfl⟩
      · exact ⟨w', hw, rfl⟩
    · cases p with
      | caller id => exact ha
      | worker g =>
        rw [awaiting?_worker] at ha ⊢
        change ((s.registry.stopWatcher gvr).core? g).bind _ = _ at ha
        rw [Registry.core?_stopWatcher] at ha
        split at ha
        · cases hc : s.registry.core? gvr <;> rw [hc] at ha <;> cases ha
        · exact ha
  | _ => cases hstop

/-- What others do leaves a caller waiting, also if they stop the engine. -/
theorem awaiting?_caller_of_ne {id : Nat} (hs : s.step action = some (s', notes))
    (hp : action.party? ≠ some (.caller id)) :
    s'.awaiting? (.caller id) = s.awaiting? (.caller id) := by
  cases hstop : action.stops with
  | false => exact (step_cases hs hstop).awaiting?_eq hp
  | true =>
    cases action with
    | stop =>
      cases hs
      rfl
    | stopWatcher gvr =>
      cases hs
      rfl
    | _ => cases hstop

/-- A call returns by an action of its own, whoever stops the engine. -/
theorem party?_of_returned {id : Nat} {result : Except Failure Unit}
    (hs : s.step action = some (s', notes)) (hmem : .returned id result ∈ notes) :
    action.party? = some (.caller id) := by
  cases hstop : action.stops with
  | false => exact (step_cases hs hstop).party?_of_returned hmem
  | true =>
    rw [(stopped_of_stops hs hstop).2] at hmem
    cases hmem

/-- A stop brings no scope. -/
theorem Traced.step_stopping (h : s₀.Traced past s notes)
    (hs : s.step action = some (s', notes')) (hstop : s.Stopped s') :
    s₀.Traced (past ++ [action]) s' (notes ++ notes') := by
  refine ⟨run_append h.run (run_one hs), h.settings.trans hstop.settings, fun {gvr n} hn => ?_,
    fun gvr w' hw' => ?_, fun p w ha => h.declared p w (hstop.waits ha), fun ha => ?_⟩
  · rw [hstop.filter] at hn
    exact (h.permitted hn).imp_right fun hdrawn => hdrawn.snoc action
  · obtain ⟨w, hw, hkind⟩ := hstop.watches hw'
    rw [← hkind]
    exact (h.watches gvr w hw).imp_right fun hsourced => hsourced.snoc action
  · obtain ⟨hsourced, hallowed, hrest⟩ := h.checks (hstop.waits ha)
    exact ⟨hsourced.snoc _, fun x hx => (hallowed x hx).snoc _, hrest⟩

theorem Traced.step (h : s₀.Traced past s notes) (hs : s.step action = some (s', notes')) :
    s₀.Traced (past ++ [action]) s' (notes ++ notes') := by
  cases hstop : action.stops with
  | false => exact h.step_running hs (step_cases hs hstop)
  | true => exact h.step_stopping hs (stopped_of_stops hs hstop).1

theorem Traced.run_of (h : s₀.Traced past s notes) (hrun : s.run actions = some (s', notes')) :
    s₀.Traced (past ++ actions) s' (notes ++ notes') :=
  run_keeps (fun h _ hs => h.step hs) h hrun fun _ _ => trivial

/-- In the beginning nothing is permitted and nobody waits. -/
theorem traced_fresh (applicationKind : KindDescriptor) (namespacesKey : String)
    (namespaces : List String) (capacity window now : Nat) :
    (fresh applicationKind namespacesKey namespaces capacity window now).Traced []
      (fresh applicationKind namespacesKey namespaces capacity window now) [] := by
  have hnone : ∀ p, (fresh applicationKind namespacesKey namespaces capacity window now).awaiting?
      p = none := fun p => by
    cases p <;> rfl
  refine ⟨rfl, .refl _, fun hn => ?_, fun gvr w hw => ?_, fun p w ha => ?_, fun ha => ?_⟩
  · exact absurd hn List.not_mem_nil
  · cases hw
  · rw [hnone] at ha
    cases ha
  · rw [hnone] at ha
    cases ha

/-- **Where a watch comes from**: the watcher's kind was told, and so was the kind, under the same
name, for which the scope was found allowed. -/
theorem Traced.watched (h : s₀.Traced past s notes) (hs : s.step action = some (s', notes'))
    {k : KindDescriptor} (hmem : (k, scope) ∈ Note.watches notes') :
    ∃ kind, k.gvr = kind.gvr ∧ s₀.Allowed past kind scope ∧
      s₀.Sourced (past ++ [action]) k ∧ s₀.Sourced (past ++ [action]) kind := by
  cases hstop : action.stops with
  | true =>
    rw [(stopped_of_stops hs hstop).2] at hmem
    cases hmem
  | false =>
    have hstep := step_cases hs hstop
    rw [hstep.grown.2] at hmem
    obtain ⟨kind, scopes, hgrowth, hscope, hkind⟩ := Registry.mem_watches_growAll hmem
    obtain ⟨c, hc, rfl⟩ := Option.map_eq_some_iff.mp hkind
    obtain ⟨w, hw, rfl⟩ := Registry.exists_watcher_of_core? hc
    obtain ⟨hsourced, hallowed⟩ := h.opens hs hgrowth
    have hwatches : s.registry.WatchesOnly (s₀.Sourced (past ++ [action])) := fun gvr w hw =>
      (h.watches gvr w hw).imp_right fun hsourced => hsourced.snoc action
    obtain ⟨hgvr, htold⟩ := hwatches.growAll (fun _ _ hmem => (h.opens hs hmem).1) _ w hw
    exact ⟨kind, hgvr, hallowed scope hscope, htold, hsourced⟩

end System

end AppWatch
