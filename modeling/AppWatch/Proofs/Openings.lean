/-
# Every scope is watched once, and only after it was found listable

Several parties may be watching the same kind at the same time.  Each reads from the registry which
scopes are not watched yet, has them checked one by one, and acts in the end on what it read in the
beginning, when others may long have acted.  Nevertheless no scope is watched twice: a party opens
its scopes in one step, and what is watched by then is passed over.  So in every state the watches
that have been asked for are, each once, the ones that readers are there for (`Opened.asked`).

The other way round, no watch is asked for on trust.  The scopes that a party opens in the end are
those it has had checked since it was told of the kind, and each of these checks was answered well
(`Granted`); for the check that is under way is always the next one of those scopes, with all
scopes before it granted (`Opened.checks`).
-/
import AppWatch.Proofs.Waits

namespace AppWatch

/-! ## 1. What is asked for and what is watched -/

/-- The kinds and scopes of the watches that are asked for in some notes. -/
def Note.asked (notes : List Note) : List (GroupVersionResource × String) :=
  (watches notes).map fun x => (x.1.gvr, x.2)

/-- Whether a watcher is the one of a kind and has a reader for a scope. -/
def Watcher.isReading (w : Watcher) (x : GroupVersionResource × String) : Bool :=
  w.kind.gvr = x.1 && w.hasScope x.2

/-- A new reader is the only difference. -/
theorem Watcher.isReading_openScope {w : Watcher} {scope : String} (h : w.hasScope scope = false)
    (x : GroupVersionResource × String) :
    (w.openScope scope).isReading x = (decide ((w.kind.gvr, scope) = x) || w.isReading x) := by
  obtain ⟨gvr, other⟩ := x
  have hopened : w.openScope scope = { w with readers := w.readers.insert scope {} } := by
    rw [openScope, h, if_neg Bool.false_ne_true]
  rw [hopened]
  simp only [isReading, hasScope, SortedMap.contains, SortedMap.get?_insert, Prod.mk.injEq]
  by_cases hgvr : w.kind.gvr = gvr
  · by_cases hscope : other = scope
    · simp [hgvr, hscope]
    · simp [hgvr, hscope, Ne.symm hscope]
  · simp [hgvr]

namespace Registry

variable {r r' : Registry} {P : KindDescriptor → Prop} {g : Growth} {gs : List Growth}
  {k : KindDescriptor} {scope : String}

/-- Whether a kind is watched in a scope. -/
def isWatched (r : Registry) (x : GroupVersionResource × String) : Bool :=
  (r.watcher? x.1).any fun w => w.hasScope x.2

/-- Every watcher stands under its own kind, and only such kinds are watched. -/
def WatchesOnly (r : Registry) (P : KindDescriptor → Prop) : Prop :=
  ∀ gvr w, r.watcher? gvr = some w → w.kind.gvr = gvr ∧ P w.kind

/-! ## 2. What growths open -/

/-- The readers that are opened are those that are asked for. -/
theorem count_openScopes (w : Watcher) (scopes : List String)
    (x : GroupVersionResource × String) :
    (((openScopes w scopes).2.filterMap ClientCall.watch?).map fun x => (x.1.gvr, x.2)).count x +
      (w.isReading x).toNat = ((openScopes w scopes).1.isReading x).toNat := by
  induction scopes generalizing w with
  | nil => exact Nat.zero_add _
  | cons scope rest ih =>
    have hrest := ih (w.openScope scope)
    cases hscope : w.hasScope scope with
    | true =>
      rw [Watcher.openScope, if_pos hscope] at hrest
      simp only [openScopes, Watcher.openScope, hscope, ↓reduceIte]
      exact hrest
    | false =>
      rw [Watcher.isReading_openScope hscope] at hrest
      simp only [openScopes, hscope, Bool.false_eq_true, ↓reduceIte, ClientCall.watch?,
        List.filterMap_cons, List.map_cons, List.count_cons, beq_iff_eq]
      by_cases hx : (w.kind.gvr, scope) = x
      · have hnone : w.isReading x = false := by
          rw [← hx]
          simp [Watcher.isReading, hscope]
        rw [if_pos hx, hnone]
        simp only [hx, hnone, decide_true, Bool.or_false, Bool.toNat_true, Bool.toNat_false]
          at hrest ⊢
        exact hrest
      · rw [if_neg hx, Nat.add_zero]
        simp only [hx, decide_false, Bool.false_or] at hrest
        exact hrest

/-- A watch is asked for as the watcher's kind, in one of the scopes. -/
theorem mem_watches_openScopes {w : Watcher} {scopes : List String}
    (h : (k, scope) ∈ (openScopes w scopes).2.filterMap ClientCall.watch?) :
    k = w.kind ∧ scope ∈ scopes := by
  induction scopes generalizing w with
  | nil => cases h
  | cons first rest ih =>
    have hkind : (w.openScope first).kind = w.kind :=
      congrArg Core.kind (core_openScope w first)
    have hrest : (k, scope) ∈ (openScopes (w.openScope first) rest).2.filterMap
        ClientCall.watch? → k = w.kind ∧ scope ∈ first :: rest := fun hmem =>
      ⟨(ih hmem).1.trans hkind, List.mem_cons_of_mem _ (ih hmem).2⟩
    simp only [openScopes] at h
    split at h
    · exact hrest h
    · rcases List.mem_cons.mp h with he | hmem
      · obtain ⟨rfl, rfl⟩ := Prod.mk.inj he
        exact ⟨rfl, List.mem_cons_self⟩
      · exact hrest hmem

/-- Scopes that are opened have new readers, unless they had readers before. -/
theorem get?_readers_openScopes (w : Watcher) (scopes : List String) (scope : String) :
    (openScopes w scopes).1.readers.get? scope =
      (w.readers.get? scope).or (if scope ∈ scopes then some {} else none) := by
  induction scopes generalizing w with
  | nil => simp [openScopes]
  | cons first rest ih =>
    have hfirst : (w.openScope first).readers.get? scope =
        (w.readers.get? scope).or (if scope = first then some {} else none) := by
      unfold Watcher.openScope
      split
      · next hhas =>
        by_cases he : scope = first
        · obtain ⟨r, hr⟩ := Option.isSome_iff_exists.mp hhas
          rw [he, hr, Option.some_or]
        · rw [if_neg he, Option.or_none]
      · next hhas =>
        rw [SortedMap.get?_insert]
        by_cases he : scope = first
        · have hnone : w.readers.get? first = none := by
            simpa [Watcher.hasScope, SortedMap.contains] using hhas
          rw [if_pos he, if_pos he, he, hnone, Option.none_or]
        · rw [if_neg he, if_neg he, Option.or_none]
    rw [openScopes, ih, hfirst, Option.or_assoc]
    congr 1
    by_cases he : scope = first <;> simp [he]

/-- To open watches changes the watcher of the kind only. -/
theorem watcher?_openWatches (r : Registry) (kind : KindDescriptor) (scopes : List String)
    (gvr : GroupVersionResource) : (r.openWatches kind scopes).1.watcher? gvr =
      if gvr = kind.gvr then
        some (openScopes ((r.watcher? kind.gvr).getD { kind := kind }) scopes).1
      else r.watcher? gvr := watcher?_insert ..

/-- The kind of the watcher to which scopes are added. -/
theorem WatchesOnly.kind_getD (h : r.WatchesOnly P) {kind : KindDescriptor} (hkind : P kind) :
    ((r.watcher? kind.gvr).getD { kind := kind }).kind.gvr = kind.gvr ∧
      P ((r.watcher? kind.gvr).getD { kind := kind }).kind := by
  cases hw : r.watcher? kind.gvr with
  | none => exact ⟨rfl, hkind⟩
  | some w => exact h kind.gvr w hw

theorem WatchesOnly.grow (h : r.WatchesOnly P)
    (hg : ∀ kind scopes, g = .watch kind scopes → P kind) : (r.grow g).1.WatchesOnly P := by
  cases g with
  | permit gvr namespaces => exact h
  | watch kind scopes =>
    intro gvr w hw
    rw [grow, watcher?_openWatches] at hw
    split at hw
    · next hgvr =>
      obtain rfl := Option.some.inj hw
      have hkind := congrArg Core.kind
        (core_openScopes ((r.watcher? kind.gvr).getD { kind := kind }) scopes)
      have hadded := h.kind_getD (hg kind scopes rfl)
      rw [show (openScopes _ scopes).1.kind = _ from hkind, hgvr]
      exact hadded
    · exact h gvr w hw

theorem WatchesOnly.growAll (h : r.WatchesOnly P)
    (hgs : ∀ kind scopes, .watch kind scopes ∈ gs → P kind) : (r.growAll gs).1.WatchesOnly P := by
  induction gs generalizing r with
  | nil => exact h
  | cons g gs ih =>
    refine ih (h.grow ?_) fun kind scopes hmem => hgs kind scopes (List.mem_cons_of_mem _ hmem)
    rintro kind scopes rfl
    exact hgs kind scopes List.mem_cons_self

/-- Where watchers stand under their kinds, a kind is watched in a scope if its watcher reads it. -/
theorem WatchesOnly.isWatched_eq (h : r.WatchesOnly P) (x : GroupVersionResource × String) :
    r.isWatched x = (r.watcher? x.1).any fun w => w.isReading x := by
  unfold isWatched
  cases hw : r.watcher? x.1 with
  | none => rfl
  | some w => simp [Watcher.isReading, (h x.1 w hw).1]

/-- **A growth asks once for what is watched after it and was not watched before.** -/
theorem WatchesOnly.count_grow (h : r.WatchesOnly P)
    (hg : ∀ kind scopes, g = .watch kind scopes → P kind) (x : GroupVersionResource × String) :
    ((r.grow g).2.map fun x => (x.1.gvr, x.2)).count x + (r.isWatched x).toNat =
      ((r.grow g).1.isWatched x).toNat := by
  have hafter := h.grow hg
  cases g with
  | permit gvr namespaces => exact Nat.zero_add _
  | watch kind scopes =>
    have hcount := count_openScopes ((r.watcher? kind.gvr).getD { kind := kind }) scopes x
    obtain ⟨hkind, -⟩ := h.kind_getD (hg kind scopes rfl)
    rw [h.isWatched_eq, hafter.isWatched_eq, Registry.grow, watcher?_openWatches]
    by_cases hx : x.1 = kind.gvr
    · rw [if_pos hx, hx, Option.any_some, ← hcount]
      congr 2
      cases r.watcher? kind.gvr with
      | none => simp [Watcher.isReading, Watcher.hasScope, SortedMap.contains]
      | some w => rfl
    · have hnot : ∀ w : Watcher, w.kind.gvr = kind.gvr → w.isReading x = false := fun w hw => by
        simp [Watcher.isReading, hw, Ne.symm hx]
      have hopened := congrArg Core.kind
        (core_openScopes ((r.watcher? kind.gvr).getD { kind := kind }) scopes)
      rw [hnot _ hkind, hnot _ ((congrArg KindDescriptor.gvr hopened).trans hkind)] at hcount
      rw [if_neg hx]
      exact (congrArg (· + _) hcount).trans (Nat.zero_add _)

theorem WatchesOnly.count_growAll (h : r.WatchesOnly P)
    (hgs : ∀ kind scopes, .watch kind scopes ∈ gs → P kind)
    (x : GroupVersionResource × String) :
    ((r.growAll gs).2.map fun x => (x.1.gvr, x.2)).count x + (r.isWatched x).toNat =
      ((r.growAll gs).1.isWatched x).toNat := by
  induction gs generalizing r with
  | nil => exact Nat.zero_add _
  | cons g gs ih =>
    have hg : ∀ kind scopes, g = .watch kind scopes → P kind := by
      rintro kind scopes rfl
      exact hgs kind scopes List.mem_cons_self
    have hfirst := h.count_grow hg x
    have hrest := ih (h.grow hg) fun kind scopes hmem =>
      hgs kind scopes (List.mem_cons_of_mem _ hmem)
    simp only [Registry.growAll, List.map_append, List.count_append]
    omega

/-- **Where a watch comes from**: a growth in that scope, and the watcher is of the kind as which
the watch is asked for. -/
theorem mem_watches_growAll (h : (k, scope) ∈ (r.growAll gs).2) :
    ∃ kind scopes, .watch kind scopes ∈ gs ∧ scope ∈ scopes ∧
      ((r.growAll gs).1.core? kind.gvr).map Core.kind = some k := by
  induction gs generalizing r with
  | nil => cases h
  | cons g gs ih =>
    rcases List.mem_append.mp h with hg | hgs
    · cases g with
      | permit gvr namespaces => cases hg
      | watch kind scopes =>
        obtain ⟨rfl, hscope⟩ := mem_watches_openScopes hg
        refine ⟨kind, scopes, List.mem_cons_self, hscope, ?_⟩
        have hcore : (r.grow (.watch kind scopes)).1.core? kind.gvr =
            some ((r.watcher? kind.gvr).getD { kind := kind }).core := by
          rw [core?, grow, watcher?_openWatches, if_pos rfl, Option.map_some, core_openScopes]
        have hext := extends_growAll (r.grow (.watch kind scopes)).1 gs
        rw [Registry.growAll, hext.core?_eq_some hcore]
        rfl
    · obtain ⟨kind, scopes, hmem, hscope, hkind⟩ := ih hgs
      exact ⟨kind, scopes, List.mem_cons_of_mem _ hmem, hscope, hkind⟩

/-- Watchers that stand under their kinds are of different kinds. -/
theorem WatchesOnly.nodup_kinds (h : r.WatchesOnly P) :
    (r.watchers.values.map fun w => w.kind.gvr).Nodup := by
  refine List.pairwise_map.mpr (List.pairwise_map.mpr ?_)
  refine List.Pairwise.imp_of_mem ?_ r.watchers.ascending
  intro e e' he he' hlt heq
  rw [(h e.1 e.2 (SortedMap.get?_eq_some_iff.mpr he)).1,
    (h e'.1 e'.2 (SortedMap.get?_eq_some_iff.mpr he')).1] at heq
  rw [heq] at hlt
  simp at hlt

theorem WatchesOnly.of_sameWatches (h : r.WatchesOnly P) (hsame : r.SameWatches r') :
    r'.WatchesOnly P := by
  intro gvr w' hw'
  have he := hsame.watching gvr
  rw [hw'] at he
  obtain ⟨w, hw, hwatching⟩ := Option.map_eq_some_iff.mp he.symm
  have hkind : w.kind = w'.kind := congrArg Prod.fst hwatching
  exact hkind ▸ h gvr w hw

theorem SameWatches.isWatched_eq (h : r.SameWatches r') (x : GroupVersionResource × String) :
    r'.isWatched x = r.isWatched x := by
  have heq : ∀ r : Registry, r.isWatched x =
      ((r.watcher? x.1).map Watcher.watching).any fun v => v.2 x.2 := fun r => by
    rw [Option.any_map]
    rfl
  rw [heq, heq, h.watching]

end Registry

/-! ## 3. What a check is good for -/

namespace System

variable {s₀ s s' : System} {past : List Action} {action : Action} {party : Party}
  {k kind : KindDescriptor} {scopes : List String} {scope : String} {next : Plan}
  {notes notes' : List Note}

theorem run_append {before after : List Action} (h : s₀.run before = some (s, notes))
    (hafter : s.run after = some (s', notes')) :
    s₀.run (before ++ after) = some (s', notes ++ notes') := by
  induction before generalizing s₀ notes with
  | nil =>
    cases h
    exact hafter
  | cons a before ih =>
    obtain ⟨s₁, notes₁, notes₂, hstep, hrun, rfl⟩ := run_cons h
    rw [List.append_assoc]
    exact run_cons_of_step hstep (ih hrun)

/-- A run is made in parts. -/
theorem exists_run_of_append {before after : List Action}
    (hrun : s.run (before ++ after) = some (s', notes)) :
    ∃ s₁ notes₁ notes₂, s.run before = some (s₁, notes₁) ∧ s₁.run after = some (s', notes₂) ∧
      notes = notes₁ ++ notes₂ := by
  induction before generalizing s notes with
  | nil => exact ⟨s, [], notes, rfl, hrun, rfl⟩
  | cons action before ih =>
    obtain ⟨s₁, notes₁, notes₂, hs, hmore, rfl⟩ := run_cons hrun
    obtain ⟨s₂, notes₃, notes₄, hbefore, hafter, rfl⟩ := ih hmore
    refine ⟨s₂, notes₁ ++ notes₃, notes₄, run_cons_of_step hs hbefore, hafter, ?_⟩
    rw [List.append_assoc]

/-- What is left of a run when its first part has been made. -/
theorem exists_run_after {before after : List Action} {s₁ : System}
    (hrun : s.run (before ++ after) = some (s', notes))
    (hbefore : s.run before = some (s₁, notes')) : ∃ notes₂, s₁.run after = some (s', notes₂) := by
  obtain ⟨s₂, notes₁, notes₂, hfirst, hafter, -⟩ := exists_run_of_append hrun
  rw [hbefore] at hfirst
  obtain ⟨rfl, -⟩ := Prod.mk.inj (Option.some.inj hfirst)
  exact ⟨notes₂, hafter⟩

theorem run_one (h : s.step action = some (s', notes)) : s.run [action] = some (s', notes) := by
  have hone : s.run [action] = some (s', notes ++ []) := run_cons_of_step h rfl
  rwa [List.append_nil] at hone

/-- **What every step keeps a run keeps.** -/
theorem run_keeps {P : List Action → System → List Note → Prop} {Q : Action → Prop}
    (hkeeps : ∀ {past s notes action s' notes'}, P past s notes → Q action →
      s.step action = some (s', notes') → P (past ++ [action]) s' (notes ++ notes'))
    (h : P past s notes) {actions : List Action} (hrun : s.run actions = some (s', notes'))
    (hall : ∀ x ∈ actions, Q x) : P (past ++ actions) s' (notes ++ notes') := by
  induction actions generalizing past s notes notes' with
  | nil =>
    cases hrun
    rw [List.append_nil, List.append_nil]
    exact h
  | cons action rest ih =>
    obtain ⟨hfirst, hrest⟩ := List.forall_mem_cons.mp hall
    obtain ⟨s₁, notes₁, notes₂, hs, hmore, rfl⟩ := run_cons hrun
    have hkept := ih (hkeeps h hfirst hs) hmore hrest
    rw [List.append_assoc, List.append_assoc] at hkept
    exact hkept

/-- In a run by the given actions a party was told that a scope of the kind can be listed, one of
the scopes it was having checked then; and all it was told since is that further scopes can. -/
def Granted (s₀ : System) (actions : List Action) (party : Party) (kind : KindDescriptor)
    (scopes : List String) (next : Plan) (scope : String) : Prop :=
  ∃ before mid s₁ notes₁ rest, actions = before ++ .checked party (.ok ()) :: mid ∧
    s₀.run before = some (s₁, notes₁) ∧
    s₁.awaiting? party = some (.access kind scopes scope rest next) ∧
    ∀ a ∈ mid, a.party? = some party → a = .checked party (.ok ())

/-- What is known when a run has led to a state: every watched kind is one that somebody was told,
each watch was asked for once, and the scopes before the one that is being checked are granted. -/
structure Opened (s₀ : System) (past : List Action) (s : System) (notes : List Note) : Prop where
  run : s₀.run past = some (s, notes)
  applicationKind : s.registry.applicationKind = s₀.registry.applicationKind
  watches : s.registry.WatchesOnly fun kind => ∃ a ∈ past, a.told? = some kind
  asked : ∀ x, (Note.asked notes).count x = (s.registry.isWatched x).toNat
  checks : ∀ {party kind scopes scope rest next},
    s.awaiting? party = some (.access kind scopes scope rest next) →
      (∃ a ∈ past, a.told? = some kind) ∧ ∃ checked, scopes = checked ++ scope :: rest ∧
        ∀ d ∈ checked, s₀.Granted past party kind scopes next d

/-- A grant lasts while the party has only good answers. -/
theorem Granted.snoc (h : s₀.Granted past party kind scopes next scope)
    (ha : action.party? = some party → action = .checked party (.ok ())) :
    s₀.Granted (past ++ [action]) party kind scopes next scope := by
  obtain ⟨before, mid, s₁, notes₁, rest, rfl, hrun, hwaits, hmid⟩ := h
  refine ⟨before, mid ++ [action], s₁, notes₁, rest, ?_, hrun, hwaits, fun a hmem => ?_⟩
  · rw [List.append_assoc, List.cons_append]
  · rcases List.mem_append.mp hmem with hmem | hmem
    · exact hmid a hmem
    · rw [List.mem_singleton.mp hmem]
      exact ha

/-- A good answer grants the scope that was asked about. -/
theorem Granted.now {rest : List String} (hrun : s₀.run past = some (s, notes))
    (ha : s.awaiting? party = some (.access kind scopes scope rest next)) :
    s₀.Granted (past ++ [.checked party (.ok ())]) party kind scopes next scope :=
  ⟨past, [], s, notes, rest, rfl, hrun, ha, fun a hmem => absurd hmem (by simp)⟩

/-- With the last of its scopes a party has all of them granted. -/
theorem Opened.granted (h : s₀.Opened past s notes)
    (ha : s.awaiting? party = some (.access kind scopes scope [] next)) {d : String}
    (hd : d ∈ scopes) :
    s₀.Granted (past ++ [.checked party (.ok ())]) party kind scopes next d := by
  obtain ⟨-, checked, hscopes, hgranted⟩ := h.checks ha
  rw [hscopes, List.mem_append, List.mem_singleton] at hd
  rcases hd with hd | rfl
  · exact (hgranted d hd).snoc fun _ => rfl
  · exact .now h.run ha

/-- Who opens scopes: a party for which the last of them was found listable.  Without scopes to open
there was nothing to check. -/
theorem mem_growth (h : .watch kind scopes ∈ s.growth action) :
    action.told? = some kind ∧ scopes = [] ∨
      ∃ party scope next, action = .checked party (.ok ()) ∧
        s.awaiting? party = some (.access kind scopes scope [] next) := by
  unfold growth at h
  split at h
  · split at h
    · rcases List.mem_cons.mp h with he | hmem
      · cases he
      · split at hmem
        · cases List.mem_singleton.mp hmem
          exact .inl ⟨rfl, rfl⟩
        · cases hmem
    · cases h
  · split at h
    · next party _ _ _ scope next ha =>
      cases List.mem_singleton.mp h
      exact .inr ⟨party, scope, next, rfl, ha⟩
    · cases h
  · split at h
    · cases List.mem_singleton.mp h
      exact .inl ⟨rfl, rfl⟩
    · cases h
  · cases List.mem_singleton.mp h
  · cases h

/-- Whoever has scopes of a kind opened was told of the kind. -/
theorem Opened.told (h : s₀.Opened past s notes) (hmem : .watch kind scopes ∈ s.growth action) :
    ∃ a ∈ past ++ [action], a.told? = some kind := by
  rcases mem_growth hmem with ⟨htold, -⟩ | ⟨party, scope, next, rfl, ha⟩
  · exact ⟨action, List.mem_append_right _ (List.mem_singleton_self _), htold⟩
  · obtain ⟨⟨a, hmem, htold⟩, -⟩ := h.checks ha
    exact ⟨a, List.mem_append_left _ hmem, htold⟩

theorem Opened.watches_snoc (h : s₀.Opened past s notes) (action : Action) :
    s.registry.WatchesOnly fun kind => ∃ a ∈ past ++ [action], a.told? = some kind := by
  intro gvr w hw
  obtain ⟨hgvr, a, hmem, htold⟩ := h.watches gvr w hw
  exact ⟨hgvr, a, List.mem_append_left _ hmem, htold⟩

/-- **Whoever asks for a watch has had its scope granted**, as a kind that has been told. -/
theorem Opened.granted_of_mem_watches (h : s₀.Opened past s notes)
    (hs : s.step action = some (s', notes')) (hrun : action.stops = false)
    (hmem : (k, scope) ∈ Note.watches notes') :
    ∃ party kind scopes last next, action = .checked party (.ok ()) ∧
      s.awaiting? party = some (.access kind scopes last [] next) ∧
      s₀.Granted (past ++ [action]) party kind scopes next scope ∧ k.gvr = kind.gvr ∧
      (∃ a ∈ past ++ [action], a.told? = some k) ∧
      ∃ a ∈ past ++ [action], a.told? = some kind := by
  rw [(step_cases hs hrun).grown.2] at hmem
  obtain ⟨kind, scopes, hgrowth, hscope, hkind⟩ := Registry.mem_watches_growAll hmem
  obtain ⟨c, hc, rfl⟩ := Option.map_eq_some_iff.mp hkind
  obtain ⟨w, hw, rfl⟩ := Registry.exists_watcher_of_core? hc
  obtain ⟨hgvr, htold⟩ := (h.watches_snoc action).growAll (fun _ _ => h.told) _ w hw
  rcases mem_growth hgrowth with ⟨-, rfl⟩ | ⟨party, last, next, rfl, ha⟩
  · exact absurd hscope (by simp)
  · exact ⟨party, kind, scopes, last, next, rfl, ha, h.granted ha hscope, hgvr, htold,
      h.told hgrowth⟩

/-- **A step keeps everything that is known.** -/
theorem Opened.step (h : s₀.Opened past s notes) (hs : s.step action = some (s', notes'))
    (hrun : action.stops = false) : s₀.Opened (past ++ [action]) s' (notes ++ notes') := by
  have hstep := step_cases hs hrun
  obtain ⟨hsame, hnotes⟩ := hstep.grown
  have hwatches := h.watches_snoc action
  refine ⟨?_, ?_, ?_, fun x => ?_, ?_⟩
  · exact run_append h.run (run_one hs)
  · have hgrown := (s.registry.extends_growAll (s.growth action)).applicationKind
    exact hsame.applicationKind.trans (hgrown.trans h.applicationKind)
  · exact (hwatches.growAll fun _ _ => h.told).of_sameWatches hsame
  · have hcount := hwatches.count_growAll (fun _ _ => h.told) x
    have hbefore := h.asked x
    rw [Note.asked, Note.watches_append, List.map_append, List.count_append, hnotes,
      hsame.isWatched_eq, ← hcount]
    rw [Note.asked] at hbefore
    omega
  · intro party kind scopes scope rest next ha
    rcases hstep.access ha with ⟨hbefore, hother⟩ | ⟨rfl, last, hbefore⟩ | ⟨htold, -, hscopes⟩
    · obtain ⟨⟨a, hmem, htold⟩, checked, hscopes, hgranted⟩ := h.checks hbefore
      refine ⟨⟨a, List.mem_append_left _ hmem, htold⟩, checked, hscopes, fun d hd => ?_⟩
      exact (hgranted d hd).snoc fun hp => absurd hp hother
    · obtain ⟨⟨a, hmem, htold⟩, checked, hscopes, hgranted⟩ := h.checks hbefore
      refine ⟨⟨a, List.mem_append_left _ hmem, htold⟩, checked ++ [last], ?_, fun d hd => ?_⟩
      · rw [List.append_assoc]
        exact hscopes
      · rcases List.mem_append.mp hd with hd | hd
        · exact (hgranted d hd).snoc fun _ => rfl
        · obtain rfl := List.mem_singleton.mp hd
          exact .now h.run hbefore
    · refine ⟨⟨action, List.mem_append_right _ (List.mem_singleton_self _), htold⟩, [], hscopes,
        fun d hd => absurd hd (by simp)⟩

theorem Opened.run_of {actions : List Action} (h : s₀.Opened past s notes)
    (hrun : s.run actions = some (s', notes')) (hstop : ∀ a ∈ actions, a.stops = false) :
    s₀.Opened (past ++ actions) s' (notes ++ notes') :=
  run_keeps (fun h hstop hs => h.step hs hstop) h hrun hstop

/-- Nothing is watched in the beginning. -/
theorem opened_fresh (applicationKind : KindDescriptor) (namespacesKey : String)
    (namespaces : List String) (capacity window now : Nat) :
    (fresh applicationKind namespacesKey namespaces capacity window now).Opened []
      (fresh applicationKind namespacesKey namespaces capacity window now) [] := by
  refine ⟨rfl, rfl, fun _ _ hw => ?_, fun _ => rfl, fun {party _ _ _ _ _} ha => ?_⟩
  · cases hw
  · cases party with
    | worker gvr => cases ha
    | caller id => cases ha

/-! ## 4. Watches of a run -/

/-- Parties are told the same descriptor whenever they are told of the same kind. -/
def AgreesOnKinds (actions : List Action) : Prop :=
  ∀ a ∈ actions, ∀ b ∈ actions, ∀ k l, a.told? = some k → b.told? = some l → k.gvr = l.gvr → k = l

/-- **One watcher for each kind, one watch for each scope, and none unchecked.**  After any run in
which nothing is stopped, the watchers are of different kinds, each under its own, and those of the
application kind alone are handled as applications.  The watches that were asked for are, each once,
those that readers are there for; and each of them was asked for by a party in the very step in
which the last of its checks was answered well, after it had the same scope granted for the same
kind. -/
theorem watched_once_when_granted (applicationKind : KindDescriptor) (namespacesKey : String)
    (namespaces : List String) (capacity window now : Nat) {actions : List Action}
    (hrun : (fresh applicationKind namespacesKey namespaces capacity window now).run actions =
      some (s, notes))
    (hstop : ∀ a ∈ actions, a.stops = false) (hagree : AgreesOnKinds actions) :
    (s.registry.watchers.values.map fun w => w.kind.gvr).Nodup ∧
      (∀ gvr w, s.registry.watcher? gvr = some w → w.kind.gvr = gvr ∧ ∀ party e,
        s.handle party w e =
          if gvr = applicationKind.gvr then s.handleApplication party w.kind w.cache e
          else s.handleResource party w.kind w.cache e) ∧
      (Note.asked notes).Nodup ∧
      (∀ gvr scope, (gvr, scope) ∈ Note.asked notes ↔
        ∃ w, s.registry.watcher? gvr = some w ∧ w.hasScope scope = true) ∧
      ∀ before action after s₁ notes₁ s₂ notes₂, actions = before ++ action :: after →
        (fresh applicationKind namespacesKey namespaces capacity window now).run before =
          some (s₁, notes₁) → s₁.step action = some (s₂, notes₂) →
        ∀ kind scope, (kind, scope) ∈ Note.watches notes₂ → ∃ party scopes last next,
          action = .checked party (.ok ()) ∧
          s₁.awaiting? party = some (.access kind scopes last [] next) ∧
          (fresh applicationKind namespacesKey namespaces capacity window now).Granted
            (before ++ [action]) party kind scopes next scope := by
  have hfresh := opened_fresh applicationKind namespacesKey namespaces capacity window now
  have h := hfresh.run_of hrun hstop
  refine ⟨h.watches.nodup_kinds, fun gvr w hw => ?_, ?_, fun gvr scope => ?_, ?_⟩
  · obtain ⟨hgvr, -⟩ := h.watches gvr w hw
    refine ⟨hgvr, fun party e => ?_⟩
    simp only [handle, Registry.isApplicationKind, hgvr, h.applicationKind, decide_eq_true_eq]
    rfl
  · refine List.nodup_iff_count_le_one.mpr fun x => ?_
    exact Nat.le_trans (Nat.le_of_eq (h.asked x)) (Bool.toNat_le _)
  · have hcount : (Note.asked notes).count (gvr, scope) =
        (s.registry.isWatched (gvr, scope)).toNat := h.asked (gvr, scope)
    have hwatched : s.registry.isWatched (gvr, scope) = true ↔
        ∃ w, s.registry.watcher? gvr = some w ∧ w.hasScope scope = true := Option.any_eq_true _ _
    rw [← hwatched, ← List.count_pos_iff, hcount]
    cases s.registry.isWatched (gvr, scope) <;> simp
  · intro before action after s₁ notes₁ s₂ notes₂ hsplit hbefore hstep kind scope hmem
    rw [hsplit] at hstop hagree
    have hpast : before ++ [action] ⊆ before ++ action :: after := subset_of_split rfl
    have h₁ := hfresh.run_of hbefore fun a ha => hstop a (List.mem_append_left _ ha)
    obtain ⟨party, kind', scopes, last, next, hchecked, hwaits, hgranted, hgvr, ⟨a, ha, htold⟩,
      b, hb, htold'⟩ := h₁.granted_of_mem_watches hstep
        (hstop action (List.mem_append_right _ List.mem_cons_self)) hmem
    obtain rfl := hagree a (hpast ha) b (hpast hb) kind kind' htold htold' hgvr
    exact ⟨party, scopes, last, next, hchecked, hwaits, hgranted⟩

/-- A kind with namespaces. -/
def sampleServices : KindDescriptor := ⟨⟨"", "v1", "services"⟩, "Service", true⟩

/-- The engine with one kind of applications in front of an open cluster. -/
def sampleQuiet : System :=
  fresh ⟨⟨"app.k8s.io", "v1beta1", "applications"⟩, "Application", true⟩ "namespaces" [] 64 0 0

/-- Two parties have overlapping scopes checked at the same time. -/
def sampleOverlap : List Action :=
  [.permit sampleServices.gvr "blue", .call 1 (.addToWatch sampleServices),
    .permit sampleServices.gvr "green", .call 2 (.addToWatch sampleServices),
    .checked (.caller 2) (.ok ()), .checked (.caller 1) (.ok ())]

/-- The last answer that the second of them waits for. -/
def sampleLast : Action := .checked (.caller 2) (.ok ())

/-- When the second party comes to open its scopes, the first has opened one of them; it asks for
the other only, which was granted to itself. -/
theorem watched_once_when_granted_overlap :
    ∃ s notes, sampleQuiet.run (sampleOverlap ++ [sampleLast]) = some (s, notes) ∧
      Note.asked notes = [(sampleServices.gvr, "blue"), (sampleServices.gvr, "green")] ∧
      (Note.asked notes).Nodup ∧ ∃ party scopes next,
        sampleQuiet.Granted (sampleOverlap ++ [sampleLast]) party sampleServices scopes next
          "green" := by
  have hend : ((sampleQuiet.run sampleOverlap).any fun r => (r.1.step sampleLast).any fun t =>
      Note.asked (r.2 ++ t.2) = [(sampleServices.gvr, "blue"), (sampleServices.gvr, "green")] &&
        Note.watches t.2 = [(sampleServices, "green")]) = true := by decide
  obtain ⟨⟨s₁, notes₁⟩, hbefore, hend⟩ := (Option.any_eq_true _ _).mp hend
  obtain ⟨⟨s, notes⟩, hstep, hend⟩ := (Option.any_eq_true _ _).mp hend
  simp only [Bool.and_eq_true, decide_eq_true_eq] at hend
  have hrun := run_append hbefore (run_one hstep)
  have hstop : ∀ a ∈ sampleOverlap ++ [sampleLast], a.stops = false := by
    simp [sampleOverlap, sampleLast, Action.stops]
  have htold : ∀ a ∈ sampleOverlap ++ [sampleLast], ∀ k, a.told? = some k →
      k = sampleServices := by
    simp [sampleOverlap, sampleLast, Action.told?, eq_comm]
  have hagree : AgreesOnKinds (sampleOverlap ++ [sampleLast]) := fun a ha b hb k l hk hl _ => by
    rw [htold a ha k hk, htold b hb l hl]
  obtain ⟨-, -, honce, -, hgranted⟩ := watched_once_when_granted _ _ _ _ _ _ hrun hstop hagree
  have hgreen : (sampleServices, "green") ∈ Note.watches notes := by
    rw [hend.2]
    exact List.mem_singleton_self _
  obtain ⟨party, scopes, last, next, -, -, hgranted⟩ :=
    hgranted _ _ [] _ _ _ _ rfl hbefore hstep _ _ hgreen
  exact ⟨s, notes₁ ++ notes, hrun, hend.1, honce, party, scopes, next, hgranted⟩

end System

end AppWatch
