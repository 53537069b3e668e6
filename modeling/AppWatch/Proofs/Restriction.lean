/-
# A restricted configuration and the scope of all namespaces

The empty name stands for all namespaces.  A configuration that lists namespaces is not meant to
open that scope for any kind that has namespaces, whatever is asked of the engine.  Permissions of
component kinds keep to this, for the empty name is never granted.  The application kind alone is
watched in the listed namespaces as they stand, and there the empty name is taken for what it stands
for.  So a restricted configuration keeps to its list exactly if the empty name is not on it, or if
applications have no namespaces at all (`restricted_iff`).

A watch is traced back by `System.Traced`.  For a check the request has to be told from the state:
the scope a party asks about is the one it waits for (`checks_step`).
-/
import AppWatch.Config
import AppWatch.Proofs.Confinement
import AppWatch.Proofs.Questions

namespace AppWatch

/-! ## 1. Requests for checks -/

/-- The check that a note shows to be asked for. -/
def Note.check? : Note → Option (KindDescriptor × String)
  | .request (.check kind scope) => some (kind, scope)
  | _ => none

/-- The checks that are asked for in some notes. -/
def Note.checks (notes : List Note) : List (KindDescriptor × String) :=
  notes.filterMap Note.check?

/-- The check for whose answer a party comes to wait. -/
def Progress.check? : Progress → Option (KindDescriptor × String)
  | .waits (.access kind _ scope _ _) => some (kind, scope)
  | _ => none

/-- What has come of a party's work asks for the check that the party waits for, and for no
other. -/
def Outcome.Asks (o : Outcome) : Prop := Note.checks o.notes = o.progress.check?.toList

theorem Note.checks_append (notes more : List Note) :
    checks (notes ++ more) = checks notes ++ checks more := List.filterMap_append

/-- Where nothing is requested no check is asked for. -/
theorem Note.checks_eq_nil {notes : List Note} (h : ∀ c, Note.request c ∉ notes) :
    checks notes = [] := by
  refine List.filterMap_eq_nil_iff.mpr fun n hn => ?_
  cases n with
  | request c => exact absurd hn (h c)
  | _ => rfl

theorem Note.checks_of_isNotice {notes : List Note} (h : ∀ n ∈ notes, n.isNotice = true) :
    checks notes = [] :=
  checks_eq_nil fun _ hn => by cases h _ hn

theorem Note.mem_checks {notes : List Note} {kind : KindDescriptor} {scope : String} :
    (kind, scope) ∈ checks notes ↔ .request (.check kind scope) ∈ notes := by
  rw [checks, List.mem_filterMap]
  constructor
  · rintro ⟨n, hn, hcheck⟩
    unfold check? at hcheck
    split at hcheck
    · cases hcheck
      exact hn
    · cases hcheck
  · exact fun hn => ⟨_, hn, rfl⟩

theorem Note.mem_watches {notes : List Note} {kind : KindDescriptor} {scope : String} :
    (kind, scope) ∈ watches notes ↔ .request (.watch kind scope) ∈ notes := by
  rw [watches, List.mem_filterMap]
  constructor
  · rintro ⟨n, hn, hwatch⟩
    cases n with
    | request c =>
      cases c <;> cases hwatch
      exact hn
    | _ => cases hwatch
  · exact fun hn => ⟨_, hn, rfl⟩

/-- The check that a request asks for. -/
def ClientCall.check? : ClientCall → Option (KindDescriptor × String)
  | .check kind scope => some (kind, scope)
  | _ => none

/-- Checks are among the questions. -/
theorem Note.checks_eq (notes : List Note) :
    checks notes = (questions notes).filterMap ClientCall.check? := by
  rw [checks, questions, List.filterMap_filterMap]
  refine List.filterMap_congr fun n _ => ?_
  cases n with
  | request c => cases c <;> rfl
  | _ => rfl

theorem Outcome.Inquires.asks {o : Outcome} (h : o.Inquires) : o.Asks := by
  obtain ⟨system, notes, progress⟩ := o
  rw [Asks, Note.checks_eq, h]
  cases progress with
  | finished r => rfl
  | waits a => cases a <;> rfl

namespace System

variable {s s' : System} {party : Party} {action : Action} {o : Outcome} {notes : List Note}
  {kind : KindDescriptor} {scope : String}

/-- A party that concludes its work asks for no further check. -/
theorem checks_conclude (s : System) (party : Party) (o : Outcome) :
    Note.checks (s.conclude party o).2 = Note.checks o.notes := by
  rw [Note.checks_eq, questions_conclude, ← Note.checks_eq]

/-- A worker that begins a change asks for no check: it has no kind to watch yet. -/
theorem checks_begins (s : System) (gvr : GroupVersionResource) (w : Watcher) (e : ResourceEvent)
    (rest : List ResourceEvent) :
    Note.checks (concludeWorker gvr w.kind e rest (s.handle (.worker gvr) w e)).2 = [] := by
  have hasks := (s.inquires_handle (.worker gvr) w e).asks
  rw [Note.checks_eq, questions_concludeWorker, ← Note.checks_eq, hasks]
  cases hp : (s.handle (.worker gvr) w e).progress with
  | finished r => rfl
  | waits a =>
    cases a with
    | access => exact absurd (s.handle_not_access _ hp) (by simp [Awaiting.isAccess])
    | _ => rfl

/-- **Whoever asks whether a scope can be listed waits for the answer.** -/
theorem Step.exists_of_checks (h : Step s action s' notes)
    (hmem : (kind, scope) ∈ Note.checks notes) :
    ∃ party scopes rest next, s'.awaiting? party = some (.access kind scopes scope rest next) := by
  have hnone : ∀ {notes : List Note}, Note.checks notes = [] → (kind, scope) ∉ Note.checks notes :=
    fun he hmem => by
      rw [he] at hmem
      cases hmem
  induction h with
  | @works _ _ party o h =>
    rw [checks_conclude, h.inquires.asks] at hmem
    cases hp : o.progress with
    | finished r =>
      rw [hp] at hmem
      cases hmem
    | waits a =>
      rw [hp] at hmem
      cases a with
      | access k scopes x rest next =>
        cases List.mem_singleton.mp hmem
        exact ⟨party, scopes, rest, next, h.awaiting?_of_waits hp⟩
      | _ => cases hmem
  | begins => exact absurd hmem (hnone (checks_begins ..))
  | @passes _ _ w e => exact absurd hmem (hnone (Note.checks_of_isNotice (e.isNotice_notes w.kind)))
  | @takes _ _ _ w e _ _ _ _ _ _ ih =>
    rw [Note.checks_append, Note.checks_of_isNotice (e.isNotice_notes w.kind),
      List.nil_append] at hmem
    exact ih hmem
  | flows _ h => exact absurd hmem (hnone (Note.checks_of_isNotice h.isNotice))
  | unread => cases hmem
  | elsewhere h =>
    exact absurd hmem (hnone (Note.checks_eq_nil fun _ hn => by cases h.isDelivery _ hn))

theorem checks_step (hs : s.step action = some (s', notes))
    (hmem : (kind, scope) ∈ Note.checks notes) :
    ∃ party scopes rest next, s'.awaiting? party = some (.access kind scopes scope rest next) := by
  cases hstop : action.stops with
  | true =>
    rw [(stopped_of_stops hs hstop).2] at hmem
    cases hmem
  | false => exact (step_cases hs hstop).exists_of_checks hmem

/-! ## 2. Restricted configurations -/

/-- What is seen in a run is seen in one of its steps. -/
theorem exists_stepped_of_mem {actions : List Action} {n : Note}
    (hrun : s.run actions = some (s', notes)) (hmem : n ∈ notes) :
    ∃ s₂ notes₂, s.Stepped actions s₂ notes₂ ∧ n ∈ notes₂ := by
  induction actions generalizing s notes with
  | nil =>
    cases hrun
    cases hmem
  | cons action rest ih =>
    obtain ⟨s₁, notes₁, notes₂, hs, hmore, rfl⟩ := run_cons hrun
    rcases List.mem_append.mp hmem with hmem | hmem
    · exact ⟨s₁, notes₁, .head hs rest, hmem⟩
    · obtain ⟨s₂, notes₃, hstepped, hmem⟩ := ih hmore hmem
      exact ⟨s₂, notes₃, hstepped.tail hs, hmem⟩

/-- The engine with a configuration before anything is watched. -/
def ofConfig (c : Config) (now : Nat) : System :=
  fresh c.applicationKind c.namespacesKey c.namespaces c.queueCapacity.toNat
    c.batchDurationMs.toNat now

/-- A list of namespaces leaves all of them permitted only if it is empty. -/
theorem permitsAll_ofList {l : List String} (hne : l ≠ []) :
    (NamespaceFilter.ofList l).permitsAll = false := by
  obtain ⟨n, rest, rfl⟩ := List.exists_cons_of_ne_nil hne
  have hn : (SortedSet.ofList (n :: rest)).contains n = true :=
    SortedSet.contains_ofList_iff.mpr List.mem_cons_self
  refine Bool.eq_false_iff.mpr fun hall => ?_
  have hempty : (SortedSet.ofList (n :: rest)).entries = [] := List.isEmpty_iff.mp hall
  rw [SortedMap.contains, SortedMap.get?, hempty] at hn
  cases hn

/-- Under a list of namespaces the scope of all of them is allowed for a kind with namespaces only
if it is the application kind, and the empty name is on the list. -/
theorem Allowed.of_all {s₀ : System} {past : List Action} {l : List String}
    (hfilter : s₀.registry.filter = .ofList l) (hne : l ≠ [])
    (h : s₀.Allowed past kind "") (hns : kind.namespaced = true) :
    "" ∈ l ∧ kind.gvr = s₀.registry.applicationKind.gvr := by
  cases h with
  | clusterWide hcluster =>
    rw [hns] at hcluster
    cases hcluster
  | everywhere _ _ hall =>
    rw [hfilter, permitsAll_ofList hne] at hall
    cases hall
  | listed _ hkind _ hn =>
    rw [hfilter] at hn
    exact ⟨SortedSet.contains_ofList_iff.mp hn, of_decide_eq_true hkind⟩
  | drawn _ _ hgrants => cases hgrants

/-- Among ascending names the empty one comes first. -/
theorem exists_keys_eq_cons {l : List String} (h : "" ∈ l) :
    ∃ rest, SortedSet.toList (SortedSet.ofList l) = "" :: rest := by
  have hmem := SortedMap.contains_iff_mem_keys.mp (SortedSet.contains_ofList_iff.mpr h)
  have hascending : (SortedMap.keys (SortedSet.ofList l)).Pairwise (compare · · = .lt) :=
    List.pairwise_map.mpr (SortedSet.ofList l).ascending
  cases hkeys : SortedMap.keys (SortedSet.ofList l) with
  | nil =>
    rw [hkeys] at hmem
    cases hmem
  | cons n rest =>
    rw [hkeys] at hmem hascending
    rcases List.mem_cons.mp hmem with rfl | hmem
    · exact ⟨rest, hkeys⟩
    · have hbelow := (List.pairwise_cons.mp hascending).1 "" hmem
      have hlt : n < "" := compareOfLessAndEq_eq_lt.mp hbelow
      exact absurd (String.lt_iff.mp hlt) (List.not_lt_nil _)

/-- To start is to have the first scope of the application kind checked. -/
theorem start_checks_all (c : Config) (now : Nat) (h : "" ∈ c.namespaces)
    (hns : c.applicationKind.namespaced = true) :
    ∃ s notes, (ofConfig c now).run [.call 0 (.addToWatch c.applicationKind)] = some (s, notes) ∧
      .request (.check c.applicationKind "") ∈ notes := by
  obtain ⟨rest, hkeys⟩ := exists_keys_eq_cons h
  have hscopes : (ofConfig c now).registry.newScopes c.applicationKind = "" :: rest := by
    have happ : (ofConfig c now).registry.isApplicationKind c.applicationKind = true :=
      decide_eq_true rfl
    have hall := permitsAll_ofList (List.ne_nil_of_mem h)
    have hfilter : (ofConfig c now).registry.filter = .ofList c.namespaces := rfl
    have hwatcher : (ofConfig c now).registry.watcher? c.applicationKind.gvr = none := rfl
    rw [Registry.newScopes, hwatcher, Registry.scopesFor, hns, happ, hfilter, hall]
    exact hkeys
  have hbegin : (ofConfig c now).addToWatch (.caller 0) c.applicationKind .done =
      ⟨ofConfig c now, [.request (.check c.applicationKind "")],
        .waits (.access c.applicationKind ("" :: rest) "" rest .done)⟩ := by
    rw [addToWatch, hscopes]
    rfl
  have hstep : (ofConfig c now).step (.call 0 (.addToWatch c.applicationKind)) =
      some (concludeCaller 0 ⟨ofConfig c now, [.request (.check c.applicationKind "")],
        .waits (.access c.applicationKind ("" :: rest) "" rest .done)⟩) := by
    rw [step, begin, hbegin]
    rfl
  exact ⟨_, _, run_one hstep, List.mem_singleton_self _⟩

/-- **A restricted configuration keeps to its list exactly if the empty name is not on it.**  For
every configuration that lists namespaces: in all runs no check and no watch is asked for in all
namespaces for a kind that has namespaces, exactly if the list does not hold the empty name or the
application kind has no namespaces.  (Discovery gives one descriptor for each kind, and the
configured one for the application kind.) -/
theorem restricted_iff (c : Config) (now : Nat) (hne : c.namespaces ≠ []) :
    (∀ actions s notes, (ofConfig c now).run actions = some (s, notes) →
        AgreesOnKinds actions →
        (∀ x ∈ actions, ∀ k, x.told? = some k → k.gvr = c.applicationKind.gvr →
          k = c.applicationKind) →
        ∀ kind : KindDescriptor, kind.namespaced = true →
          .request (.check kind "") ∉ notes ∧ .request (.watch kind "") ∉ notes) ↔
      "" ∉ c.namespaces ∨ c.applicationKind.namespaced = false := by
  constructor
  · intro h
    refine Decidable.or_iff_not_imp_left.mpr fun hmem => Bool.eq_false_iff.mpr fun hns => ?_
    obtain ⟨s, notes, hrun, hcheck⟩ := start_checks_all c now (Decidable.not_not.mp hmem) hns
    have htold : ∀ x ∈ [Action.call 0 (.addToWatch c.applicationKind)], ∀ k, x.told? = some k →
        k = c.applicationKind := by
      simp [Action.told?, eq_comm]
    refine (h _ s notes hrun (fun x hx y hy k l hk hl _ => ?_) (fun x hx k hk _ => htold x hx k hk)
      c.applicationKind hns).1 hcheck
    rw [htold x hx k hk, htold y hy l hl]
  · intro h actions s notes hrun hagree hconfigured kind hns
    -- Whatever was told and is allowed in all namespaces is the application kind.
    have hnot : ∀ before action (k : KindDescriptor), before ++ [action] ⊆ actions →
        (ofConfig c now).Allowed (before ++ [action]) k "" →
        (ofConfig c now).Sourced (before ++ [action]) k → k.namespaced = true → False := by
      intro before action k hsub hallowed hsourced hk
      obtain ⟨hmem, hgvr⟩ := hallowed.of_all rfl hne hk
      obtain ⟨x, hx, htold⟩ := hsourced.told
      rcases h with hfree | hcluster
      · exact hfree hmem
      · rw [hconfigured x (hsub hx) k htold hgvr, hcluster] at hk
        cases hk
    have hfresh := traced_fresh c.applicationKind c.namespacesKey c.namespaces
      c.queueCapacity.toNat c.batchDurationMs.toNat now
    have hsteps : ∀ {s₂ notes₂}, (ofConfig c now).Stepped actions s₂ notes₂ →
        (kind, "") ∉ Note.checks notes₂ ∧ (kind, "") ∉ Note.watches notes₂ := by
      rintro s₂ notes₂ ⟨before, action, after, s₁, notes₁, hsplit, hbefore, hstep⟩
      have hsub := subset_of_split hsplit
      have htraced := hfresh.run_of hbefore
      refine ⟨fun hmem => ?_, fun hmem => ?_⟩
      · obtain ⟨party, scopes, rest, next, ha⟩ := checks_step hstep hmem
        obtain ⟨hsourced, hallowed, hscopes⟩ := (htraced.step hstep).checks ha
        have hall := hallowed "" (hscopes "" List.mem_cons_self)
        exact hnot before action kind hsub hall hsourced hns
      · obtain ⟨k, hgvr, hallowed, hsourced, hsourced'⟩ := htraced.watched hstep hmem
        obtain rfl := (hagree.mono hsub).eq_of_sourced hsourced hsourced' hgvr
        exact hnot before action kind hsub (hallowed.snoc action) hsourced hns
    refine ⟨fun hmem => ?_, fun hmem => ?_⟩
    · obtain ⟨s₂, notes₂, hstepped, hmem⟩ := exists_stepped_of_mem hrun hmem
      exact (hsteps hstepped).1 (Note.mem_checks.mpr hmem)
    · obtain ⟨s₂, notes₂, hstepped, hmem⟩ := exists_stepped_of_mem hrun hmem
      exact (hsteps hstepped).2 (Note.mem_watches.mpr hmem)

/-- A configuration that lists one namespace. -/
def sampleListed : Config := { namespaces := ["shop"] }

/-- Nothing that is asked of the engine makes it look at all namespaces. -/
theorem restricted_to_listed :
    sampleListed.namespaces ≠ [] ∧ ∀ actions s notes,
      (ofConfig sampleListed 0).run actions = some (s, notes) → AgreesOnKinds actions →
      (∀ x ∈ actions, ∀ k, x.told? = some k → k.gvr = sampleListed.applicationKind.gvr →
        k = sampleListed.applicationKind) →
      ∀ kind : KindDescriptor, kind.namespaced = true →
        .request (.check kind "") ∉ notes ∧ .request (.watch kind "") ∉ notes :=
  ⟨by decide, (restricted_iff sampleListed 0 (by decide)).mpr (.inl (by decide))⟩

/-- A configuration that lists the empty name only. -/
def sampleUnnamed : Config := { namespaces := [""] }

/-- The start of the engine, with a cluster that lets everything be listed. -/
def sampleOpening : List Action :=
  [.call 0 (.addToWatch sampleUnnamed.applicationKind), .checked (.caller 0) (.ok ())]

/-- **The empty name on the list opens all namespaces.**  The configuration is accepted and lists
namespaces; its start has the application kind, which has namespaces, checked and watched in all of
them. -/
theorem empty_name_opens_all :
    sampleUnnamed.validate = .ok () ∧ sampleUnnamed.namespaces ≠ [] ∧
      sampleUnnamed.applicationKind.namespaced = true ∧ AgreesOnKinds sampleOpening ∧
      (∀ x ∈ sampleOpening, ∀ k, x.told? = some k → k = sampleUnnamed.applicationKind) ∧
      ∃ s notes, (ofConfig sampleUnnamed 0).run sampleOpening = some (s, notes) ∧
        .request (.check sampleUnnamed.applicationKind "") ∈ notes ∧
        .request (.watch sampleUnnamed.applicationKind "") ∈ notes := by
  have htold : ∀ x ∈ sampleOpening, ∀ k, x.told? = some k → k = sampleUnnamed.applicationKind := by
    simp [sampleOpening, Action.told?, eq_comm]
  have hend : ((ofConfig sampleUnnamed 0).run sampleOpening).any (fun r =>
      .request (.check sampleUnnamed.applicationKind "") ∈ r.2 &&
        .request (.watch sampleUnnamed.applicationKind "") ∈ r.2) = true := by decide
  obtain ⟨⟨s, notes⟩, hrun, hend⟩ := (Option.any_eq_true _ _).mp hend
  simp only [Bool.and_eq_true, decide_eq_true_eq] at hend
  refine ⟨by decide, by decide, rfl, fun x hx y hy k l hk hl _ => ?_, htold, s, notes, hrun, hend⟩
  rw [htold x hx k hk, htold y hy l hl]

end System

end AppWatch
