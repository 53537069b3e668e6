/-
# The highest layer counts

Loading a configuration puts the layers on each other in their order and checks the result in the
middle: after the environment, before the options.  So a setting has the value that the highest
layer gives it (`Config.precedence`), and what makes loading fail can be told layer by layer: the
file (`not_fileSets_iff`), the environment (`not_areVariables_iff`) and what both come to.

The options can set nothing that is checked.  The check after them is therefore never the one that
fails (`Launch.prepare_ne_settings`).
-/
import AppWatch.Launch
import AppWatch.Proofs.Settings

namespace AppWatch

/-! ## 1. Loading -/

namespace Config

variable {c c' : Config} {files : String → FileState} {e : Environment} {path? : Option String}
  {file env : Settings}

/-- The file that is used: the one that is named, or the default one if it is there. -/
def usedFile? (files : String → FileState) (e : Environment) : Option String → Option String
  | some path => some path
  | none => if files e.configFile = .absent then none else some e.configFile

/-- What the configuration file sets, if one is used. -/
inductive FileSets (files : String → FileState) (e : Environment) (path? : Option String) :
    Settings → Prop
  | unused : usedFile? files e path? = none → FileSets files e path? {}
  | used {path text : String} {s : Settings} : usedFile? files e path? = some path →
      files path = .holds text → Settings.AreWritten text s → FileSets files e path? s

theorem FileSets.unique {s s' : Settings} (h : FileSets files e path? s)
    (h' : FileSets files e path? s') : s = s' := by
  cases h with
  | unused hnone =>
    cases h' with
    | unused _ => rfl
    | used hpath _ _ => exact absurd (hnone.symm.trans hpath) (by simp)
  | used hpath htext hs =>
    cases h' with
    | unused hnone => exact absurd (hnone.symm.trans hpath) (by simp)
    | used hpath' htext' hs' =>
      cases hpath.symm.trans hpath'
      cases htext.symm.trans htext'
      exact hs.unique hs'

/-- A configuration with which the engine can run. -/
structure IsRunnable (c : Config) : Prop where
  capacity : c.queueCapacity ≠ 0
  kind : c.applicationKind.kind ≠ ""
  version : c.applicationKind.gvr.version ≠ ""
  resource : c.applicationKind.gvr.resource ≠ ""

theorem validate_eq_ok_iff : c.validate = .ok () ↔ c.IsRunnable := by
  have hcomplete : c.hasCompleteKind = true ↔ c.applicationKind.kind ≠ "" ∧
      c.applicationKind.gvr.version ≠ "" ∧ c.applicationKind.gvr.resource ≠ "" := by
    simp [hasCompleteKind, and_comm, and_left_comm]
  unfold validate
  constructor
  · intro h
    split at h
    · exact absurd h (by simp)
    · next hcapacity =>
      split at h
      · exact absurd h (by simp)
      · next hkind =>
        obtain ⟨hkind, hversion, hresource⟩ := hcomplete.mp (by simpa using hkind)
        exact ⟨hcapacity, hkind, hversion, hresource⟩
  · rintro ⟨hcapacity, hkind, hversion, hresource⟩
    rw [if_neg hcapacity, if_neg (by simp [hcomplete.mpr ⟨hkind, hversion, hresource⟩])]

theorem ofFile_eq_ok_iff {path : String} : ofFile files path = .ok c ↔
    ∃ text, files path = .holds text ∧ read? text = some c := by
  unfold ofFile
  constructor
  · intro h
    split at h
    · exact absurd h (by simp)
    · exact absurd h (by simp)
    · next text htext =>
      split at h
      · exact absurd h (by simp)
      · next hread => exact ⟨text, htext, hread.trans (congrArg some (Except.ok.inj h))⟩
  · rintro ⟨text, htext, hread⟩
    rw [htext]
    simp only [hread]

theorem fromFiles_eq (files : String → FileState) (e : Environment) (path? : Option String) :
    fromFiles files e path? = match usedFile? files e path? with
      | none => .ok {}
      | some path => ofFile files path := by
  cases path? with
  | some path => rfl
  | none =>
    unfold fromFiles usedFile?
    cases hfile : files e.configFile with
    | absent => rfl
    | unreadable => simp
    | holds text => simp

/-- **The configuration file is a layer.** -/
theorem fromFiles_eq_ok_iff : fromFiles files e path? = .ok c ↔
    ∃ s, FileSets files e path? s ∧ c = s.config := by
  rw [fromFiles_eq]
  constructor
  · intro h
    split at h
    · next hnone => exact ⟨{}, .unused hnone, (Except.ok.inj h).symm⟩
    · next path hpath =>
      obtain ⟨text, htext, hread⟩ := ofFile_eq_ok_iff.mp h
      obtain ⟨s, hs, rfl⟩ := read?_eq_some_iff.mp hread
      exact ⟨s, .used hpath htext hs, rfl⟩
  · rintro ⟨s, hs, rfl⟩
    cases hs with
    | unused hnone => rw [hnone]; rfl
    | used hpath htext hs =>
      rw [hpath]
      exact ofFile_eq_ok_iff.mpr ⟨_, htext, read?_eq_some_iff.mpr ⟨s, hs, rfl⟩⟩

/-- Loading succeeds exactly if both layers can be read and the engine can run with the result. -/
theorem load_eq_ok_iff : load files e path? = .ok c ↔
    ∃ file env : Settings, FileSets files e path? file ∧ env.AreVariables e ∧
      c = (env.above file).config ∧ c.IsRunnable := by
  constructor
  · intro h
    obtain ⟨read, hread, h⟩ := exists_of_bind_eq_ok h
    obtain ⟨merged, hmerged, h⟩ := exists_of_bind_eq_ok h
    obtain ⟨⟨⟩, hvalid, h⟩ := exists_of_bind_eq_ok h
    obtain rfl := Except.ok.inj h
    obtain ⟨file, hfile, rfl⟩ := fromFiles_eq_ok_iff.mp hread
    obtain ⟨env, henv, rfl⟩ := override_eq_ok_iff_exists.mp hmerged
    exact ⟨file, env, hfile, henv, (Settings.onto_above env file {}).symm,
      validate_eq_ok_iff.mp hvalid⟩
  · rintro ⟨file, env, hfile, henv, rfl, hrunnable⟩
    have hread : fromFiles files e path? = .ok file.config :=
      fromFiles_eq_ok_iff.mpr ⟨file, hfile, rfl⟩
    have hmerged : file.config.override e = .ok (env.above file).config :=
      override_eq_ok_iff_exists.mpr ⟨env, henv, Settings.onto_above env file {}⟩
    have hvalid : (env.above file).config.validate = .ok () := validate_eq_ok_iff.mpr hrunnable
    simp only [load, hread, hmerged, hvalid, bind, Except.bind]
    rfl

/-- The file cannot be used if one is named that is missing, or if what is there cannot be read. -/
theorem not_fileSets_iff : (¬∃ s, FileSets files e path? s) ↔
    (∃ path, path? = some path ∧ files path = .absent) ∨
      ∃ path, usedFile? files e path? = some path ∧ (files path = .unreadable ∨
        ∃ text, files path = .holds text ∧ read? text = none) := by
  constructor
  · intro h
    cases hused : usedFile? files e path? with
    | none => exact absurd ⟨{}, .unused hused⟩ h
    | some path =>
      cases hpath : files path with
      | absent =>
        refine .inl ⟨path, ?_, hpath⟩
        cases path? with
        | some named => exact hused
        | none =>
          simp only [usedFile?] at hused
          split at hused
          · exact absurd hused (by simp)
          · next hthere => exact absurd (Option.some.inj hused ▸ hpath) hthere
      | unreadable => exact .inr ⟨path, rfl, .inl hpath⟩
      | holds text =>
        refine .inr ⟨path, rfl, .inr ⟨text, hpath, Option.eq_none_iff_forall_ne_some.mpr ?_⟩⟩
        intro c hread
        obtain ⟨s, hs, -⟩ := read?_eq_some_iff.mp hread
        exact h ⟨s, .used hused hpath hs⟩
  · rintro (⟨path, rfl, habsent⟩ | ⟨path, hused, hbad⟩) ⟨s, hs⟩
    · cases hs with
      | unused hnone => exact absurd hnone (by simp [usedFile?])
      | used hpath htext _ =>
        cases hpath
        exact absurd (habsent.symm.trans htext) (by simp)
    · cases hs with
      | unused hnone => exact absurd (hused.symm.trans hnone) (by simp)
      | used hpath htext hs =>
        cases hused.symm.trans hpath
        rcases hbad with hbad | ⟨text, htext', hbad⟩
        · exact absurd (hbad.symm.trans htext) (by simp)
        · cases htext.symm.trans htext'
          have hread := read?_eq_some_iff.mpr ⟨s, hs, rfl⟩
          exact absurd (hbad.symm.trans hread) (by simp)

/-- The environment cannot be used if one of the numbers in it denotes none. -/
theorem not_areVariables_iff : (¬∃ s : Settings, s.AreVariables e) ↔
    ∃ text, (e.get? "APPNAV_BATCH_DURATION_MS" = some text ∨
      e.get? "APPNAV_QUEUE_CAPACITY" = some text) ∧ ¬∃ n, Text.Denotes text n := by
  have hrel : ∀ given : Option String, (∀ text, given = some text → ∃ n, Text.Denotes text n) →
      ∃ n, Option.Rel Text.Denotes given n := by
    rintro (_ | text) h
    · exact ⟨none, .none⟩
    · obtain ⟨n, hn⟩ := h text rfl
      exact ⟨some n, .some hn⟩
  have hof : ∀ {given : Option String} {n : Option UInt64} {text : String},
      Option.Rel Text.Denotes given n → given = some text → ∃ n, Text.Denotes text n := by
    rintro _ _ _ (h | _) heq
    · cases heq
      exact ⟨_, h⟩
    · exact absurd heq (by simp)
  constructor
  · intro h
    by_contra hnone
    obtain ⟨duration, hduration⟩ := hrel (e.get? "APPNAV_BATCH_DURATION_MS")
      fun text htext => not_not.mp fun hbad => hnone ⟨text, .inl htext, hbad⟩
    obtain ⟨capacity, hcapacity⟩ := hrel (e.get? "APPNAV_QUEUE_CAPACITY")
      fun text htext => not_not.mp fun hbad => hnone ⟨text, .inr htext, hbad⟩
    exact h ⟨⟨none, _, duration, capacity, none⟩, rfl, rel_lists_iff.mpr rfl, hduration,
      hcapacity, rfl⟩
  · rintro ⟨text, htext | htext, hbad⟩ ⟨s, hs⟩
    · exact hbad (hof hs.batchDurationMs htext)
    · exact hbad (hof hs.queueCapacity htext)

theorem IsRunnable.applyTo (h : c.IsRunnable) (o : Options) : (o.applyTo c).IsRunnable := by
  rw [o.applyTo_eq]
  exact ⟨h.capacity, h.kind, h.version, h.resource⟩

/-! ## 2. Precedence -/

/-- **The highest layer counts.**  The configuration that is loaded, with the options put into it, is
that of the options over the environment over the file over the defaults.

Loading fails exactly if a file is named that is missing, if the file that is used cannot be read or
says what is no configuration, if a number in the environment is none that fits, or if the engine
cannot run with what the environment and the file come to.  The options do not change that: what
could be run with before can be run with afterwards. -/
theorem precedence (files : String → FileState) (e : Environment) (path? : Option String)
    (o : Options) :
    (∀ c, (load files e path?).map o.applyTo = .ok c →
      ∃ file env : Settings, FileSets files e path? file ∧ env.AreVariables e ∧
        c = (o.settings.above (env.above file)).config) ∧
    ((∃ problem, (load files e path?).map o.applyTo = .error problem) ↔
      (∃ path, path? = some path ∧ files path = .absent) ∨
      (∃ path, usedFile? files e path? = some path ∧ (files path = .unreadable ∨
        ∃ text, files path = .holds text ∧ read? text = none)) ∨
      (∃ text, (e.get? "APPNAV_BATCH_DURATION_MS" = some text ∨
        e.get? "APPNAV_QUEUE_CAPACITY" = some text) ∧ ¬∃ n, Text.Denotes text n) ∨
      ∃ file env : Settings, FileSets files e path? file ∧ env.AreVariables e ∧
        ¬(env.above file).config.IsRunnable) ∧
    ∀ c : Config, c.validate = .ok () → (o.applyTo c).validate = .ok () := by
  refine ⟨fun c h => ?_, ?_, fun c h => ?_⟩
  · obtain ⟨merged, hload, rfl⟩ : ∃ merged, load files e path? = .ok merged ∧
        o.applyTo merged = c := by
      cases hload : load files e path? with
      | error problem => rw [hload] at h; exact absurd h (by simp [Except.map])
      | ok merged => rw [hload] at h; exact ⟨merged, rfl, Except.ok.inj h⟩
    obtain ⟨file, env, hfile, henv, rfl, -⟩ := load_eq_ok_iff.mp hload
    refine ⟨file, env, hfile, henv, ?_⟩
    rw [o.applyTo_eq, Settings.config, Settings.config, Settings.onto_above o.settings]
  · have hfails : (∃ problem, (load files e path?).map o.applyTo = .error problem) ↔
        ¬∃ c, load files e path? = .ok c := by
      cases load files e path? <;> simp [Except.map]
    rw [hfails, ← or_assoc, ← or_assoc, ← not_fileSets_iff, or_assoc, ← not_areVariables_iff]
    constructor
    · intro h
      by_contra hnone
      simp only [not_or, not_not] at hnone
      obtain ⟨⟨file, hfile⟩, ⟨env, henv⟩, hrunnable⟩ := hnone
      by_cases hruns : (env.above file).config.IsRunnable
      · exact h ⟨_, load_eq_ok_iff.mpr ⟨file, env, hfile, henv, rfl, hruns⟩⟩
      · exact hrunnable ⟨file, env, hfile, henv, hruns⟩
    · rintro h ⟨c, hload⟩
      obtain ⟨file, env, hfile, henv, rfl, hruns⟩ := load_eq_ok_iff.mp hload
      rcases h with h | h | ⟨file', env', hfile', henv', hruns'⟩
      · exact h ⟨file, hfile⟩
      · exact h ⟨env, henv⟩
      · rw [hfile.unique hfile', henv.unique henv'] at hruns
        exact hruns' hruns
  · exact validate_eq_ok_iff.mpr ((validate_eq_ok_iff.mp h).applyTo o)

/-- A file that sets namespaces and a capacity. -/
def sampleFiles (path : String) : FileState :=
  if path = "config.yaml" then .holds "namespaces: [shop]\nbatchDurationMs: 50\nqueueCapacity: 8\n"
  else .absent

/-- An environment that lists no namespaces and sets a duration. -/
def sampleVariables : Environment :=
  SortedMap.ofList [("APPNAV_NAMESPACES", " , "), ("APPNAV_BATCH_DURATION_MS", "+020")]

/-- An environment with a number that is too large by one. -/
def sampleTooLarge : Environment :=
  SortedMap.ofList [("APPNAV_QUEUE_CAPACITY", "18446744073709551616")]

/-- Of the sample, the duration comes from the options, the namespaces from the environment, the
capacity from the file, and the rest are defaults.  The number that is too large is refused, though
the file would do. -/
theorem precedence_layered :
    (∃ file env : Settings, FileSets sampleFiles sampleVariables (some "config.yaml") file ∧
      env.AreVariables sampleVariables ∧
      { batchDurationMs := 200, queueCapacity := 8 : Config } =
        (Options.settings { batchDurationMs := some 200 } |>.above (env.above file)).config) ∧
    (∃ problem, (load sampleFiles sampleTooLarge (some "config.yaml")).map
      (Options.applyTo {}) = .error problem) ∧
    (Options.applyTo { namespaces := ["shop"] } {}).validate = .ok () := by
  have hload : (load sampleFiles sampleVariables (some "config.yaml")).map
      (Options.applyTo { batchDurationMs := some 200 }) =
        .ok { batchDurationMs := 200, queueCapacity := 8 } :=
    toOption_eq_some_iff.mp (by decide +kernel)
  have htooLarge : Text.word? "18446744073709551616" = none := by decide
  refine ⟨(precedence _ _ _ _).1 _ hload, (precedence _ _ _ _).2.1.mpr (.inr (.inr (.inl
    ⟨"18446744073709551616", .inr (by decide), ?_⟩))),
    (precedence sampleFiles sampleVariables none _).2.2 {} (by decide)⟩
  rintro ⟨n, hn⟩
  exact absurd (Text.word?_eq_some_iff.mpr hn) (by simp [htooLarge])

end Config

/-- The second look at the configuration, after the options, never finds anything. -/
theorem Launch.prepare_ne_settings (files : String → FileState) (now : Int) (e : Environment)
    (args : List String) (cause : ConfigError) :
    prepare files now e args ≠ .error (.settings cause) := by
  unfold prepare
  cases hoptions : Options.read args with
  | error problem => simp [Except.mapError, bind, Except.bind]
  | ok options =>
    cases hload : Config.load files e options.config with
    | error problem => simp [Except.mapError, hload, bind, Except.bind]
    | ok c =>
      obtain ⟨_, _, _, _, rfl, hrunnable⟩ := Config.load_eq_ok_iff.mp hload
      have hvalid := Config.validate_eq_ok_iff.mpr (hrunnable.applyTo options)
      simp only [Except.mapError, hload, hvalid, bind, Except.bind]
      cases Connection.find files now e options.context <;> simp [pure, Except.pure]

end AppWatch
