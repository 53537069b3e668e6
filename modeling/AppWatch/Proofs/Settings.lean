/-
# What one layer of the configuration sets

A configuration is piled up from layers, and each of them sets some of the settings and leaves the
others alone.  The engine does not keep layers: a document is folded into the defaults member by
member, the environment overrides what is there, and the options are put in place of it at last.

Here a layer is a value of its own (`Settings`), in which a setting is either set or not.  For each
source of settings it is said what it sets, without the functions that do it:

* `Settings.AreWritten`: a document sets what it has a member for;
* `Settings.AreVariables`: the environment sets the lists and numbers that its variables denote;
* `Options.settings`: the options set what they were given.

And each function is shown to put exactly these settings onto what was there (`read?_eq_some_iff`,
`override_eq_ok_iff_exists`, `Options.applyTo_eq`); it fails exactly if there are no such settings.
-/
import AppWatch.Options
import AppWatch.Proofs.NameLists
import Mathlib.Data.Option.Defs

namespace AppWatch

/-! ## 1. Numbers in text -/

namespace Text

/-- A text denotes a number if it is a run of decimal digits of that value, with or without a plus
sign in front. -/
def Denotes (s : String) (n : UInt64) : Prop :=
  ∃ ds : List Char, ds ≠ [] ∧ (∀ c ∈ ds, c.isDigit = true) ∧
    (s.toList = ds ∨ s.toList = '+' :: ds) ∧ Nat.ofDigitChars 10 ds 0 = n.toNat

theorem digit?_ten (c : Char) :
    digit? 10 c = if c.isDigit then some (c.toNat - '0'.toNat) else none := by
  have hdigit : c.isDigit = true ↔ '0' ≤ c ∧ c ≤ '9' := by
    rw [Char.isDigit_iff_toNat]
    rfl
  unfold digit? hexDigit?
  split
  · next h =>
    have hle : c.toNat ≤ '9'.toNat := (Char.isDigit_iff_toNat.mp (hdigit.mpr h)).2
    have hlt : c.toNat - '0'.toNat < 10 :=
      Nat.lt_of_le_of_lt (Nat.sub_le_sub_right hle _) (by decide)
    rw [if_pos (hdigit.mpr h), Option.filter_some, if_pos (by simpa using hlt)]
  · next h =>
    rw [if_neg (hdigit.not.mpr h)]
    split
    · simp [Option.filter]
    · split <;> simp [Option.filter]

theorem digits?_ten (before : Nat) (cs : List Char) :
    digits? 10 before cs =
      if cs.all Char.isDigit then some (Nat.ofDigitChars 10 cs before) else none := by
  induction cs generalizing before with
  | nil => simp [digits?]
  | cons c cs ih =>
    rw [digits?, digit?_ten]
    by_cases h : c.isDigit = true
    · rw [if_pos h, Option.bind_some, ih, Nat.ofDigitChars_cons, Nat.mul_comm]
      simp only [List.all_cons, h, Bool.true_and]
    · simp [h]

theorem natural?_ten {cs : List Char} {n : Nat} : natural? 10 cs = some n ↔
    cs ≠ [] ∧ (∀ c ∈ cs, c.isDigit = true) ∧ Nat.ofDigitChars 10 cs 0 = n := by
  cases cs with
  | nil => simp [natural?]
  | cons c cs =>
    rw [natural?, digits?_ten]
    · simp
    · simp

theorem withoutPlus_cases (cs : List Char) : withoutPlus cs = cs ∨ cs = '+' :: withoutPlus cs := by
  unfold withoutPlus
  split
  · exact .inr rfl
  · exact .inl rfl

theorem withoutPlus_of_digits {cs : List Char} (h : ∀ c ∈ cs, c.isDigit = true) :
    withoutPlus cs = cs := by
  rcases withoutPlus_cases cs with heq | heq
  · exact heq
  · exact absurd (h '+' (heq ▸ List.mem_cons_self)) (by decide)

theorem word?_eq_some_iff_natural? {s : String} {n : UInt64} :
    word? s = some n ↔ natural? 10 (withoutPlus s.toList) = some n.toNat := by
  rw [word?, wholeNumber?, Option.map_eq_some_iff]
  constructor
  · rintro ⟨m, hm, rfl⟩
    obtain ⟨hread, hlt⟩ := Option.filter_eq_some_iff.mp hm
    rw [hread, UInt64.toNat_ofNat_of_lt' (by simpa using hlt)]
  · intro h
    refine ⟨n.toNat, Option.filter_eq_some_iff.mpr ⟨h, ?_⟩, UInt64.ofNat_toNat⟩
    simpa using n.toNat_lt_size

theorem word?_eq_some_iff {s : String} {n : UInt64} : word? s = some n ↔ Denotes s n := by
  rw [word?_eq_some_iff_natural?, natural?_ten]
  constructor
  · rintro ⟨hne, hdigits, hvalue⟩
    exact ⟨_, hne, hdigits, (withoutPlus_cases s.toList).imp_left Eq.symm, hvalue⟩
  · rintro ⟨ds, hne, hdigits, heq | heq, hvalue⟩
    · rw [heq, withoutPlus_of_digits hdigits]
      exact ⟨hne, hdigits, hvalue⟩
    · rw [heq, withoutPlus]
      exact ⟨hne, hdigits, hvalue⟩

end Text

/-! ## 2. What a layer sets -/

/-- What one layer of the configuration sets. -/
structure Settings where
  applicationKind : Option KindDescriptor := none
  namespaces : Option (List String) := none
  batchDurationMs : Option UInt64 := none
  queueCapacity : Option UInt64 := none
  namespacesKey : Option String := none
deriving DecidableEq

/-- What stands for an optional value is unique if it is so for each value. -/
theorem rel_unique {α β : Type} {R : α → β → Prop} {given : Option α} {v w : Option β}
    (hR : ∀ a b b', R a b → R a b' → b = b') (hv : Option.Rel R given v)
    (hw : Option.Rel R given w) : v = w := by
  cases hv with
  | none => cases hw; rfl
  | some hv =>
    cases hw with
    | some hw => rw [hR _ _ _ hv hw]

theorem rel_read_unique {α β : Type} {read : α → Option β} {given : Option α} {v w : Option β} :
    Option.Rel (fun a b => read a = some b) given v →
      Option.Rel (fun a b => read a = some b) given w → v = w :=
  rel_unique fun _ _ _ h h' => Option.some.inj (h.symm.trans h')

namespace Settings

/-- The settings of two layers; where both set one, the upper layer counts. -/
def above (s below : Settings) : Settings where
  applicationKind := s.applicationKind.or below.applicationKind
  namespaces := s.namespaces.or below.namespaces
  batchDurationMs := s.batchDurationMs.or below.batchDurationMs
  queueCapacity := s.queueCapacity.or below.queueCapacity
  namespacesKey := s.namespacesKey.or below.namespacesKey

/-- A configuration with the settings in place of its own. -/
def onto (s : Settings) (c : Config) : Config where
  applicationKind := s.applicationKind.getD c.applicationKind
  namespaces := s.namespaces.getD c.namespaces
  batchDurationMs := s.batchDurationMs.getD c.batchDurationMs
  queueCapacity := s.queueCapacity.getD c.queueCapacity
  namespacesKey := s.namespacesKey.getD c.namespacesKey

/-- The configuration of a pile of layers, with the defaults below all of them. -/
def config (s : Settings) : Config := s.onto {}

theorem onto_above (s below : Settings) (c : Config) :
    (s.above below).onto c = s.onto (below.onto c) := by
  simp [onto, above, Option.getD_or]

/-- What the members of a document set: a setting is set if there is a member with its name, which
has to be readable. -/
structure AreGiven (s : Settings) (members : List (String × Yaml)) : Prop where
  /-- No setting is given twice. -/
  distinct : (members.map (·.1)).Nodup
  applicationKind : Option.Rel (fun y k => KindDescriptor.ofYaml? y = some k)
    (members.lookup "applicationKind") s.applicationKind
  namespaces : Option.Rel (fun y l => y.items?.bind (·.mapM Yaml.text?) = some l)
    (members.lookup "namespaces") s.namespaces
  batchDurationMs : Option.Rel (fun y n => y.word? = some n)
    (members.lookup "batchDurationMs") s.batchDurationMs
  queueCapacity : Option.Rel (fun y n => y.word? = some n)
    (members.lookup "queueCapacity") s.queueCapacity
  namespacesKey : Option.Rel (fun y t => y.text? = some t)
    (members.lookup "componentNamespacesAnnotation") s.namespacesKey

theorem AreGiven.unique {members : List (String × Yaml)} {s s' : Settings}
    (h : s.AreGiven members) (h' : s'.AreGiven members) : s = s' := by
  obtain ⟨_, _, _, _, _⟩ := s
  obtain ⟨_, _, _, _, _⟩ := s'
  obtain ⟨-, h₁, h₂, h₃, h₄, h₅⟩ := h
  obtain ⟨-, h₁', h₂', h₃', h₄', h₅'⟩ := h'
  cases rel_read_unique h₁ h₁'
  cases rel_read_unique h₂ h₂'
  cases rel_read_unique h₃ h₃'
  cases rel_read_unique h₄ h₄'
  cases rel_read_unique h₅ h₅'
  rfl

/-- What the text of a file sets: nothing without a document, or what its one document gives. -/
inductive AreWritten (text : String) : Settings → Prop
  | nothing : Yaml.read? text = some [] → AreWritten text {}
  | document {d : Yaml.Document} {members : List (String × Yaml)} {s : Settings} :
      Yaml.read? text = some [d] → d.members? (Config.layout.fields.map (·.1)) = some members →
        s.AreGiven members → AreWritten text s

/-- What the variables of the environment set. -/
structure AreVariables (s : Settings) (e : Environment) : Prop where
  applicationKind : s.applicationKind = none
  namespaces : Option.Rel Text.Lists (e.get? "APPNAV_NAMESPACES") s.namespaces
  batchDurationMs :
    Option.Rel Text.Denotes (e.get? "APPNAV_BATCH_DURATION_MS") s.batchDurationMs
  queueCapacity : Option.Rel Text.Denotes (e.get? "APPNAV_QUEUE_CAPACITY") s.queueCapacity
  namespacesKey : s.namespacesKey = none

end Settings

/-- What the options set; without namespaces they say nothing about them. -/
def Options.settings (o : Options) : Settings where
  namespaces := if o.namespaces = [] then none else some o.namespaces
  batchDurationMs := o.batchDurationMs

theorem Options.applyTo_eq (o : Options) (c : Config) : o.applyTo c = o.settings.onto c := by
  cases h : o.namespaces <;> simp [applyTo, settings, Settings.onto, h]

/-! ## 3. Files -/

/-- A fold that reads one field after another gives each projection what stands under its name. -/
theorem lookup_of_foldlM {σ β : Type} (field : σ → String → Yaml → Option σ) (π : σ → β)
    (name : String) (read : Yaml → Option β)
    (hown : ∀ s y s', field s name y = some s' → read y = some (π s'))
    (hother : ∀ s n y s', n ≠ name → field s n y = some s' → π s' = π s)
    {members : List (String × Yaml)} {s s' : σ} (hdistinct : (members.map (·.1)).Nodup)
    (h : members.foldlM (fun s m => field s m.1 m.2) s = some s') :
    ∃ value, Option.Rel (fun y b => read y = some b) (members.lookup name) value ∧
      π s' = value.getD (π s) := by
  induction members generalizing s with
  | nil => exact ⟨none, .none, by cases h; rfl⟩
  | cons m members ih =>
    obtain ⟨n, y⟩ := m
    obtain ⟨hnew, hdistinct⟩ := List.nodup_cons.mp hdistinct
    obtain ⟨t, ht, h⟩ := Option.bind_eq_some_iff.mp h
    obtain ⟨value, hvalue, heq⟩ := ih hdistinct h
    by_cases hn : n = name
    · subst hn
      have hnone : members.lookup n = none := by
        refine List.lookup_eq_none_iff.mpr fun m hm => bne_iff_ne.mpr fun heq => hnew ?_
        exact List.mem_map.mpr ⟨m, hm, heq.symm⟩
      rw [hnone] at hvalue
      cases hvalue
      refine ⟨some (π t), ?_, heq⟩
      rw [List.lookup_cons_self]
      exact .some (hown s y t ht)
    · refine ⟨value, ?_, ?_⟩
      · rwa [List.lookup_cons, beq_false_of_ne (Ne.symm hn)]
      · rw [heq, hother s n y t hn ht]

theorem lookup_of_mem {members : List (String × Yaml)} (hdistinct : (members.map (·.1)).Nodup)
    {n : String} {y : Yaml} (h : (n, y) ∈ members) : members.lookup n = some y := by
  obtain ⟨front, back, rfl⟩ := List.append_of_mem h
  refine List.lookup_eq_some_iff.mpr ⟨front, back, rfl, fun m hm => bne_iff_ne.mpr fun heq => ?_⟩
  rw [List.map_append, List.nodup_append] at hdistinct
  exact hdistinct.2.2 m.1 (List.mem_map_of_mem hm) n (by simp) heq.symm

/-- A fold succeeds if each field can be read. -/
theorem exists_foldlM {σ : Type} {field : σ → String → Yaml → Option σ}
    {members : List (String × Yaml)}
    (h : ∀ m ∈ members, ∀ s, ∃ s', field s m.1 m.2 = some s') (s : σ) :
    ∃ s', members.foldlM (fun s m => field s m.1 m.2) s = some s' := by
  induction members generalizing s with
  | nil => exact ⟨s, rfl⟩
  | cons m members ih =>
    obtain ⟨hm, hmembers⟩ := List.forall_mem_cons.mp h
    obtain ⟨t, ht⟩ := hm s
    obtain ⟨s', hs'⟩ := ih hmembers t
    exact ⟨s', by rw [List.foldlM_cons, ht]; exact hs'⟩

namespace Config

variable {c c' : Config} {members : List (String × Yaml)} {s s' : Settings} {n : String} {y : Yaml}

/-- A member sets no other setting than that of its name. -/
theorem yamlField_elsewhere (h : c.yamlField n y = some c') :
    (n ≠ "applicationKind" → c'.applicationKind = c.applicationKind) ∧
    (n ≠ "namespaces" → c'.namespaces = c.namespaces) ∧
    (n ≠ "batchDurationMs" → c'.batchDurationMs = c.batchDurationMs) ∧
    (n ≠ "queueCapacity" → c'.queueCapacity = c.queueCapacity) ∧
    (n ≠ "componentNamespacesAnnotation" → c'.namespacesKey = c.namespacesKey) := by
  unfold yamlField at h
  split at h
  case h_6 => simp [Option.some.inj h]
  all_goals
    obtain ⟨v, -, rfl⟩ := Option.map_eq_some_iff.mp h
    simp

/-- A member can be read if it gives one of the settings, or none that there is. -/
theorem exists_yamlField (hs : s.AreGiven members) (h : (n, y) ∈ members) (c : Config) :
    ∃ c', c.yamlField n y = some c' := by
  have hlookup := lookup_of_mem hs.distinct h
  have hread : ∀ {β : Type} {read : Yaml → Option β} {v : Option β} (f : β → Config),
      Option.Rel (fun y b => read y = some b) (members.lookup n) v →
        ∃ c', (read y).map f = some c' := by
    intro β read v f hrel
    rw [hlookup] at hrel
    cases hrel with
    | some hrel => exact ⟨_, congrArg (Option.map f) hrel⟩
  unfold yamlField
  split
  · exact hread _ hs.applicationKind
  · exact hread _ hs.namespaces
  · exact hread _ hs.batchDurationMs
  · exact hread _ hs.queueCapacity
  · exact hread _ hs.namespacesKey
  · exact ⟨c, rfl⟩

/-- A setting that was read is what its member gives. -/
theorem read_of_map {β : Type} {read : Option β} {set : β → Config} {setting : Config → β}
    (hset : ∀ b, setting (set b) = b) (h : read.map set = some c') : read = some (setting c') := by
  obtain ⟨b, hb, rfl⟩ := Option.map_eq_some_iff.mp h
  rw [hb, hset]

theorem exists_areGiven (hdistinct : (members.map (·.1)).Nodup)
    (h : members.foldlM (fun c m => c.yamlField m.1 m.2) c = some c') :
    ∃ s : Settings, s.AreGiven members ∧ c' = s.onto c := by
  obtain ⟨kind, hkind, hkindEq⟩ := lookup_of_foldlM yamlField Config.applicationKind "applicationKind"
    KindDescriptor.ofYaml? (fun _ _ _ h => read_of_map (fun _ => rfl) h)
    (fun c n y c' hn h => (yamlField_elsewhere h).1 hn) hdistinct h
  obtain ⟨list, hlist, hlistEq⟩ := lookup_of_foldlM yamlField Config.namespaces "namespaces"
    (fun y => y.items?.bind (·.mapM Yaml.text?)) (fun _ _ _ h => read_of_map (fun _ => rfl) h)
    (fun c n y c' hn h => (yamlField_elsewhere h).2.1 hn) hdistinct h
  obtain ⟨duration, hduration, hdurationEq⟩ := lookup_of_foldlM yamlField Config.batchDurationMs
    "batchDurationMs" Yaml.word? (fun _ _ _ h => read_of_map (fun _ => rfl) h)
    (fun c n y c' hn h => (yamlField_elsewhere h).2.2.1 hn) hdistinct h
  obtain ⟨capacity, hcapacity, hcapacityEq⟩ := lookup_of_foldlM yamlField Config.queueCapacity
    "queueCapacity" Yaml.word? (fun _ _ _ h => read_of_map (fun _ => rfl) h)
    (fun c n y c' hn h => (yamlField_elsewhere h).2.2.2.1 hn) hdistinct h
  obtain ⟨key, hkey, hkeyEq⟩ := lookup_of_foldlM yamlField Config.namespacesKey
    "componentNamespacesAnnotation" Yaml.text? (fun _ _ _ h => read_of_map (fun _ => rfl) h)
    (fun c n y c' hn h => (yamlField_elsewhere h).2.2.2.2 hn) hdistinct h
  refine ⟨⟨kind, list, duration, capacity, key⟩,
    ⟨hdistinct, hkind, hlist, hduration, hcapacity, hkey⟩, ?_⟩
  simp only [Settings.onto, ← hkindEq, ← hlistEq, ← hdurationEq, ← hcapacityEq, ← hkeyEq]

theorem foldlM_yamlField_iff (hdistinct : (members.map (·.1)).Nodup) :
    members.foldlM (fun c m => c.yamlField m.1 m.2) c = some c' ↔
      ∃ s : Settings, s.AreGiven members ∧ c' = s.onto c := by
  refine ⟨exists_areGiven hdistinct, ?_⟩
  rintro ⟨s, hs, rfl⟩
  obtain ⟨c', hc'⟩ := exists_foldlM (fun m hm c => exists_yamlField hs hm c) c
  obtain ⟨s', hs', rfl⟩ := exists_areGiven hdistinct hc'
  rw [hc', hs.unique hs']

/-- **A file gives what is written in it.** -/
theorem read?_eq_some_iff {text : String} :
    read? text = some c ↔ ∃ s, Settings.AreWritten text s ∧ c = s.config := by
  constructor
  · intro h
    unfold read? at h
    split at h
    · next hread => exact ⟨{}, .nothing hread, (Option.some.inj h).symm⟩
    · next d hread =>
      obtain ⟨members, hmembers, h⟩ := Option.bind_eq_some_iff.mp h
      split at h
      · next hdistinct =>
        obtain ⟨s, hs, rfl⟩ := (foldlM_yamlField_iff hdistinct).mp h
        exact ⟨s, .document hread hmembers hs, rfl⟩
      · exact absurd h (by simp)
    · exact absurd h (by simp)
  · rintro ⟨s, hs, rfl⟩
    unfold read?
    cases hs with
    | nothing hread => rw [hread]; rfl
    | document hread hmembers hs =>
      rw [hread]
      simp only [ofDocument?, hmembers, Option.bind_eq_bind, Option.bind_some, hs.distinct,
        if_true]
      exact (foldlM_yamlField_iff hs.distinct).mpr ⟨_, hs, rfl⟩

/-! ## 4. The environment -/

theorem numberOr_eq_ok_iff {value : Option String} {current n : UInt64} {problem : ConfigError} :
    numberOr value current problem = .ok n ↔
      ∃ set, Option.Rel Text.Denotes value set ∧ n = set.getD current := by
  cases value with
  | none =>
    constructor
    · intro h
      exact ⟨none, .none, (Except.ok.inj h).symm⟩
    · rintro ⟨set, hset, rfl⟩
      cases hset
      rfl
  | some text =>
    rw [numberOr]
    constructor
    · intro h
      split at h
      · exact absurd h (by simp)
      · next m hm =>
        refine ⟨some m, .some (Text.word?_eq_some_iff.mp hm), (Except.ok.inj h).symm⟩
    · rintro ⟨set, hset, rfl⟩
      cases hset with
      | some hset =>
        rw [Text.word?_eq_some_iff.mpr hset]
        rfl

theorem rel_lists_iff {text : Option String} {names : Option (List String)} :
    Option.Rel Text.Lists text names ↔ text.map Text.nameList = names := by
  constructor
  · rintro (h | _)
    · rw [Option.map_some, Text.lists_iff.mp h]
    · rfl
  · rintro rfl
    cases text with
    | none => exact .none
    | some text => exact .some (Text.lists_iff.mpr rfl)

/-- **The environment is a layer.** -/
theorem override_eq_ok_iff_exists {e : Environment} :
    c.override e = .ok c' ↔ ∃ s : Settings, s.AreVariables e ∧ c' = s.onto c := by
  rw [override_eq_ok_iff]
  constructor
  · rintro ⟨_, _, hduration, hcapacity, rfl⟩
    obtain ⟨duration, hset, rfl⟩ := numberOr_eq_ok_iff.mp hduration
    obtain ⟨capacity, hset', rfl⟩ := numberOr_eq_ok_iff.mp hcapacity
    exact ⟨⟨none, _, duration, capacity, none⟩, ⟨rfl, rel_lists_iff.mpr rfl, hset, hset', rfl⟩,
      rfl⟩
  · rintro ⟨⟨_, list, duration, capacity, _⟩, ⟨rfl, hlist, hduration, hcapacity, rfl⟩, rfl⟩
    obtain rfl := rel_lists_iff.mp hlist
    exact ⟨_, _, numberOr_eq_ok_iff.mpr ⟨duration, hduration, rfl⟩,
      numberOr_eq_ok_iff.mpr ⟨capacity, hcapacity, rfl⟩, rfl⟩

end Config

namespace Settings

variable {s s' : Settings} {e : Environment} {text : String}

theorem AreVariables.unique (h : s.AreVariables e) (h' : s'.AreVariables e) : s = s' := by
  obtain ⟨_, _, _, _, _⟩ := s
  obtain ⟨_, _, _, _, _⟩ := s'
  obtain ⟨rfl, h₁, h₂, h₃, rfl⟩ := h
  obtain ⟨rfl, h₁', h₂', h₃', rfl⟩ := h'
  have hlists : ∀ text names names', Text.Lists text names → Text.Lists text names' →
      names = names' :=
    fun _ _ _ h h' => (Text.lists_iff.mp h).symm.trans (Text.lists_iff.mp h')
  have hnumbers : ∀ text n n', Text.Denotes text n → Text.Denotes text n' → n = n' :=
    fun _ _ _ h h' => Option.some.inj
      ((Text.word?_eq_some_iff.mpr h).symm.trans (Text.word?_eq_some_iff.mpr h'))
  cases rel_unique hlists h₁ h₁'
  cases rel_unique hnumbers h₂ h₂'
  cases rel_unique hnumbers h₃ h₃'
  rfl

theorem AreWritten.unique (h : AreWritten text s) (h' : AreWritten text s') : s = s' := by
  cases h with
  | nothing hread =>
    cases h' with
    | nothing _ => rfl
    | document hread' _ _ => exact absurd (hread.symm.trans hread') (by simp)
  | document hread hmembers hs =>
    cases h' with
    | nothing hread' => exact absurd (hread.symm.trans hread') (by simp)
    | document hread' hmembers' hs' =>
      cases hread.symm.trans hread'
      cases hmembers.symm.trans hmembers'
      exact hs.unique hs'

end Settings

end AppWatch
