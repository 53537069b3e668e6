/-
# Two readers of one list of names

Lists of names stand in an annotation of an application and in a variable of the environment, and
each has a reader of its own: `Text.nameSet` trims the segments and puts those that are left into a
set, `Text.nameList` keeps them in order and with repetitions.

What a list of names is, is said here without either of them (`Text.Lists`): segments with commas in
between, of which each is blank or holds one name with blanks around it.  A text lists exactly one
sequence of names, and `nameList` reads that one (`lists_iff`); `nameSet` reads the set of them
(`nameSet_eq`).  So neither the blanks nor the empty segments of a text can tell the two readers
apart.
-/
import AppWatch.Config.Load
import AppWatch.NamespaceFilter
import AppWatch.Proofs.Batches
import Mathlib.Data.List.TakeWhile

namespace AppWatch

namespace Text

/-! ## 1. The grammar -/

/-- Blanks and nothing else. -/
def IsBlankRun (s : List Char) : Prop := ∀ c ∈ s, isBlank c = true

/-- No blank stands at either end. -/
structure IsTrimmed (s : List Char) : Prop where
  head : ∀ c ∈ s.head?, isBlank c = false
  last : ∀ c ∈ s.getLast?, isBlank c = false

/-- A name that can stand in a list. -/
structure IsName (n : String) : Prop extends IsTrimmed n.toList where
  nonempty : n ≠ ""
  no_comma : ',' ∉ n.toList

/-- The names that segments spell: a blank segment spells none, every other one a name with blanks
around it. -/
inductive Spells : List (List Char) → List String → Prop
  | nil : Spells [] []
  | blank {s : List Char} {ss : List (List Char)} {names : List String} :
      IsBlankRun s → Spells ss names → Spells (s :: ss) names
  | name {before after : List Char} {n : String} {ss : List (List Char)} {names : List String} :
      IsBlankRun before → IsName n → IsBlankRun after → Spells ss names →
        Spells ((before ++ n.toList ++ after) :: ss) (n :: names)

/-- A text lists names if it consists of segments that spell them, with commas in between. -/
def Lists (text : String) (names : List String) : Prop :=
  ∃ ss, text.toList = [','].intercalate ss ∧ Spells ss names

variable {s before after : List Char} {ss : List (List Char)} {names : List String} {n text : String}

/-! ## 2. Segments -/

theorem segments_eq_splitOn (separator : Char) (cs : List Char) :
    segments separator cs = cs.splitOn separator := by
  induction cs with
  | nil => rfl
  | cons c cs ih =>
    rw [segments, ih, List.splitOn_cons_eq_if_modifyHead]
    by_cases h : c = separator
    · simp [h]
    · cases hs : cs.splitOn separator with
      | nil => exact absurd hs (List.splitOn_ne_nil _ _)
      | cons s ss => simp [h]

theorem separator_not_mem (separator : Char) (cs : List Char) :
    ∀ s ∈ segments separator cs, separator ∉ s := by
  fun_induction segments separator cs with
  | case1 => simp
  | case2 cs ih => exact List.forall_mem_cons.mpr ⟨List.not_mem_nil, ih⟩
  | case3 c cs h _ ih => simpa using Ne.symm h
  | case4 c cs h s ss heq ih =>
    obtain ⟨hs, hss⟩ := List.forall_mem_cons.mp (heq ▸ ih)
    exact List.forall_mem_cons.mpr ⟨by simp [Ne.symm h, hs], hss⟩

theorem IsBlankRun.no_comma (h : IsBlankRun s) : ',' ∉ s :=
  fun hc => absurd (h _ hc) (by decide)

theorem Spells.no_comma (h : Spells ss names) : ∀ s ∈ ss, ',' ∉ s := by
  induction h with
  | nil => simp
  | blank hs _ ih => exact List.forall_mem_cons.mpr ⟨hs.no_comma, ih⟩
  | name hb hn ha _ ih =>
    refine List.forall_mem_cons.mpr ⟨?_, ih⟩
    simp only [List.mem_append, not_or]
    exact ⟨⟨hb.no_comma, hn.no_comma⟩, ha.no_comma⟩

/-! ## 3. Trimming -/

theorem dropWhile_blanks (h : ∀ c ∈ s.head?, isBlank c = false) : s.dropWhile isBlank = s := by
  cases s with
  | nil => rfl
  | cons c cs => simp [h c rfl]

theorem head?_dropWhile_blanks (s : List Char) :
    ∀ c ∈ (s.dropWhile isBlank).head?, isBlank c = false := by
  intro c hc
  have := List.head?_dropWhile_not isBlank s
  rwa [Option.mem_def.mp hc] at this

theorem trim_of_blanks (h : IsBlankRun s) : trim s = [] := by
  rw [trim, List.dropWhile_eq_nil_iff.mpr h]
  rfl

/-- Trimming takes away the blanks around a text without blanks at its ends. -/
theorem trim_pad (hbefore : IsBlankRun before) (hs : IsTrimmed s) (hafter : IsBlankRun after)
    (hne : s ≠ []) : trim (before ++ s ++ after) = s := by
  have hfront : (before ++ s ++ after).dropWhile isBlank = s ++ after := by
    rw [List.append_assoc, List.dropWhile_append_of_pos hbefore]
    refine dropWhile_blanks fun c hc => hs.head c ?_
    rwa [List.head?_append, Option.or_of_isSome (by simpa using hne)] at hc
  have hback : (s ++ after).reverse.dropWhile isBlank = s.reverse := by
    rw [List.reverse_append, List.dropWhile_append_of_pos fun c hc => hafter c (by simpa using hc)]
    exact dropWhile_blanks fun c hc => hs.last c (by rwa [List.head?_reverse] at hc)
  rw [trim, hfront, hback, List.reverse_reverse]

/-- A text is what trimming leaves of it, with blanks around. -/
theorem exists_trim (s : List Char) :
    ∃ before after, s = before ++ trim s ++ after ∧ IsBlankRun before ∧ IsBlankRun after ∧
      IsTrimmed (trim s) := by
  have hfront : s.takeWhile isBlank ++ s.dropWhile isBlank = s := List.takeWhile_append_dropWhile
  have hback : trim s ++ ((s.dropWhile isBlank).reverse.takeWhile isBlank).reverse =
      s.dropWhile isBlank := by
    rw [trim, ← List.reverse_append, List.takeWhile_append_dropWhile, List.reverse_reverse]
  refine ⟨s.takeWhile isBlank, ((s.dropWhile isBlank).reverse.takeWhile isBlank).reverse, ?_,
    fun c hc => List.mem_takeWhile_imp hc,
    fun c hc => List.mem_takeWhile_imp (List.mem_reverse.mp hc), fun c hc => ?_, fun c hc => ?_⟩
  · rw [List.append_assoc, hback, hfront]
  · refine head?_dropWhile_blanks s c ?_
    rw [← hback, List.head?_append, Option.mem_def.mp hc]
    rfl
  · refine head?_dropWhile_blanks (s.dropWhile isBlank).reverse c ?_
    rwa [trim, List.getLast?_reverse] at hc

/-! ## 4. The names of a list -/

/-- The names in segments. -/
def segmentNames (ss : List (List Char)) : List String :=
  ((ss.map trim).filter fun t => !t.isEmpty).map String.ofList

theorem segmentNames_cons (s : List Char) (ss : List (List Char)) :
    segmentNames (s :: ss) =
      if trim s = [] then segmentNames ss else String.ofList (trim s) :: segmentNames ss := by
  by_cases h : trim s = [] <;> simp [segmentNames, h]

theorem nameList_eq (text : String) : nameList text = segmentNames (text.toList.splitOn ',') := by
  rw [nameList, segments_eq_splitOn]
  rfl

theorem Spells.segmentNames_eq (h : Spells ss names) : segmentNames ss = names := by
  induction h with
  | nil => rfl
  | blank hs _ ih => rw [segmentNames_cons, if_pos (trim_of_blanks hs), ih]
  | name hb hn ha _ ih =>
    have hne := fun h => hn.nonempty (String.toList_eq_nil_iff.mp h)
    rw [segmentNames_cons, trim_pad hb hn.toIsTrimmed ha hne, if_neg hne, String.ofList_toList, ih]

/-- Segments without commas spell their names. -/
theorem spells_segmentNames (hcomma : ∀ s ∈ ss, ',' ∉ s) : Spells ss (segmentNames ss) := by
  induction ss with
  | nil => exact .nil
  | cons s ss ih =>
    obtain ⟨hs, hss⟩ := List.forall_mem_cons.mp hcomma
    obtain ⟨before, after, heq, hb, ha, htrimmed⟩ := exists_trim s
    rw [segmentNames_cons]
    split
    · next hempty =>
      refine .blank (fun c hc => ?_) (ih hss)
      rw [heq, hempty, List.append_nil] at hc
      exact (List.mem_append.mp hc).elim (hb c) (ha c)
    · next hne =>
      have hname : IsName (String.ofList (trim s)) := by
        refine ⟨by rwa [String.toList_ofList], fun h => hne (String.ofList_eq_empty_iff.mp h), ?_⟩
        rw [String.toList_ofList]
        intro hc
        exact hs (heq ▸ List.mem_append_left _ (List.mem_append_right _ hc))
      have := Spells.name hb hname ha (ih hss)
      rwa [String.toList_ofList, ← heq] at this

/-- **What is listed is what is read.** -/
theorem lists_iff : Lists text names ↔ nameList text = names := by
  rw [nameList_eq]
  constructor
  · rintro ⟨ss, heq, hss⟩
    cases ss with
    | nil =>
      cases hss
      rw [heq]
      rfl
    | cons s ss =>
      rw [heq, List.splitOn_intercalate _ hss.no_comma (List.cons_ne_nil _ _)]
      exact hss.segmentNames_eq
  · rintro rfl
    refine ⟨text.toList.splitOn ',', (List.intercalate_splitOn _).symm, spells_segmentNames ?_⟩
    rw [← segments_eq_splitOn]
    exact separator_not_mem _ _

theorem isName_of_lists (h : Lists text names) (hn : n ∈ names) : IsName n := by
  obtain ⟨ss, -, hss⟩ := h
  induction hss with
  | nil => simp at hn
  | blank _ _ ih => exact ih hn
  | name _ hname _ _ ih =>
    rcases List.mem_cons.mp hn with rfl | hn
    · exact hname
    · exact ih hn

theorem isBlankRun_nil : IsBlankRun [] := by simp [IsBlankRun]

/-- Names with nothing but commas in between are listed. -/
theorem lists_intercalate (h : ∀ n ∈ names, IsName n) : Lists (",".intercalate names) names := by
  refine ⟨names.map String.toList, String.toList_intercalate, ?_⟩
  induction names with
  | nil => exact .nil
  | cons n names ih =>
    obtain ⟨hn, hnames⟩ := List.forall_mem_cons.mp h
    simpa using Spells.name isBlankRun_nil hn isBlankRun_nil (ih hnames)

theorem nameSet_eq (text : String) : nameSet text = SortedSet.ofList (nameList text) := by
  rw [nameSet, nameList, SortedSet.ofList]
  generalize segments ',' text.toList = ss
  generalize (SortedMap.empty : SortedSet String) = set
  induction ss generalizing set with
  | nil => rfl
  | cons s ss ih =>
    rw [List.foldl_cons, ih]
    cases h : trim s <;> simp [h]

end Text

namespace Config

/-! ## 5. The namespaces of the environment -/

variable {c c' : Config} {e : Environment}

/-- Overriding takes each setting from its variable, and succeeds if the numbers can be read. -/
theorem override_eq_ok_iff : c.override e = .ok c' ↔
    ∃ duration capacity,
      numberOr (e.get? "APPNAV_BATCH_DURATION_MS") c.batchDurationMs .badDuration = .ok duration ∧
      numberOr (e.get? "APPNAV_QUEUE_CAPACITY") c.queueCapacity .badCapacity = .ok capacity ∧
      c' = { c with
        namespaces := ((e.get? "APPNAV_NAMESPACES").map Text.nameList).getD c.namespaces
        batchDurationMs := duration
        queueCapacity := capacity } := by
  unfold override
  constructor
  · intro h
    obtain ⟨duration, hduration, h⟩ := exists_of_bind_eq_ok h
    obtain ⟨capacity, hcapacity, h⟩ := exists_of_bind_eq_ok h
    refine ⟨duration, capacity, hduration, hcapacity, ?_⟩
    rw [← Except.ok.inj h]
    cases e.get? "APPNAV_NAMESPACES" <;> rfl
  · rintro ⟨duration, capacity, hduration, hcapacity, rfl⟩
    rw [hduration, hcapacity]
    cases e.get? "APPNAV_NAMESPACES" <;> rfl

/-- The environment in which the namespaces are set and nothing else. -/
def naming (text : String) : Environment := SortedMap.empty.insert "APPNAV_NAMESPACES" text

theorem exists_override_naming (c : Config) (text : String) :
    ∃ c', c.override (naming text) = .ok c' := by
  have hunset : ∀ name, name ≠ "APPNAV_NAMESPACES" → (naming text).get? name = none :=
    fun name h => SortedMap.get?_insert_of_ne _ h _
  refine ⟨_, override_eq_ok_iff.mpr ⟨c.batchDurationMs, c.queueCapacity, ?_, ?_, rfl⟩⟩
  · rw [hunset _ (by decide)]
    rfl
  · rw [hunset _ (by decide)]
    rfl

open Text in
/-- **The two grammars agree.**  A text can always be read as the namespaces of the environment.  Of
what is read there:

* it is what the text lists, in order and with repetitions, and the text lists nothing else;
* each of it is a name;
* names that are joined by commas are read back as they are;
* wherever the text stands in an annotation, the global set of the filter for what was read is the
  set of namespaces that the annotation names. -/
theorem grammars_agree (text : String) :
    (∀ c : Config, ∃ c', c.override (naming text) = .ok c') ∧
    ∀ (e : Environment) (c c' : Config), e.get? "APPNAV_NAMESPACES" = some text →
      c.override e = .ok c' →
        (∀ names, Lists text names ↔ c'.namespaces = names) ∧
        (∀ n ∈ c'.namespaces, IsName n) ∧
        (∀ names, (∀ n ∈ names, IsName n) → text = ",".intercalate names →
          c'.namespaces = names) ∧
        ∀ (o : ClusterObject) (key : String),
          o.metadata.annotations.bind (·.get? key) = some text →
            Application.annotatedNamespaces key o =
                (NamespaceFilter.ofList c'.namespaces).global ∧
              ∀ n, (Application.annotatedNamespaces key o).contains n = true → IsName n := by
  refine ⟨fun c => exists_override_naming c text, fun e c c' htext hread => ?_⟩
  have hnamespaces : c'.namespaces = nameList text := by
    obtain ⟨duration, capacity, -, -, rfl⟩ := override_eq_ok_iff.mp hread
    simp [htext]
  have hlists : ∀ names, Lists text names ↔ c'.namespaces = names := by
    intro names
    rw [hnamespaces, lists_iff]
  have hnames : ∀ n ∈ c'.namespaces, IsName n :=
    fun n hn => isName_of_lists ((hlists _).mpr rfl) hn
  refine ⟨hlists, hnames, fun names h heq => ?_, fun o key ho => ?_⟩
  · exact (hlists names).mp (heq ▸ lists_intercalate h)
  · have hset : Application.annotatedNamespaces key o =
        (NamespaceFilter.ofList c'.namespaces).global := by
      rw [Application.annotatedNamespaces, ho, hnamespaces]
      exact nameSet_eq text
    refine ⟨hset, fun n hn => hnames n ?_⟩
    rw [hset] at hn
    exact SortedSet.contains_ofList_iff.mp hn

/-- A list with a name that has a blank inside and that stands twice, with segments that are empty
or blank, and with blanks that are no spaces. -/
def sampleListing : String := " a b ,,\u2003x\u00a0,\t,a b"

/-- The sample lists three names, of which the annotation keeps two. -/
theorem grammars_agree_blanks :
    ∃ c', Config.override (naming sampleListing) {} = .ok c' ∧
      c'.namespaces = ["a b", "x", "a b"] ∧
      Application.annotatedNamespaces "names"
          { metadata := { annotations := some (SortedMap.empty.insert "names" sampleListing) } } =
        (NamespaceFilter.ofList c'.namespaces).global ∧
      SortedSet.toList (NamespaceFilter.ofList c'.namespaces).global = ["a b", "x"] := by
  obtain ⟨hsome, hread⟩ := grammars_agree sampleListing
  obtain ⟨c', hc'⟩ := hsome {}
  obtain ⟨hlists, -, -, hset⟩ := hread (naming sampleListing) {} c' (by decide) hc'
  have hnamespaces : c'.namespaces = ["a b", "x", "a b"] :=
    (hlists _).mp (Text.lists_iff.mpr (by decide))
  refine ⟨c', hc', hnamespaces, (hset _ "names" (by decide)).1, ?_⟩
  rw [hnamespaces]
  decide

end Config

end AppWatch
