/-
# What the key of an object tells

An object is cached under one text: its namespace, a slash and its name, or the name alone.  Where
neither has a slash in it the text can be cut at its slashes again, and the number of segments tells
whether there is a namespace (`Text.intercalate_slash_inj`).  So objects with plain names that have
one key lie in one namespace and have one name (`ResourceKey.objectKey_inj`), and whatever an event
stores or removes under a key of one scope was not an object of another.
-/
import AppWatch.Proofs.Versions

namespace AppWatch

/-! ## 1. Texts with separators in them -/

namespace Text

variable {s t s' t' : String} {c : Char}

/-- **What stands before the first separator is determined by the text, and so is what stands behind
it.** -/
theorem append_separator_inj (hs : c ∉ s.toList) (hs' : c ∉ s'.toList) :
    s ++ String.singleton c ++ t = s' ++ String.singleton c ++ t' ↔ s = s' ∧ t = t' := by
  have hbefore : ∀ {s t : String}, c ∉ s.toList →
      (s ++ String.singleton c ++ t).toList.takeWhile (fun d => d ≠ c) = s.toList := by
    intro s t hs
    have hfree : ∀ d ∈ s.toList, decide (d ≠ c) = true := fun d hd =>
      decide_eq_true fun he => hs (he ▸ hd)
    simp only [String.toList_append, String.toList_singleton, List.append_assoc,
      List.takeWhile_append_of_pos hfree]
    simp
  constructor
  · intro h
    obtain rfl : s = s' :=
      String.toList_injective (by rw [← hbefore hs (t := t), h, hbefore hs'])
    exact ⟨rfl, (String.append_right_inj _).mp h⟩
  · rintro ⟨rfl, rfl⟩
    rfl

/-- Whether a text has a slash in it. -/
def hasSlash (s : String) : Bool := s.toList.contains '/'

theorem append_slash_inj (hs : hasSlash s = false) (hs' : hasSlash s' = false) :
    s ++ "/" ++ t = s' ++ "/" ++ t' ↔ s = s' ∧ t = t' := by
  rw [show "/" = String.singleton '/' from rfl]
  exact append_separator_inj (by simpa [hasSlash] using hs) (by simpa [hasSlash] using hs')

/-- **Slashes between texts without slashes keep them apart.** -/
theorem intercalate_slash_inj {ps qs : List String} (hps : ps ≠ []) (hqs : qs ≠ [])
    (hp : ∀ p ∈ ps, hasSlash p = false) (hq : ∀ q ∈ qs, hasSlash q = false) :
    "/".intercalate ps = "/".intercalate qs ↔ ps = qs := by
  have hsplit : ∀ {rs : List String}, rs ≠ [] → (∀ r ∈ rs, hasSlash r = false) →
      ("/".intercalate rs).toList.splitOn '/' = rs.map String.toList := by
    intro rs hrs hr
    rw [String.toList_intercalate]
    exact List.splitOn_intercalate '/' (by simpa [hasSlash] using hr) (by simpa using hrs)
  refine ⟨fun h => ?_, congrArg _⟩
  have hlists : ps.map String.toList = qs.map String.toList := by
    rw [← hsplit hps hp, h, hsplit hqs hq]
  exact List.map_injective_iff.mpr (fun _ _ => String.toList_injective) hlists

end Text

/-! ## 2. Keys of plain objects -/

namespace ResourceKey

variable {k l : ResourceKey}

/-- Whether neither namespace nor name has a slash in it. -/
def isPlain (k : ResourceKey) : Bool :=
  !Text.hasSlash k.«namespace» && !Text.hasSlash k.name

/-- The namespace, if there is one, and the name. -/
def segments (k : ResourceKey) : List String :=
  if k.«namespace» = "" then [k.name] else [k.«namespace», k.name]

theorem objectKey_eq (k : ResourceKey) : k.objectKey = "/".intercalate k.segments := by
  unfold objectKey segments
  split <;> rfl

theorem segments_ne_nil (k : ResourceKey) : k.segments ≠ [] := by
  unfold segments
  split <;> simp

theorem hasSlash_of_mem_segments (h : k.isPlain = true) :
    ∀ s ∈ k.segments, Text.hasSlash s = false := by
  simp only [isPlain, Bool.and_eq_true, Bool.not_eq_true'] at h
  unfold segments
  split <;> simp [h]

/-- The number of segments tells whether there is a namespace. -/
theorem segments_inj :
    k.segments = l.segments ↔ k.«namespace» = l.«namespace» ∧ k.name = l.name := by
  unfold segments
  by_cases hk : k.«namespace» = "" <;> by_cases hl : l.«namespace» = "" <;>
    simp [hk, hl, @eq_comm _ ""]

/-- **Among plain identities of a kind the key under which an object is cached tells all.** -/
theorem objectKey_inj (hk : k.isPlain = true) (hl : l.isPlain = true) :
    k.objectKey = l.objectKey ↔ k.«namespace» = l.«namespace» ∧ k.name = l.name := by
  rw [objectKey_eq, objectKey_eq, Text.intercalate_slash_inj k.segments_ne_nil l.segments_ne_nil
    (hasSlash_of_mem_segments hk) (hasSlash_of_mem_segments hl), segments_inj]

end ResourceKey

namespace ClusterObject

variable {o o' : ClusterObject} {key : String}

/-- Whether neither the namespace nor the name of an object has a slash in it. -/
def isPlain (o : ClusterObject) : Bool :=
  (o.metadata.«namespace».all fun s => !Text.hasSlash s) &&
    o.metadata.name.all fun s => !Text.hasSlash s

/-- The identity of a plain object is plain. -/
theorem isPlain_of_identity? {gvr : GroupVersionResource} {k : ResourceKey}
    (ho : o.isPlain = true) (hk : o.identity? gvr = some k) : k.isPlain = true := by
  obtain ⟨name, hname, rfl⟩ := Option.map_eq_some_iff.mp hk
  simp only [isPlain, hname, Option.all_some, Bool.and_eq_true] at ho
  simp only [ResourceKey.isPlain, Bool.and_eq_true]
  refine ⟨?_, ho.2⟩
  cases hns : o.metadata.«namespace» with
  | none => rfl
  | some ns => simpa [hns] using ho.1

/-- Plain objects with one key lie in one namespace; none is the empty one. -/
theorem namespace_eq_of_key? (ho : o.isPlain = true) (ho' : o'.isPlain = true)
    (h : o.key? = some key) (h' : o'.key? = some key) :
    o.metadata.«namespace».getD "" = o'.metadata.«namespace».getD "" := by
  rw [key?_eq_identity? _ {}] at h h'
  obtain ⟨k, hk, rfl⟩ := Option.map_eq_some_iff.mp h
  obtain ⟨k', hk', hkey⟩ := Option.map_eq_some_iff.mp h'
  have hns := ((ResourceKey.objectKey_inj (isPlain_of_identity? ho' hk')
    (isPlain_of_identity? ho hk)).mp hkey).1
  obtain ⟨name, -, rfl⟩ := Option.map_eq_some_iff.mp hk
  obtain ⟨name', -, rfl⟩ := Option.map_eq_some_iff.mp hk'
  exact hns.symm

end ClusterObject

/-- Plain objects with one key lie in the same scopes. -/
theorem WatchCache.inScope_eq_of_key? {o o' : ClusterObject} {key : String}
    (ho : o.isPlain = true) (ho' : o'.isPlain = true) (h : o.key? = some key)
    (h' : o'.key? = some key) (scope : String) : inScope scope o = inScope scope o' := by
  have hns := ClusterObject.namespace_eq_of_key? ho ho' h h'
  by_cases hscope : scope = ""
  · simp [inScope, hscope]
  · have hiff : ∀ ns : Option String, ns = some scope ↔ ns.getD "" = scope := by
      intro ns
      cases ns with
      | none => simp [Ne.symm hscope]
      | some n => simp
    simp only [inScope, hscope, hiff, hns]

end AppWatch
