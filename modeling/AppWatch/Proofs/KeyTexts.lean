/-
# What the text of a key tells

Errors and notices name an object by the text of its key: the text of its kind, a colon, and the key
under which it is cached (`ResourceKey.text_eq`).  The text of a kind has two or three segments, the
key of the object one or two, with slashes in between; so there are four shapes, and nothing but the
separators to tell them apart.

Names may have colons in them, as those of roles do.  But no kind has one, so the colon behind the
kind is the first, and it cuts the text in two.  Either half is cut at its slashes, and the number of
segments tells what was left out.
-/
import AppWatch.Proofs.ObjectKeys

namespace AppWatch

/-- Whether a text has a colon in it. -/
def Text.hasColon (s : String) : Bool := s.toList.contains ':'

theorem Text.append_colon_inj {s t s' t' : String} (hs : hasColon s = false)
    (hs' : hasColon s' = false) : s ++ ":" ++ t = s' ++ ":" ++ t' ↔ s = s' ∧ t = t' := by
  rw [show ":" = String.singleton ':' from rfl]
  exact append_separator_inj (by simpa [hasColon] using hs) (by simpa [hasColon] using hs')

namespace GroupVersionResource

variable {g h : GroupVersionResource}

/-! ## 1. Kinds -/

/-- Whether no part of a kind has a slash in it. -/
def isPlain (g : GroupVersionResource) : Bool := g.parts.all fun s => !Text.hasSlash s

/-- The group, if there is one, the version and the resource. -/
def segments (g : GroupVersionResource) : List String :=
  if g.group = "" then [g.version, g.resource] else g.parts

theorem text_eq (g : GroupVersionResource) : g.text = "/".intercalate g.segments := by
  unfold text segments
  split <;> rfl

theorem segments_ne_nil (g : GroupVersionResource) : g.segments ≠ [] := by
  unfold segments
  split <;> simp [parts]

theorem segments_subset (g : GroupVersionResource) : g.segments ⊆ g.parts := by
  unfold segments
  split <;> simp [parts]

/-- The number of segments tells whether there is a group. -/
theorem segments_injective (hsame : g.segments = h.segments) : g = h := by
  refine parts_injective ?_
  unfold segments at hsame
  by_cases hg : g.group = "" <;> by_cases hh : h.group = "" <;>
    simp_all [parts]

/-- **Plain kinds can be told by their texts.** -/
theorem text_inj (hg : g.isPlain = true) (hh : h.isPlain = true) : g.text = h.text ↔ g = h := by
  have hfree : ∀ {g : GroupVersionResource}, g.isPlain = true →
      ∀ s ∈ g.segments, Text.hasSlash s = false := fun {g} hg s hs => by
    simpa using List.all_eq_true.mp hg s (g.segments_subset hs)
  refine ⟨fun hsame => segments_injective ?_, congrArg text⟩
  rwa [text_eq, text_eq, Text.intercalate_slash_inj g.segments_ne_nil h.segments_ne_nil (hfree hg)
    (hfree hh)] at hsame

/-- The text of a kind has a colon in it only where a part of the kind has one. -/
theorem hasColon_text (hg : g.parts.any Text.hasColon = false) : Text.hasColon g.text = false := by
  simp only [parts, List.any_cons, List.any_nil, Bool.or_false, Bool.or_eq_false_iff,
    Text.hasColon] at hg
  unfold text
  split <;> simp_all [Text.hasColon, String.toList_append]

end GroupVersionResource

namespace ResourceKey

variable {k l : ResourceKey}

/-! ## 2. Keys -/

/-- Whether a key has no separators where they would be taken for those of its text: none in its
kind, and no slash in namespace and name. -/
def isLegible (k : ResourceKey) : Bool :=
  k.gvr.isPlain && !k.gvr.parts.any Text.hasColon && k.isPlain

theorem text_eq (k : ResourceKey) : k.text = k.gvr.text ++ ":" ++ k.objectKey := by
  unfold text objectKey
  split
  · rfl
  · simp only [String.append_assoc]

/-- **The texts of keys and kinds are unambiguous.**  Two keys without separators in their kinds and
without slashes in their namespaces and names have one text only if they are one key, whichever of
them has a group or a namespace and whatever colons are in the names.  Two kinds without slashes have
one text only if they are one kind. -/
theorem texts_unambiguous :
    (∀ k l : ResourceKey, k.isLegible = true → l.isLegible = true → (k.text = l.text ↔ k = l)) ∧
      ∀ g h : GroupVersionResource, g.isPlain = true → h.isPlain = true →
        (g.text = h.text ↔ g = h) := by
  refine ⟨fun k l hk hl => ⟨fun hsame => ?_, congrArg text⟩,
    fun g h => GroupVersionResource.text_inj⟩
  simp only [isLegible, Bool.and_eq_true, Bool.not_eq_true'] at hk hl
  obtain ⟨⟨hkkind, hkcolon⟩, hkplain⟩ := hk
  obtain ⟨⟨hlkind, hlcolon⟩, hlplain⟩ := hl
  rw [text_eq, text_eq, Text.append_colon_inj (GroupVersionResource.hasColon_text hkcolon)
    (GroupVersionResource.hasColon_text hlcolon), GroupVersionResource.text_inj hkkind hlkind,
    objectKey_inj hkplain hlplain] at hsame
  obtain ⟨hgvr, hns, hname⟩ := hsame
  obtain ⟨kgvr, kns, kname⟩ := k
  cases hgvr
  cases hns
  cases hname
  rfl

/-- One key of each shape, with the same letters wherever that can be. -/
def sampleKeys : List ResourceKey :=
  [⟨⟨"", "v1", "roles"⟩, "", "system:node"⟩, ⟨⟨"", "v1", "roles"⟩, "system", "node"⟩,
    ⟨⟨"rbac", "v1", "roles"⟩, "", "system:node"⟩, ⟨⟨"rbac", "v1", "roles"⟩, "system:", "node"⟩]

/-- The four shapes have four texts, and a group is not taken for a version. -/
theorem texts_unambiguous_shapes :
    (∀ k ∈ sampleKeys, k.isLegible = true) ∧ (sampleKeys.map text).Nodup ∧
      GroupVersionResource.text ⟨"", "apps", "v1"⟩ ≠ GroupVersionResource.text ⟨"apps", "v1", ""⟩ := by
  have hlegible : ∀ k ∈ sampleKeys, k.isLegible = true := by decide
  refine ⟨hlegible, List.Nodup.map_on (fun k hk l hl hsame => ?_) (by decide), fun hsame => ?_⟩
  · exact (texts_unambiguous.1 k l (hlegible k hk) (hlegible l hl)).mp hsame
  · exact absurd ((texts_unambiguous.2 _ _ (by decide) (by decide)).mp hsame) (by decide)

/-- A colon in the kind would be taken for the one behind it. -/
example : (⟨⟨"", "v1", "roles:system"⟩, "", "node"⟩ : ResourceKey).text =
    (⟨⟨"", "v1", "roles"⟩, "", "system:node"⟩ : ResourceKey).text := by decide

end ResourceKey

end AppWatch
