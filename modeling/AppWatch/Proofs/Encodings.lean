/-
# The configuration and kinds read back from JSON

A kind and the configuration have an encoder and a decoder each, and the two are not mirror images:

* a descriptor's identifying parts stand among its own fields, and each of its two readers passes
  over what belongs to the other;
* an empty list of namespaces is left out when the configuration is written;
* an absent setting is read as its default, which is not the empty value of its type.

Each record is read as a fold over the names of its members in which every name takes one field
from the record that was written (`take`); which fields have been taken depends on the names only,
and not on their order.  From this the record comes back from every text that writes it, in whatever
order its members stand, and so it does from the compact text of the value (`records_read_back`).
-/
import AppWatch.Config
import AppWatch.Proofs.Decoding
import AppWatch.Proofs.JsonText
import Mathlib.Data.List.Nodup

namespace AppWatch

open Json (Written)

attribute [ext] GroupVersionResource GroupKind KindDescriptor Config

/-! ## 1. Kinds -/

namespace GroupVersionResource

variable {g : GroupVersionResource} {w : Written} {js : List (String × Json)}

/-- Takes the field of the given name from `g`. -/
def take (g s : GroupVersionResource) (name : String) : GroupVersionResource where
  group := if name = "group" then g.group else s.group
  version := if name = "version" then g.version else s.version
  resource := if name = "resource" then g.resource else s.resource

theorem foldl_take {names : List String} (hgroup : "group" ∈ names) (hversion : "version" ∈ names)
    (hresource : "resource" ∈ names) (s : GroupVersionResource) : names.foldl g.take s = g :=
  GroupVersionResource.ext (Written.foldl_take group (.inl hgroup) fun _ _ => rfl)
    (Written.foldl_take version (.inl hversion) fun _ _ => rfl)
    (Written.foldl_take resource (.inl hresource) fun _ _ => rfl)

/-- The parts are read from any object that has them, whatever else it has. -/
theorem ofWritten_of_writes (h : w.Writes (.obj js)) (hdistinct : (js.map (·.1)).Nodup)
    (hgroup : ("group", .str g.group) ∈ js) (hversion : ("version", .str g.version) ∈ js)
    (hresource : ("resource", .str g.resource) ∈ js) : ofWritten w = .ok g := by
  -- no name stands twice, so under the name of a part there is nothing but the part
  have hsame {n : String} {j j' : Json} (hj : (n, j) ∈ js) (hj' : (n, j') ∈ js) : j = j' :=
    congrArg Prod.snd (List.inj_on_of_nodup_map hdistinct hj hj' rfl)
  have hname {n : String} {j : Json} (hj : (n, j) ∈ js) : n ∈ js.map (·.1) :=
    List.mem_map_of_mem hj
  have hrequired : ∀ f ∈ layout.fields, f.2 = true → f.1 ∈ js.map (·.1) := by
    simp only [layout, List.forall_mem_cons, reduceCtorEq, forall_true_left, hname hversion,
      hname hresource]
    simp
  obtain ⟨names, hperm, hdecode⟩ := layout.decode_of_writes g.take {} h hdistinct
    hrequired fun s n j w hj hw => by
    change field s n w = _
    unfold field
    split
    · obtain rfl := hsame hj hgroup
      rw [hw.decodeText]
      rfl
    · obtain rfl := hsame hj hversion
      rw [hw.decodeText]
      rfl
    · obtain rfl := hsame hj hresource
      rw [hw.decodeText]
      rfl
    · next hgroup hversion hresource =>
      rw [hw.passing, take, if_neg hgroup, if_neg hversion, if_neg hresource]
  rw [ofWritten, hdecode, foldl_take (hperm.mem_iff.mpr (hname hgroup))
    (hperm.mem_iff.mpr (hname hversion)) (hperm.mem_iff.mpr (hname hresource))]

end GroupVersionResource

namespace GroupKind

variable {g : GroupKind} {w : Written}

/-- Takes the field of the given name from `g`. -/
def take (g s : GroupKind) (name : String) : GroupKind where
  group := if name = "group" then g.group else s.group
  kind := if name = "kind" then g.kind else s.kind

theorem foldl_take {names : List String} (hgroup : "group" ∈ names) (hkind : "kind" ∈ names)
    (s : GroupKind) : names.foldl g.take s = g :=
  GroupKind.ext (Written.foldl_take group (.inl hgroup) fun _ _ => rfl)
    (Written.foldl_take kind (.inl hkind) fun _ _ => rfl)

theorem ofWritten_of_writes (h : w.Writes g.toJson) : ofWritten w = .ok g := by
  obtain ⟨names, hperm, hdecode⟩ := layout.decode_of_writes g.take {} h (by simp)
    (by simp [layout]) fun s n j w hj hw => by
    change field s n w = _
    simp only [List.mem_cons, Prod.mk.injEq, List.not_mem_nil, or_false] at hj
    obtain ⟨rfl, rfl⟩ | ⟨rfl, rfl⟩ := hj
    all_goals
      simp only [field, hw.decodeText]
      rfl
  rw [ofWritten, hdecode, foldl_take (hperm.mem_iff.mpr (by simp)) (hperm.mem_iff.mpr (by simp))]

end GroupKind

namespace KindDescriptor

variable {k : KindDescriptor} {w : Written}

/-- Takes the descriptor's own field of the given name from `k`. -/
def take (k s : KindDescriptor) (name : String) : KindDescriptor where
  gvr := s.gvr
  kind := if name = "kind" then k.kind else s.kind
  namespaced := if name = "namespaced" then k.namespaced else s.namespaced

theorem field_of_writes (s : KindDescriptor) {n : String} {j : Json}
    (hj : (n, j) ∈ [("group", .str k.gvr.group), ("kind", .str k.kind),
      ("namespaced", .bool k.namespaced), ("resource", .str k.gvr.resource),
      ("version", .str k.gvr.version)]) (hw : w.Writes j) :
    field s n w = .ok (k.take s n) := by
  simp only [List.mem_cons, Prod.mk.injEq, List.not_mem_nil, or_false] at hj
  obtain ⟨rfl, rfl⟩ | ⟨rfl, rfl⟩ | ⟨rfl, rfl⟩ | ⟨rfl, rfl⟩ | ⟨rfl, rfl⟩ := hj
  · exact hw.passing s
  · simp only [field, hw.decodeText]
    rfl
  · simp only [field, hw.decodeBool]
    rfl
  · exact hw.passing s
  · exact hw.passing s

theorem ofWritten_of_writes (h : w.Writes k.toJson) : ofWritten w = .ok k := by
  obtain ⟨names, hperm, hown⟩ := Written.decodeMembers_of_writes k.take "struct KindDescriptor" {}
    h fun s n j w hj hw => field_of_writes s hj hw
  have hhas : w.hasMember "kind" = true := (Written.hasMember_iff h _).mpr (by simp)
  have hgvr : GroupVersionResource.ofWritten w = .ok k.gvr :=
    GroupVersionResource.ofWritten_of_writes h (by simp) (by simp) (by simp) (by simp)
  have hkind : (names.foldl k.take {}).kind = k.kind :=
    Written.foldl_take kind (.inl (hperm.mem_iff.mpr (by simp))) fun _ _ => rfl
  have hnamespaced : (names.foldl k.take {}).namespaced = k.namespaced :=
    Written.foldl_take namespaced (.inl (hperm.mem_iff.mpr (by simp))) fun _ _ => rfl
  simp only [ofWritten, hown, hhas, hgvr, hkind, hnamespaced, bind, Except.bind, pure, Except.pure]
  rfl

end KindDescriptor

/-! ## 2. The configuration -/

namespace Config

variable {c : Config} {w : Written}

/-- Takes the setting of the given name from `c`. -/
def take (c s : Config) (name : String) : Config where
  applicationKind := if name = "applicationKind" then c.applicationKind else s.applicationKind
  namespaces := if name = "namespaces" then c.namespaces else s.namespaces
  batchDurationMs := if name = "batchDurationMs" then c.batchDurationMs else s.batchDurationMs
  queueCapacity := if name = "queueCapacity" then c.queueCapacity else s.queueCapacity
  namespacesKey :=
    if name = "componentNamespacesAnnotation" then c.namespacesKey else s.namespacesKey

/-- The members for all settings, one for the namespaces among them even if there are none. -/
def members (c : Config) : List (String × Json) :=
  [("applicationKind", c.applicationKind.toJson),
    ("batchDurationMs", Json.ofNat c.batchDurationMs.toNat),
    ("componentNamespacesAnnotation", .str c.namespacesKey),
    ("namespaces", Json.texts c.namespaces),
    ("queueCapacity", Json.ofNat c.queueCapacity.toNat)]

/-- Nothing but the namespaces is left out, and these only if there are none. -/
theorem exists_toJson (c : Config) : ∃ js, c.toJson = .obj js ∧ js.Sublist c.members ∧
    ∀ n ∈ c.members.map (·.1), n ∈ js.map (·.1) ∨ n = "namespaces" ∧ c.namespaces = [] := by
  unfold toJson
  split
  · next hnone => exact ⟨_, rfl, by simp [members], by simpa [members] using hnone⟩
  · exact ⟨_, rfl, .refl _, fun n hn => .inl hn⟩

theorem field_of_writes (s : Config) {n : String} {j : Json} (hj : (n, j) ∈ c.members)
    (hw : w.Writes j) : field s n w = .ok (c.take s n) := by
  simp only [members, List.mem_cons, Prod.mk.injEq, List.not_mem_nil, or_false] at hj
  obtain ⟨rfl, rfl⟩ | ⟨rfl, rfl⟩ | ⟨rfl, rfl⟩ | ⟨rfl, rfl⟩ | ⟨rfl, rfl⟩ := hj
  · simp only [field, KindDescriptor.ofWritten_of_writes hw]
    rfl
  · simp only [field, hw.decodeWord]
    rfl
  · simp only [field, hw.decodeText]
    rfl
  · simp only [field, hw.decodeTexts]
    rfl
  · simp only [field, hw.decodeWord]
    rfl

/-- All settings are taken but the list of namespaces, which may be left out where it is empty. -/
theorem foldl_take {names : List String} (hkind : "applicationKind" ∈ names)
    (hnamespaces : "namespaces" ∈ names ∨ c.namespaces = [])
    (hduration : "batchDurationMs" ∈ names) (hcapacity : "queueCapacity" ∈ names)
    (hkey : "componentNamespacesAnnotation" ∈ names) : names.foldl c.take {} = c := by
  exact Config.ext (Written.foldl_take applicationKind (.inl hkind) fun _ _ => rfl)
    (Written.foldl_take namespaces (hnamespaces.imp_right Eq.symm) fun _ _ => rfl)
    (Written.foldl_take batchDurationMs (.inl hduration) fun _ _ => rfl)
    (Written.foldl_take queueCapacity (.inl hcapacity) fun _ _ => rfl)
    (Written.foldl_take namespacesKey (.inl hkey) fun _ _ => rfl)

theorem decode_of_writes (h : w.Writes c.toJson) : layout.decode {} w = .ok c := by
  obtain ⟨js, hjs, hsub, hall⟩ := c.exists_toJson
  rw [hjs] at h
  have hdistinct : (js.map (·.1)).Nodup := (hsub.map _).nodup (by simp [members])
  obtain ⟨names, hperm, hdecode⟩ := layout.decode_of_writes c.take {} h hdistinct
    (by simp [layout]) fun s n j w hj hw => field_of_writes s (hsub.subset hj) hw
  have hname {n : String} (hn : n ∈ c.members.map (·.1)) :
      n ∈ names ∨ n = "namespaces" ∧ c.namespaces = [] :=
    (hall n hn).imp_left hperm.mem_iff.mpr
  rw [hdecode, foldl_take ((hname (by simp [members])).resolve_right (by simp))
    ((hname (by simp [members])).imp_right And.right)
    ((hname (by simp [members])).resolve_right (by simp))
    ((hname (by simp [members])).resolve_right (by simp))
    ((hname (by simp [members])).resolve_right (by simp))]

end Config

/-! ## 3. In any order and as text -/

namespace Json

mutual

/-- The order of members does not matter to whether a value can be written and read again. -/
theorem isPlain_of_writes : (j k : Json) → (d : Nat) → j.written.Writes k → IsPlain d k →
    IsPlain d j
  | .null, _, _, _, _ => trivial
  | .bool _, _, _, _, _ => trivial
  | .str _, _, _, _, _ => trivial
  | .num n, k, d, h, hk => by
    cases h
    exact hk
  | .arr items, k, d, h, hk => by
    cases h with
    | arr h => exact ⟨hk.1, arePlainItems_of_writes items _ _ h hk.2⟩
  | .obj members, k, d, h, hk => by
    cases h with
    | obj hperm h =>
      refine ⟨hk.1, arePlainMembers_of_writes members _ fun m hm => ?_⟩
      obtain ⟨n, j, -, hj, hw⟩ := h.exists_of_mem (hperm.mem_iff.mp hm)
      exact ⟨j, hw, arePlainMembers_iff.mp hk.2 _ hj⟩

theorem arePlainItems_of_writes : (js ks : List Json) → (d : Nat) →
    Written.WritesItems (writtenItems js) ks → ArePlainItems d ks → ArePlainItems d js
  | [], _, _, _, _ => trivial
  | j :: js, ks, d, h, hk => by
    cases h with
    | cons hw h => exact ⟨isPlain_of_writes j _ d hw hk.1, arePlainItems_of_writes js _ d h hk.2⟩

theorem arePlainMembers_of_writes : (js : List (String × Json)) → (d : Nat) →
    (∀ m ∈ writtenMembers js, ∃ k, m.2.Writes k ∧ IsPlain d k) → ArePlainMembers d js
  | [], _, _ => trivial
  | (name, j) :: js, d, h => by
    obtain ⟨⟨k, hw, hk⟩, h⟩ := List.forall_mem_cons.mp h
    exact ⟨isPlain_of_writes j k d hw hk, arePlainMembers_of_writes js d h⟩

end

end Json

/-- A type whose values are read back from what they are written as, in whatever order the members
of objects stand, and from the text that this makes. -/
structure IsFaithful {α : Type} (toJson : α → Json) (ofWritten : Written → Decoded α) : Prop where
  ofWritten_of_writes : ∀ x w, w.Writes (toJson x) → ofWritten w = .ok x
  ofText : ∀ x (j : Json), j.written.Writes (toJson x) →
    ∃ w, Json.Document.ofText j.text = ⟨w, false⟩ ∧ ofWritten w = .ok x

namespace IsFaithful

variable {α : Type} {toJson : α → Json} {ofWritten : Written → Decoded α}

theorem ofValue (h : IsFaithful toJson ofWritten) (x : α) : ofWritten (toJson x).written = .ok x :=
  h.ofWritten_of_writes x _ (Written.writes_written _)

theorem of_isPlain
    (hread : ∀ x w, w.Writes (toJson x) → ofWritten w = .ok x)
    (hplain : ∀ x, Json.IsPlain Json.maxDepth (toJson x)) : IsFaithful toJson ofWritten where
  ofWritten_of_writes := hread
  ofText x j h := ⟨j.written, Json.Document.ofText_text (Json.isPlain_of_writes j _ _ h (hplain x)),
    hread x _ h⟩

end IsFaithful

theorem GroupVersionResource.isFaithful : IsFaithful toJson ofWritten :=
  .of_isPlain (fun _ _ h => ofWritten_of_writes h (by simp) (by simp) (by simp) (by simp))
    fun g => by simp [toJson, Json.IsPlain, Json.ArePlainMembers, Json.maxDepth]

theorem GroupKind.isFaithful : IsFaithful toJson ofWritten :=
  .of_isPlain (fun _ _ h => ofWritten_of_writes h)
    fun g => by simp [toJson, Json.IsPlain, Json.ArePlainMembers, Json.maxDepth]

theorem KindDescriptor.isPlain_toJson {d : Nat} (hd : 0 < d) (k : KindDescriptor) :
    Json.IsPlain d k.toJson := by
  simp [toJson, Json.IsPlain, Json.ArePlainMembers, hd]

theorem KindDescriptor.isFaithful : IsFaithful toJson ofWritten :=
  .of_isPlain (fun _ _ h => ofWritten_of_writes h) (isPlain_toJson (by decide))

theorem Json.isPlain_texts {d : Nat} (hd : 0 < d) (l : List String) : IsPlain d (Json.texts l) :=
  ⟨hd, arePlainItems_iff.mpr (by simp [IsPlain])⟩

theorem Json.isPlain_ofNat {d : Nat} (n : UInt64) : IsPlain d (Json.ofNat n.toNat) := by
  have : n.toNat < UInt64.size := n.toNat_lt_size
  simp only [Json.ofNat, Json.ofInt, IsPlain, Numeral.limit]
  omega

theorem Config.isPlain_toJson (c : Config) : Json.IsPlain Json.maxDepth c.toJson := by
  obtain ⟨js, hjs, hsub, -⟩ := c.exists_toJson
  have hmembers : ∀ m ∈ c.members, Json.IsPlain (Json.maxDepth - 1) m.2 := by
    simp only [members, List.forall_mem_cons, List.not_mem_nil, false_imp_iff, forall_const]
    exact ⟨KindDescriptor.isPlain_toJson (by decide) _, Json.isPlain_ofNat _, trivial,
      Json.isPlain_texts (by decide) _, Json.isPlain_ofNat _, trivial⟩
  rw [hjs]
  exact ⟨by decide, Json.arePlainMembers_iff.mpr fun m hm => hmembers m (hsub.subset hm)⟩

theorem Config.isFaithful : IsFaithful toJson (layout.decode {}) :=
  .of_isPlain (fun _ _ h => decode_of_writes h) isPlain_toJson

/-- The configuration and kinds read back from JSON: from the value, from any text that writes it
and from the compact text. -/
theorem records_read_back :
    ((∀ c : Config, Config.ofJson c.toJson = .ok c) ∧
      IsFaithful Config.toJson (Config.layout.decode {})) ∧
    ((∀ k : KindDescriptor, KindDescriptor.ofJson k.toJson = .ok k) ∧
      IsFaithful KindDescriptor.toJson KindDescriptor.ofWritten) ∧
    ((∀ g : GroupVersionResource, GroupVersionResource.ofJson g.toJson = .ok g) ∧
      IsFaithful GroupVersionResource.toJson GroupVersionResource.ofWritten) ∧
    (∀ g : GroupKind, GroupKind.ofJson g.toJson = .ok g) ∧
      IsFaithful GroupKind.toJson GroupKind.ofWritten :=
  ⟨⟨Config.isFaithful.ofValue, Config.isFaithful⟩,
    ⟨KindDescriptor.isFaithful.ofValue, KindDescriptor.isFaithful⟩,
    ⟨GroupVersionResource.isFaithful.ofValue, GroupVersionResource.isFaithful⟩,
    GroupKind.isFaithful.ofValue, GroupKind.isFaithful⟩

end AppWatch
