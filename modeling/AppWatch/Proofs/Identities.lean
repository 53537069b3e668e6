/-
# Two ways to say which object it is

The identity of an object is worked out twice.  A cache puts namespace and name into one text and
leaves the namespace out where there is none; a snapshot has the two apart, with an empty namespace
where there is none.  Among objects of a kind whose names have no slashes the two say the same
(`ResourceInfo.key?_eq_iff`).

In one direction slashes do no harm: objects with one identity have one key.  So a cache whose
objects stand under their own keys has no identity twice (`WatchCache.Keyed.exists_snapshots`), and
every cache that the engine comes to is such a cache.
-/
import AppWatch.Proofs.ObjectKeys
import AppWatch.Proofs.StreamReports

namespace AppWatch

/-! ## 1. Two objects of a kind -/

namespace ResourceInfo

variable {kind : KindDescriptor} {o o' : ClusterObject} {x x' : ResourceInfo}

/-- An object with a name has a snapshot for any kind. -/
theorem exists_of_named (h : o.metadata.name.isSome = true) (kind : KindDescriptor) :
    ∃ x, ofObject kind o = .ok x := by
  obtain ⟨name, hname⟩ := Option.isSome_iff_exists.mp h
  exact ⟨_, by rw [ofObject, hname]⟩

/-- Snapshots for one kind have one key if the objects agree in name and namespace; to have no
namespace and to have the empty one is the same. -/
theorem key_eq_iff (hx : ofObject kind o = .ok x) (hx' : ofObject kind o' = .ok x') :
    x.key = x'.key ↔ o.metadata.«namespace».getD "" = o'.metadata.«namespace».getD "" ∧
      o.metadata.name = o'.metadata.name := by
  obtain ⟨name, hname, hkey⟩ := Option.map_eq_some_iff.mp (Shows.identity? ⟨kind, rfl, hx⟩)
  obtain ⟨name', hname', hkey'⟩ := Option.map_eq_some_iff.mp (Shows.identity? ⟨kind, rfl, hx'⟩)
  rw [← hkey, ← hkey', hname, hname']
  simp

/-- **Plain objects of a kind have one key exactly if their snapshots have.** -/
theorem key?_eq_iff (ho : o.isPlain = true) (ho' : o'.isPlain = true)
    (hx : ofObject kind o = .ok x) (hx' : ofObject kind o' = .ok x') :
    o.key? = o'.key? ↔ x.key = x'.key := by
  have hplain : x.key.isPlain = true :=
    ClusterObject.isPlain_of_identity? ho (Shows.identity? ⟨kind, rfl, hx⟩)
  have hplain' : x'.key.isPlain = true :=
    ClusterObject.isPlain_of_identity? ho' (Shows.identity? ⟨kind, rfl, hx'⟩)
  rw [key?_of_ofObject hx, key?_of_ofObject hx', Option.some.injEq,
    ResourceKey.objectKey_inj hplain hplain']
  simp [key, gvr_ofObject hx, gvr_ofObject hx']

/-- With a slash in its name an object may have the key of another. -/
example : ({ metadata := { name := some "shop/web" } } : ClusterObject).key? =
    ({ metadata := { name := some "web", «namespace» := some "shop" } } : ClusterObject).key? := by
  decide

end ResourceInfo

/-! ## 2. The objects of a cache -/

namespace WatchCache

variable {c : WatchCache}

/-- Objects that are listed with their own keys have snapshots whose identities have these keys. -/
theorem exists_snapshots_of_keys (kind : KindDescriptor) {l : List (String × ClusterObject)}
    (hl : ∀ e ∈ l, e.2.key? = some e.1) :
    ∃ xs, (l.map (·.2)).mapM (ResourceInfo.ofObject kind) = .ok xs ∧
      xs.map (fun x => x.key.objectKey) = l.map (·.1) := by
  induction l with
  | nil => exact ⟨[], rfl, rfl⟩
  | cons e l ih =>
    obtain ⟨he, hrest⟩ := List.forall_mem_cons.mp hl
    obtain ⟨x, hx⟩ := ClusterObject.exists_snapshot he kind
    obtain ⟨xs, hxs, hkeys⟩ := ih hrest
    have hkey : x.key.objectKey = e.1 :=
      Option.some.inj ((ResourceInfo.key?_of_ofObject hx).symm.trans he)
    refine ⟨x :: xs, ?_, ?_⟩
    · rw [List.map_cons, List.mapM_cons, hx, hxs]
      rfl
    · rw [List.map_cons, List.map_cons, hkey, hkeys]

/-- **A cache has no identity twice** whose objects stand under their own keys. -/
theorem Keyed.exists_snapshots (hc : c.Keyed) (kind : KindDescriptor) :
    ∃ xs, c.objects.values.mapM (ResourceInfo.ofObject kind) = .ok xs ∧
      xs.map (fun x => x.key.objectKey) = c.objects.keys ∧ (xs.map ResourceInfo.key).Nodup := by
  obtain ⟨xs, hxs, hkeys⟩ := exists_snapshots_of_keys kind fun e he =>
    hc e.1 e.2 (SortedMap.get?_eq_some_iff.mpr he)
  refine ⟨xs, hxs, hkeys, List.Nodup.of_map ResourceKey.objectKey ?_⟩
  rw [List.map_map]
  exact hkeys ▸ c.objects.nodup_keys

end WatchCache

/-! ## 3. Every cache of the engine -/

namespace System

/-- **Keys of caches and identities agree.**  Any two objects with plain names have snapshots for
any kind, and their keys are the same exactly if those of the snapshots are, that is, if they have
one name and one namespace or none.

So it is in every state that the engine can come to.  The objects of a watched kind have snapshots
whose identities have the keys of the cache, in the order of the cache, and no identity is there
twice; and no two of the applications that are parsed from the cache have one identity. -/
theorem keys_identify :
    (∀ (kind : KindDescriptor) (o o' : ClusterObject), o.isPlain = true → o'.isPlain = true →
      o.metadata.name.isSome = true → o'.metadata.name.isSome = true →
        ∃ x x', ResourceInfo.ofObject kind o = .ok x ∧ ResourceInfo.ofObject kind o' = .ok x' ∧
          (o.key? = o'.key? ↔ x.key = x'.key) ∧
          (x.key = x'.key ↔ o.metadata.«namespace».getD "" = o'.metadata.«namespace».getD "" ∧
            o.metadata.name = o'.metadata.name)) ∧
      ∀ (applicationKind : KindDescriptor) (namespacesKey : String) (namespaces : List String)
        (capacity window now : Nat) (actions : List Action) (s : System) (notes : List Note),
        (fresh applicationKind namespacesKey namespaces capacity window now).run actions =
          some (s, notes) →
        (∀ gvr w, s.registry.watcher? gvr = some w →
          ∃ xs, w.objects.mapM (ResourceInfo.ofObject w.kind) = .ok xs ∧
            xs.map (fun x => x.key.objectKey) = w.cache.objects.keys ∧
            (xs.map ResourceInfo.key).Nodup) ∧
        (s.registry.snapshot.1.map Application.key).Nodup := by
  refine ⟨fun kind o o' ho ho' hnamed hnamed' => ?_, ?_⟩
  · obtain ⟨x, hx⟩ := ResourceInfo.exists_of_named hnamed kind
    obtain ⟨x', hx'⟩ := ResourceInfo.exists_of_named hnamed' kind
    exact ⟨x, x', hx, hx', ResourceInfo.key?_eq_iff ho ho' hx hx', ResourceInfo.key_eq_iff hx hx'⟩
  · intro applicationKind namespacesKey namespaces capacity window now actions s notes hrun
    obtain ⟨-, hc⟩ := consistent_run (roomed_fresh ..) (consistent_fresh ..) hrun
    refine ⟨fun gvr w hw => (hc.sound.keyed hw).exists_snapshots w.kind, ?_⟩
    exact (Registry.snapshot_proper fun w hw => hc.sound.keyed hw).distinct

/-- The application of the sample run in another namespace, or in none. -/
def sampleShopIn (ns : Option String) : ClusterObject :=
  { sampleShop with metadata := { name := some "shop", «namespace» := ns } }

/-- Three applications of one name come one after the other, the last two without a namespace. -/
def sampleSpellings : List Action :=
  let applications := sampleApplications.gvr
  let comes (o : ClusterObject) : List Action :=
    [.feed applications "" [.event (.apply o)], .read applications "", .take applications,
      .discovered (.worker applications) (.ok none)]
  [.call 0 (.addToWatch sampleApplications), .checked (.caller 0) (.ok ())] ++
    comes sampleShop ++ comes (sampleShopIn none) ++ comes (sampleShopIn (some ""))

/-- To have no namespace and to have the empty one is one identity: of the three applications two are
cached. -/
theorem keys_identify_spellings :
    (∃ x x', ResourceInfo.ofObject sampleApplications (sampleShopIn none) = .ok x ∧
      ResourceInfo.ofObject sampleApplications (sampleShopIn (some "")) = .ok x' ∧
        x.key = x'.key) ∧
      ∃ s notes w xs, sampleStart.run sampleSpellings = some (s, notes) ∧
        s.registry.watcher? sampleApplications.gvr = some w ∧ w.objects.length = 2 ∧
        w.objects.mapM (ResourceInfo.ofObject w.kind) = .ok xs ∧
        (xs.map ResourceInfo.key).Nodup ∧ (s.registry.snapshot.1.map Application.key).Nodup := by
  constructor
  · obtain ⟨x, x', hx, hx', hkey, -⟩ := keys_identify.1 sampleApplications (sampleShopIn none)
      (sampleShopIn (some "")) (by decide) (by decide) rfl rfl
    exact ⟨x, x', hx, hx', hkey.mp (by decide)⟩
  · have hend : (sampleStart.run sampleSpellings).any (fun r =>
        (r.1.registry.watcher? sampleApplications.gvr).any fun w => w.objects.length = 2) =
          true := by decide
    obtain ⟨⟨s, notes⟩, hrun, hend⟩ := (Option.any_eq_true _ _).mp hend
    obtain ⟨w, hw, hlength⟩ := (Option.any_eq_true _ _).mp hend
    obtain ⟨hcaches, hsnapshot⟩ := keys_identify.2 sampleApplications "namespaces" [] 64 0 0
      sampleSpellings s notes hrun
    obtain ⟨xs, hxs, -, hdistinct⟩ := hcaches _ w hw
    exact ⟨s, notes, w, xs, hrun, hw, by simpa using hlength, hxs, hdistinct, hsnapshot⟩

end System

end AppWatch
