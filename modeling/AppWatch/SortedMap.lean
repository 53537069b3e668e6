/-
# Maps listed in key order

A `SortedMap` keeps its entries in strictly ascending key order, so a map has one
representation only: two maps with equal look-ups are equal (`SortedMap.ext_get?`).  That makes
the laws of everything built on it (batches, caches, permission tables) plain equations.

Main statements: `get?_insert`, `get?_erase`, `get?_merge`, one for each operation, all read
through the look-up `get?`; and the laws of merging that come of them (`merge_assoc`,
`merge_comm_iff`).
-/

namespace AppWatch

open Std

set_option linter.unusedSectionVars false

variable {κ α β : Type} [Ord κ]

/-! ## 1. Ascending entry lists -/

/-- No key occurs twice and every key is above the ones before it. -/
def Ascending (l : List (κ × α)) : Prop :=
  l.Pairwise fun a b => compare a.1 b.1 = .lt

instance (l : List (κ × α)) : Decidable (Ascending l) := by
  unfold Ascending; infer_instance

namespace Entries

/-- The value stored under `k`. -/
def lookup (k : κ) : List (κ × α) → Option α
  | [] => none
  | (k', v) :: rest => if compare k k' = .eq then some v else lookup k rest

/-- Puts `v` under `k` at its place, instead of an earlier value of that key. -/
def insert (k : κ) (v : α) : List (κ × α) → List (κ × α)
  | [] => [(k, v)]
  | (k', v') :: rest =>
    match compare k k' with
    | .lt => (k, v) :: (k', v') :: rest
    | .eq => (k, v) :: rest
    | .gt => (k', v') :: insert k v rest

variable [TransOrd κ] [LawfulEqOrd κ]

theorem lookup_insert_self (k : κ) (v : α) (l : List (κ × α)) :
    lookup k (insert k v l) = some v := by
  fun_induction insert k v l with
  | case1 => simp [lookup]
  | case2 => simp [lookup]
  | case3 => simp [lookup]
  | case4 k' v' rest h ih => simp [lookup, h, ih]

theorem lookup_insert_of_ne {k k' : κ} (h : k' ≠ k) (v : α) (l : List (κ × α)) :
    lookup k' (insert k v l) = lookup k' l := by
  have hne : compare k' k ≠ .eq := fun e => h (LawfulEqCmp.eq_of_compare e)
  fun_induction insert k v l with
  | case1 => simp [lookup, hne]
  | case2 => simp [lookup, hne]
  | case3 k'' v'' rest heq =>
    rw [← LawfulEqCmp.eq_of_compare heq]
    simp [lookup, hne]
  | case4 k'' v'' rest _ ih => simp [lookup, ih]

theorem mem_insert {k : κ} {v : α} {l : List (κ × α)} {e : κ × α} (h : e ∈ insert k v l) :
    e = (k, v) ∨ e ∈ l := by
  fun_induction insert k v l with
  | case1 => simpa using h
  | case2 => simpa using h
  | case3 =>
    rcases List.mem_cons.1 h with h | h
    · exact .inl h
    · exact .inr (List.mem_cons_of_mem _ h)
  | case4 k' v' rest _ ih =>
    rcases List.mem_cons.1 h with h | h
    · exact .inr (h ▸ List.mem_cons_self)
    · exact (ih h).imp_right (List.mem_cons_of_mem _)

theorem ascending_insert (k : κ) (v : α) {l : List (κ × α)} (h : Ascending l) :
    Ascending (insert k v l) := by
  fun_induction insert k v l with
  | case1 => exact List.pairwise_singleton _ _
  | case2 k' v' rest hlt =>
    refine List.pairwise_cons.2 ⟨fun e he => ?_, h⟩
    rcases List.mem_cons.1 he with rfl | he
    · exact hlt
    · exact TransCmp.lt_trans hlt ((List.pairwise_cons.1 h).1 e he)
  | case3 k' v' rest heq =>
    have := LawfulEqCmp.eq_of_compare heq
    subst this
    exact List.pairwise_cons.2 ⟨(List.pairwise_cons.1 h).1, (List.pairwise_cons.1 h).2⟩
  | case4 k' v' rest hgt ih =>
    refine List.pairwise_cons.2 ⟨fun e he => ?_, ih (List.pairwise_cons.1 h).2⟩
    rcases mem_insert he with rfl | he
    · exact OrientedCmp.lt_of_gt hgt
    · exact (List.pairwise_cons.1 h).1 e he

theorem lookup_eq_some_iff {k : κ} {v : α} {l : List (κ × α)} (h : Ascending l) :
    lookup k l = some v ↔ (k, v) ∈ l := by
  induction l with
  | nil => simp [lookup]
  | cons e rest ih =>
    obtain ⟨k', v'⟩ := e
    have hr := (List.pairwise_cons.1 h)
    unfold lookup
    split
    · next heq =>
      have := LawfulEqCmp.eq_of_compare heq
      subst this
      constructor
      · rintro ⟨⟩
        exact List.mem_cons_self
      · intro hm
        rcases List.mem_cons.1 hm with hm | hm
        · rw [(Prod.mk.inj hm).2]
        · have := hr.1 _ hm
          simp at this
    · next hne =>
      rw [ih hr.2, List.mem_cons]
      constructor
      · exact .inr
      · rintro (hm | hm)
        · have := (Prod.mk.inj hm).1
          subst this
          simp at hne
        · exact hm

/-- Ascending lists with the same members are equal. -/
theorem eq_of_mem_iff {l m : List (κ × α)} (hl : Ascending l) (hm : Ascending m)
    (h : ∀ e, e ∈ l ↔ e ∈ m) : l = m := by
  induction l generalizing m with
  | nil =>
    cases m with
    | nil => rfl
    | cons e _ => exact absurd ((h e).2 List.mem_cons_self) (by simp)
  | cons a l ih =>
    cases m with
    | nil => exact absurd ((h a).1 List.mem_cons_self) (by simp)
    | cons b m =>
      have hl' := List.pairwise_cons.1 hl
      have hm' := List.pairwise_cons.1 hm
      have hab : a = b := by
        rcases List.mem_cons.1 ((h a).1 List.mem_cons_self) with hab | hab
        · exact hab
        · rcases List.mem_cons.1 ((h b).2 List.mem_cons_self) with hba | hba
          · exact hba.symm
          · have := TransCmp.lt_trans (hl'.1 _ hba) (hm'.1 _ hab)
            simp at this
      subst hab
      refine congrArg (a :: ·) (ih hl'.2 hm'.2 fun e => ?_)
      constructor
      · intro he
        rcases List.mem_cons.1 ((h e).1 (List.mem_cons_of_mem _ he)) with rfl | he'
        · have := hl'.1 _ he
          simp at this
        · exact he'
      · intro he
        rcases List.mem_cons.1 ((h e).2 (List.mem_cons_of_mem _ he)) with rfl | he'
        · have := hm'.1 _ he
          simp at this
        · exact he'

end Entries

/-! ## 2. The map -/

/-- A finite map whose entries stand in ascending key order. -/
structure SortedMap (κ α : Type) [Ord κ] where
  /-- The entries, keys ascending. -/
  entries : List (κ × α) := []
  /-- No key occurs twice and the keys ascend. -/
  ascending : Ascending entries := by exact List.Pairwise.nil

/-- A set of keys, listed in ascending order. -/
abbrev SortedSet (κ : Type) [Ord κ] := SortedMap κ Unit

namespace SortedMap

instance [DecidableEq κ] [DecidableEq α] : DecidableEq (SortedMap κ α)
  | ⟨l, _⟩, ⟨m, _⟩ => decidable_of_iff (l = m) (by simp)

/-- The map without entries. -/
def empty : SortedMap κ α := {}

instance : Inhabited (SortedMap κ α) := ⟨empty⟩

/-- The value stored under `k`. -/
def get? (m : SortedMap κ α) (k : κ) : Option α := Entries.lookup k m.entries

/-- Whether `k` has a value. -/
def contains (m : SortedMap κ α) (k : κ) : Bool := (m.get? k).isSome

/-- The keys in ascending order. -/
def keys (m : SortedMap κ α) : List κ := m.entries.map (·.1)

/-- The values in ascending order of their keys. -/
def values (m : SortedMap κ α) : List α := m.entries.map (·.2)

/-- How many entries there are. -/
def size (m : SortedMap κ α) : Nat := m.entries.length

/-- Whether there is no entry. -/
def isEmpty (m : SortedMap κ α) : Bool := m.entries.isEmpty

/-- Keeps the entries that pass the test. -/
def filter (m : SortedMap κ α) (p : κ → α → Bool) : SortedMap κ α where
  entries := m.entries.filter fun e => p e.1 e.2
  ascending := List.Pairwise.filter _ m.ascending

/-- Applies `f` to every value. -/
def mapValues (m : SortedMap κ α) (f : α → β) : SortedMap κ β where
  entries := m.entries.map fun e => (e.1, f e.2)
  ascending := by
    unfold Ascending
    rw [List.pairwise_map]
    exact m.ascending

variable [TransOrd κ] [LawfulEqOrd κ]

/-- Puts `v` under `k`, replacing an earlier value. -/
def insert (m : SortedMap κ α) (k : κ) (v : α) : SortedMap κ α where
  entries := Entries.insert k v m.entries
  ascending := Entries.ascending_insert k v m.ascending

/-- Removes `k` with its value. -/
def erase (m : SortedMap κ α) (k : κ) : SortedMap κ α :=
  m.filter fun k' _ => compare k k' != .eq

/-- Changes the value under `k`, if there is one. -/
def modify (m : SortedMap κ α) (k : κ) (f : α → α) : SortedMap κ α :=
  match m.get? k with
  | none => m
  | some v => m.insert k (f v)

/-- Inserts the pairs one after the other; of equal keys the last stays. -/
def insertMany (m : SortedMap κ α) (l : List (κ × α)) : SortedMap κ α :=
  l.foldl (fun m e => m.insert e.1 e.2) m

/-- The map of a list of pairs; of equal keys the last stays. -/
def ofList (l : List (κ × α)) : SortedMap κ α := empty.insertMany l

/-- All entries of both maps; on a key of both, the second map's value. -/
def merge (m n : SortedMap κ α) : SortedMap κ α := m.insertMany n.entries

/-! ## 3. Every operation through the look-up -/

@[simp] theorem get?_empty (k : κ) : (empty : SortedMap κ α).get? k = none := rfl

theorem get?_insert_self (m : SortedMap κ α) (k : κ) (v : α) :
    (m.insert k v).get? k = some v :=
  Entries.lookup_insert_self k v m.entries

theorem get?_insert_of_ne (m : SortedMap κ α) {k k' : κ} (h : k' ≠ k) (v : α) :
    (m.insert k v).get? k' = m.get? k' :=
  Entries.lookup_insert_of_ne h v m.entries

theorem get?_insert [DecidableEq κ] (m : SortedMap κ α) (k k' : κ) (v : α) :
    (m.insert k v).get? k' = if k' = k then some v else m.get? k' := by
  split
  · next h => exact h ▸ get?_insert_self m k v
  · next h => exact get?_insert_of_ne m h v

theorem get?_eq_some_iff {m : SortedMap κ α} {k : κ} {v : α} :
    m.get? k = some v ↔ (k, v) ∈ m.entries :=
  Entries.lookup_eq_some_iff m.ascending

theorem mem_keys_iff {m : SortedMap κ α} {k : κ} : k ∈ m.keys ↔ ∃ v, m.get? k = some v := by
  simp [keys, get?_eq_some_iff]

theorem contains_iff_mem_keys {m : SortedMap κ α} {k : κ} : m.contains k = true ↔ k ∈ m.keys := by
  rw [mem_keys_iff, contains, Option.isSome_iff_exists]

theorem nodup_keys (m : SortedMap κ α) : m.keys.Nodup := by
  have hne : ∀ e e' : κ × α, compare e.1 e'.1 = .lt → e.1 ≠ e'.1 := fun e e' h heq => by
    simp [heq] at h
  exact List.Pairwise.map _ hne m.ascending

/-- Maps with the same look-ups are equal. -/
theorem ext_get? {m n : SortedMap κ α} (h : ∀ k, m.get? k = n.get? k) : m = n := by
  have : m.entries = n.entries :=
    Entries.eq_of_mem_iff m.ascending n.ascending fun ⟨k, v⟩ => by
      rw [← get?_eq_some_iff, ← get?_eq_some_iff, h k]
  cases m; cases n; simp_all

theorem get?_filter_eq_some {m : SortedMap κ α} {p : κ → α → Bool} {k : κ} {v : α} :
    (m.filter p).get? k = some v ↔ m.get? k = some v ∧ p k v = true := by
  rw [get?_eq_some_iff, get?_eq_some_iff]
  simp [filter]

theorem get?_erase_self (m : SortedMap κ α) (k : κ) : (m.erase k).get? k = none := by
  rw [Option.eq_none_iff_forall_ne_some]
  intro v hv
  have := (get?_filter_eq_some.1 hv).2
  simp at this

theorem get?_erase_of_ne (m : SortedMap κ α) {k k' : κ} (h : k' ≠ k) :
    (m.erase k).get? k' = m.get? k' := by
  have hne : (compare k k' != .eq) = true := by
    simpa using fun e : compare k k' = .eq => h (LawfulEqCmp.eq_of_compare e).symm
  refine Option.ext fun v => ?_
  rw [erase, get?_filter_eq_some]
  simp [hne]

theorem get?_erase [DecidableEq κ] (m : SortedMap κ α) (k k' : κ) :
    (m.erase k).get? k' = if k' = k then none else m.get? k' := by
  split
  · next h => exact h ▸ get?_erase_self m k
  · next h => exact get?_erase_of_ne m h

theorem get?_modify [DecidableEq κ] (m : SortedMap κ α) (k k' : κ) (f : α → α) :
    (m.modify k f).get? k' = if k' = k then (m.get? k).map f else m.get? k' := by
  unfold modify
  split
  · next hk =>
    split
    · next h => rw [h, hk, Option.map_none]
    · rfl
  · next v hk => rw [get?_insert, hk, Option.map_some]

/-- The last pair of the list with key `k` decides, then the map. -/
theorem get?_insertMany [DecidableEq κ] (m : SortedMap κ α) (l : List (κ × α)) (k : κ) :
    (m.insertMany l).get? k =
      ((l.reverse.find? fun e => e.1 = k).map (·.2)).or (m.get? k) := by
  induction l generalizing m with
  | nil => simp [insertMany]
  | cons e l ih =>
    have : m.insertMany (e :: l) = (m.insert e.1 e.2).insertMany l := rfl
    rw [this, ih, List.reverse_cons, List.find?_append, get?_insert]
    cases hf : l.reverse.find? (fun e => decide (e.1 = k)) with
    | some _ => simp
    | none =>
      by_cases h : k = e.1
      · simp [h]
      · have h' : ¬e.1 = k := fun e => h e.symm
        simp [h, h']

theorem get?_merge (m n : SortedMap κ α) (k : κ) :
    (m.merge n).get? k = (n.get? k).or (m.get? k) := by
  classical
  rw [merge, get?_insertMany]
  congr 1
  refine Option.ext fun v => ?_
  rw [Option.map_eq_some_iff, get?_eq_some_iff]
  constructor
  · rintro ⟨e, he, rfl⟩
    have hm := List.mem_of_find?_eq_some he
    have hk := List.find?_some he
    simp only [decide_eq_true_eq] at hk
    rw [← hk]
    exact List.mem_reverse.1 hm
  · intro hm
    cases hf : n.entries.reverse.find? (fun e => decide (e.1 = k)) with
    | none =>
      have := List.find?_eq_none.1 hf (k, v) (List.mem_reverse.2 hm)
      simp at this
    | some e =>
      refine ⟨e, rfl, ?_⟩
      have hk := List.find?_some hf
      simp only [decide_eq_true_eq] at hk
      have he : (k, e.2) ∈ n.entries := by
        rw [← hk]
        exact List.mem_reverse.1 (List.mem_of_find?_eq_some hf)
      have h1 := get?_eq_some_iff.2 he
      have h2 := get?_eq_some_iff.2 hm
      exact Option.some.inj (h1.symm.trans h2)

/-! ## 4. Merging -/

theorem contains_merge {m n : SortedMap κ α} {k : κ} :
    (m.merge n).contains k = true ↔ m.contains k = true ∨ n.contains k = true := by
  simp only [contains, get?_merge, Option.isSome_or, Bool.or_eq_true]
  exact or_comm

theorem empty_merge (m : SortedMap κ α) : empty.merge m = m := by
  refine ext_get? fun k => ?_
  rw [get?_merge, get?_empty, Option.or_none]

theorem merge_empty (m : SortedMap κ α) : m.merge empty = m := rfl

theorem merge_assoc (m n o : SortedMap κ α) : (m.merge n).merge o = m.merge (n.merge o) := by
  refine ext_get? fun k => ?_
  simp only [get?_merge, Option.or_assoc]

theorem merge_self (m : SortedMap κ α) : m.merge m = m := by
  refine ext_get? fun k => ?_
  rw [get?_merge, Option.or_self]

/-- Whether two maps have the same value under every key of both. -/
def Agrees (m n : SortedMap κ α) : Prop :=
  ∀ k v w, m.get? k = some v → n.get? k = some w → v = w

/-- **Maps that agree can be merged in either order, and no others.** -/
theorem merge_comm_iff {m n : SortedMap κ α} : m.merge n = n.merge m ↔ m.Agrees n := by
  constructor
  · intro h k v w hv hw
    have hk : (m.merge n).get? k = (n.merge m).get? k := by rw [h]
    rw [get?_merge, get?_merge, hv, hw] at hk
    exact (Option.some.inj hk).symm
  · intro h
    refine ext_get? fun k => ?_
    rw [get?_merge, get?_merge]
    cases hv : m.get? k with
    | none => exact Option.or_none
    | some v =>
      cases hw : n.get? k with
      | none => rfl
      | some w => rw [h k v w hv hw, Option.or_self]

end SortedMap

/-! ## 5. Sets -/

namespace SortedSet

variable [TransOrd κ] [LawfulEqOrd κ]

/-- The members in ascending order. -/
abbrev toList (s : SortedSet κ) : List κ := SortedMap.keys s

/-- Adds a member. -/
def add (s : SortedSet κ) (k : κ) : SortedSet κ := SortedMap.insert s k ()

/-- The set of the members of a list. -/
def ofList (l : List κ) : SortedSet κ := l.foldl add SortedMap.empty

theorem contains_add_iff {s : SortedSet κ} {k k' : κ} :
    (s.add k).contains k' = true ↔ k' = k ∨ s.contains k' = true := by
  unfold add SortedMap.contains
  by_cases h : k' = k
  · subst h
    simp [SortedMap.get?_insert_self]
  · simp [SortedMap.get?_insert_of_ne s h, h]

theorem contains_ofList_iff {l : List κ} {k : κ} : (ofList l).contains k = true ↔ k ∈ l := by
  have : ∀ (l : List κ) (s : SortedSet κ),
      (l.foldl add s).contains k = true ↔ k ∈ l ∨ s.contains k = true := by
    intro l
    induction l with
    | nil => simp
    | cons a l ih =>
      intro s
      rw [List.foldl_cons, ih, contains_add_iff, List.mem_cons]
      grind
  rw [ofList, this]
  simp [SortedMap.contains]

end SortedSet

end AppWatch
