/-
# Decoding what was written

A decoder sees a JSON text as it is written, and the members of an object may stand in any order.
`Written.Writes` says of a text that it writes a value: without flaws, each member once, and the
members of objects in whatever order.

A record is decoded as a fold over its members.  Where each field is read as a step that depends on
nothing but the field's name (`take`), the whole record is the fold of these steps over the names as
they stand (`decodeMembers_of_writes`, `Layout.decode_of_writes`), and of what comes out each part
can be told from whether its name is there (`foldl_take`).
-/
import AppWatch.Decode
import Mathlib.Data.List.Perm.Basic

namespace AppWatch

/-! ## 1. Maps -/

namespace SortedMap

variable {κ α : Type} [Ord κ] [Std.TransOrd κ] [Std.LawfulEqOrd κ]

/-- A list that has the entries of a map, in any order, makes that map. -/
theorem ofList_eq {m : SortedMap κ α} {l : List (κ × α)} (hsound : ∀ e ∈ l, m.get? e.1 = some e.2)
    (hall : ∀ e ∈ m.entries, e.1 ∈ l.map (·.1)) : ofList l = m := by
  classical
  refine ext_get? fun k => ?_
  rw [ofList, get?_insertMany, get?_empty, Option.or_none]
  cases hfind : l.reverse.find? (fun e => decide (e.1 = k)) with
  | some e =>
    have hk : e.1 = k := by simpa using List.find?_some hfind
    have he : e ∈ l := List.mem_reverse.mp (List.mem_of_find?_eq_some hfind)
    rw [← hk, hsound e he]
    rfl
  | none =>
    refine (Option.eq_none_iff_forall_ne_some.mpr fun v hv => ?_).symm
    obtain ⟨e, he, hk⟩ := List.mem_map.mp (hall (k, v) (get?_eq_some_iff.mp hv))
    have := List.find?_eq_none.mp hfind e (List.mem_reverse.mpr he)
    simp [hk] at this

end SortedMap

namespace Json

namespace Written

/-! ## 2. Ways to write a value -/

mutual

/-- A text that writes a value without flaws.  The members of an object may stand in any order. -/
inductive Writes : Written → Json → Prop
  | null : Writes .null .null
  | bool (b : Bool) : Writes (.bool b) (.bool b)
  | num (n : JsonNumber) : Writes (.num n) (.num n)
  | str (s : String) : Writes (.str s) (.str s)
  | arr {ws : List Written} {js : List Json} : WritesItems ws js → Writes (.arr ws none) (.arr js)
  | obj {ms ms' : List (WrittenName × Written)} {js : List (String × Json)} :
      ms.Perm ms' → WritesMembers ms' js → Writes (.obj ms none) (.obj js)

/-- Texts that write items, one for each. -/
inductive WritesItems : List Written → List Json → Prop
  | nil : WritesItems [] []
  | cons {w : Written} {j : Json} {ws : List Written} {js : List Json} :
      Writes w j → WritesItems ws js → WritesItems (w :: ws) (j :: js)

/-- Texts that write members, one for each and in the same order. -/
inductive WritesMembers : List (WrittenName × Written) → List (String × Json) → Prop
  | nil : WritesMembers [] []
  | cons {name : String} {w : Written} {j : Json} {ms : List (WrittenName × Written)}
      {js : List (String × Json)} :
      Writes w j → WritesMembers ms js → WritesMembers ((.ok name, w) :: ms) ((name, j) :: js)

end

mutual

theorem writes_written : (j : Json) → Writes j.written j
  | .null => .null
  | .bool b => .bool b
  | .num n => .num n
  | .str s => .str s
  | .arr items => .arr (writes_writtenItems items)
  | .obj members => .obj (.refl _) (writes_writtenMembers members)

theorem writes_writtenItems : (js : List Json) → WritesItems (writtenItems js) js
  | [] => .nil
  | j :: js => .cons (writes_written j) (writes_writtenItems js)

theorem writes_writtenMembers :
    (js : List (String × Json)) → WritesMembers (writtenMembers js) js
  | [] => .nil
  | (_, j) :: js => .cons (writes_written j) (writes_writtenMembers js)

end

variable {w : Written} {ws : List Written} {ms : List (WrittenName × Written)}
  {js : List (String × Json)} {j : Json}

theorem WritesMembers.exists_of_mem (h : WritesMembers ms js) {m : WrittenName × Written}
    (hm : m ∈ ms) : ∃ n j, m.1 = .ok n ∧ (n, j) ∈ js ∧ Writes m.2 j := by
  induction ms generalizing js with
  | nil => simp at hm
  | cons _ _ ih =>
    cases h with
    | cons hw h =>
      rcases List.mem_cons.mp hm with rfl | hm
      · exact ⟨_, _, rfl, List.mem_cons_self, hw⟩
      · obtain ⟨n, j, hn, hj, hw⟩ := ih h hm
        exact ⟨n, j, hn, List.mem_cons_of_mem _ hj, hw⟩

theorem WritesMembers.map_fst (h : WritesMembers ms js) :
    ms.map (·.1) = js.map (fun m => .ok m.1) := by
  induction ms generalizing js with
  | nil => cases h; rfl
  | cons _ _ ih =>
    cases h with
    | cons _ h => simp [ih h]

theorem passOverMembers_eq_none
    (h : ∀ m ∈ ms, (∃ n, m.1 = .ok n) ∧ m.2.passOver = none) :
    passOverMembers none ms = none := by
  induction ms with
  | nil => rfl
  | cons m ms ih =>
    obtain ⟨⟨⟨n, hn⟩, hw⟩, hms⟩ := List.forall_mem_cons.mp h
    obtain ⟨name, w⟩ := m
    obtain rfl : name = .ok n := hn
    rw [passOverMembers, hw, ih hms]
    rfl

mutual

/-- What writes a value can be passed over. -/
theorem Writes.passOver : {w : Written} → {j : Json} → Writes w j → w.passOver = none
  | _, _, .null => rfl
  | _, _, .bool _ => rfl
  | _, _, .num _ => rfl
  | _, _, .str _ => rfl
  | _, _, .arr h => h.passOver
  | _, _, .obj hperm h => passOverMembers_eq_none fun m hm => h.passOver m (hperm.mem_iff.mp hm)

theorem WritesItems.passOver : {ws : List Written} → {js : List Json} → WritesItems ws js →
    passOverItems none ws = none
  | _, _, .nil => rfl
  | _, _, .cons hw h => by
    rw [passOverItems, hw.passOver, h.passOver]
    rfl

theorem WritesMembers.passOver : {ms : List (WrittenName × Written)} →
    {js : List (String × Json)} → WritesMembers ms js →
      ∀ m ∈ ms, (∃ n, m.1 = .ok n) ∧ m.2.passOver = none
  | _, _, .nil => by simp
  | _, _, .cons hw h => List.forall_mem_cons.mpr ⟨⟨⟨_, rfl⟩, hw.passOver⟩, h.passOver⟩

end

theorem Writes.passing {α : Type} (h : Writes w j) (a : α) : w.passing a = .ok a := by
  rw [Written.passing, h.passOver]

/-- Members with a name for each. -/
def named (ps : List (String × Written)) : List (WrittenName × Written) :=
  ps.map fun p => (.ok p.1, p.2)

theorem exists_eq_named (h : ∀ m ∈ ms, ∃ n, m.1 = .ok n) : ∃ ps, ms = named ps := by
  induction ms with
  | nil => exact ⟨[], rfl⟩
  | cons m ms ih =>
    obtain ⟨⟨n, hn⟩, hms⟩ := List.forall_mem_cons.mp h
    obtain ⟨ps, rfl⟩ := ih hms
    obtain ⟨name, w⟩ := m
    obtain rfl : name = .ok n := hn
    exact ⟨(n, w) :: ps, rfl⟩

/-- An object is written with the names of its members, in some order, and each with its value. -/
theorem Writes.exists_named (h : Writes w (.obj js)) :
    ∃ ps, w = .obj (named ps) none ∧ (ps.map (·.1)).Perm (js.map (·.1)) ∧
      ∀ p ∈ ps, ∃ j, (p.1, j) ∈ js ∧ Writes p.2 j := by
  cases h with
  | @obj ms ms' _ hperm hms =>
    obtain ⟨ps, rfl⟩ : ∃ ps, ms = named ps := exists_eq_named fun m hm => by
      obtain ⟨n, -, hn, -⟩ := hms.exists_of_mem (hperm.mem_iff.mp hm)
      exact ⟨n, hn⟩
    have hnames : ((ps.map (·.1)).map Except.ok : List WrittenName).Perm
        ((js.map (·.1)).map Except.ok) := by
      have := hperm.map (·.1)
      rw [hms.map_fst] at this
      simpa [named, Function.comp_def] using this
    refine ⟨ps, rfl, (List.map_perm_map_iff fun _ _ => Except.ok.inj).mp hnames, fun p hp => ?_⟩
    obtain ⟨n, j, hn, hj, hw⟩ := hms.exists_of_mem (hperm.mem_iff.mp (List.mem_map_of_mem hp))
    cases hn
    exact ⟨j, hj, hw⟩

/-! ## 3. Plain values -/

section

variable {α β : Type}

theorem Writes.decodeText {s : String} (h : Writes w (.str s)) : w.decodeText = .ok s := by
  cases h
  rfl

theorem Writes.decodeBool {b : Bool} (h : Writes w (.bool b)) : w.decodeBool = .ok b := by
  cases h
  rfl

theorem Writes.decodeWord {n : UInt64} (wanted : String) (h : Writes w (Json.ofNat n.toNat)) :
    w.decodeWord wanted = .ok n := by
  cases h
  have hlt : n.toNat < UInt64.size := n.toNat_lt_size
  rw [Written.decodeWord, decodeBelow, if_pos ⟨Int.natCast_nonneg _, Int.ofNat_lt.mpr hlt⟩]
  simp [Except.map]

theorem WritesItems.mapM {item : Written → Decoded β} {written : α → Json} {value : α → β}
    {l : List α} (hitem : ∀ x w, Writes w (written x) → item w = .ok (value x))
    (h : WritesItems ws (l.map written)) : ws.mapM item = .ok (l.map value) := by
  induction l generalizing ws with
  | nil =>
    cases h
    rfl
  | cons x l ih =>
    cases h with
    | cons hw h =>
      rw [List.mapM_cons, hitem x _ hw, ih h]
      rfl

/-- An array is read item by item. -/
theorem Writes.decodeItems {item : Written → Decoded β} {written : α → Json} {value : α → β}
    {l : List α} (hitem : ∀ x w, Writes w (written x) → item w = .ok (value x))
    (h : Writes w (.arr (l.map written))) : w.decodeItems item = .ok (l.map value) := by
  cases h with
  | arr h =>
    rw [Written.decodeItems, h.mapM hitem]
    rfl

theorem Writes.decodeTexts {l : List String} (h : Writes w (Json.texts l)) :
    w.decodeItems Written.decodeText = .ok l := by
  have := Writes.decodeItems (fun (x : String) w (h : Writes w (.str x)) => h.decodeText) h
  rwa [List.map_id'] at this

theorem Writes.decodeOptional {value : Written → Decoded α} {a : α} (h : Writes w j)
    (hj : j ≠ .null) (hvalue : value w = .ok a) : w.decodeOptional value = .ok (some a) := by
  cases h with
  | null => exact absurd rfl hj
  | bool | num | str | arr | obj =>
    simp only [Written.decodeOptional, hvalue]
    rfl

theorem mapM_eq_ok {ε : Type} {f : α → Except ε β} {value : α → β} {l : List α}
    (h : ∀ x ∈ l, f x = .ok (value x)) : l.mapM f = .ok (l.map value) := by
  induction l with
  | nil => rfl
  | cons x l ih =>
    obtain ⟨hx, hl⟩ := List.forall_mem_cons.mp h
    rw [List.mapM_cons, hx, ih hl]
    rfl

/-- A map of texts is read as that map, in whatever order its members are written. -/
theorem Writes.decodeTextMap {m : SortedMap String String} (h : Writes w (Json.textMap m)) :
    w.decodeTextMap = .ok m := by
  obtain ⟨ps, rfl, hnames, hwrites⟩ := h.exists_named
  have hvalues : ∀ p ∈ ps, ∃ v, m.get? p.1 = some v ∧ p.2.decodeText = .ok v := fun p hp => by
    obtain ⟨j, hj, hw⟩ := hwrites p hp
    obtain ⟨⟨name, v⟩, hv, heq⟩ := List.mem_map.mp hj
    obtain ⟨rfl, rfl⟩ := Prod.mk.inj heq
    exact ⟨v, SortedMap.get?_eq_some_iff.mpr hv, hw.decodeText⟩
  have hpairs : (named ps).mapM (fun (name, w) => do
      return (← decodeName name, ← Written.decodeText w) : _ → Decoded (String × String)) =
        .ok (ps.map fun p => (p.1, (m.get? p.1).getD "")) := by
    rw [named, List.mapM_map]
    refine mapM_eq_ok fun p hp => ?_
    obtain ⟨v, hget, hv⟩ := hvalues p hp
    change (do return (p.1, ← Written.decodeText p.2) : Decoded (String × String)) = _
    rw [hget, hv]
    rfl
  have hmap : SortedMap.ofList (ps.map fun p => (p.1, (m.get? p.1).getD "")) = m := by
    refine SortedMap.ofList_eq (fun e he => ?_) fun e he => ?_
    · obtain ⟨p, hp, rfl⟩ := List.mem_map.mp he
      obtain ⟨v, hget, -⟩ := hvalues p hp
      simp [hget]
    · have : e.1 ∈ ps.map (·.1) :=
        hnames.mem_iff.mpr (List.mem_map.mpr ⟨(e.1, .str e.2), List.mem_map_of_mem he, rfl⟩)
      simpa using this
  rw [Written.decodeTextMap, hpairs]
  exact congrArg Except.ok hmap

end

/-! ## 4. Records -/

theorem hasMember_iff (h : Writes w (.obj js)) (name : String) :
    w.hasMember name = true ↔ name ∈ js.map (·.1) := by
  obtain ⟨ps, rfl, hnames, -⟩ := h.exists_named
  rw [← hnames.mem_iff]
  simp [hasMember, named]

section

variable {σ : Type} {field : σ → String → Written → Decoded σ} {take : σ → String → σ}

/-- A record is read from an object member by member, in the order in which they are written. -/
theorem decodeMembers_of_writes (take : σ → String → σ) (wanted : String) (start : σ)
    (h : Writes w (.obj js))
    (hfield : ∀ s n j w, (n, j) ∈ js → Writes w j → field s n w = .ok (take s n)) :
    ∃ names : List String, names.Perm (js.map (·.1)) ∧
      w.decodeMembers wanted start field = .ok (names.foldl take start) := by
  obtain ⟨ps, rfl, hnames, hwrites⟩ := h.exists_named
  refine ⟨ps.map (·.1), hnames, ?_⟩
  have hfold : ∀ (qs : List (String × Written)) (s : σ),
      (∀ p ∈ qs, ∃ j, (p.1, j) ∈ js ∧ Writes p.2 j) →
        ((named qs).foldlM (fun s m => do field s (← decodeName m.1) m.2) s : Decoded σ) =
          .ok ((qs.map (·.1)).foldl take s) := by
    intro qs
    induction qs with
    | nil => exact fun _ _ => rfl
    | cons p qs ih =>
      intro s hqs
      obtain ⟨⟨j, hj, hw⟩, hqs⟩ := List.forall_mem_cons.mp hqs
      have hp : (do field s (← decodeName (.ok p.1)) p.2) = .ok (take s p.1) :=
        hfield s p.1 j p.2 hj hw
      rw [named, List.map_cons, List.foldlM_cons, hp]
      exact ih _ hqs
  rw [decodeMembers, hfold ps start hwrites]
  rfl

/-- A part of a record that only one name takes has the value of that name once it came by; without
it, the part stays as it was. -/
theorem foldl_take {β : Type} (part : σ → β) {name : String} {value : β} {names : List String}
    {s : σ} (h : name ∈ names ∨ part s = value)
    (htake : ∀ s n, part (take s n) = if n = name then value else part s) :
    part (names.foldl take s) = value := by
  induction names generalizing s with
  | nil => exact h.resolve_left (List.not_mem_nil)
  | cons n names ih =>
    refine ih ?_
    rw [htake]
    split
    · exact .inr rfl
    · next hn =>
      exact h.imp_left fun hname => (List.mem_cons.mp hname).resolve_left (Ne.symm hn)

end

end Written
end Json

open Json (Written)

namespace Layout

variable {σ : Type} {l : Layout σ} {w : Written}
  {js : List (String × Json)}

/-- Nothing that is required is missing among the names of all required fields. -/
theorem missing?_eq_none {given : List String} (h : ∀ f ∈ l.fields, f.2 = true → f.1 ∈ given) :
    l.missing? given = none := by
  rw [missing?, Option.map_eq_none_iff, List.find?_eq_none]
  intro f hf
  cases hrequired : f.2 with
  | false => simp
  | true => simpa using h f hf hrequired

/-- A record is read from an object whose members have different names, in the order in which they
are written. -/
theorem decode_of_writes (take : σ → String → σ) (start : σ) (h : Written.Writes w (.obj js))
    (hdistinct : (js.map (·.1)).Nodup)
    (hrequired : ∀ f ∈ l.fields, f.2 = true → f.1 ∈ js.map (·.1))
    (hfield : ∀ s n j w, (n, j) ∈ js → Written.Writes w j → l.field s n w = .ok (take s n)) :
    ∃ names : List String, names.Perm (js.map (·.1)) ∧
      l.decode start w = .ok (names.foldl take start) := by
  obtain ⟨ps, rfl, hnames, hwrites⟩ := h.exists_named
  refine ⟨ps.map (·.1), hnames, ?_⟩
  -- the names that were given and those that are to come are the names of all members
  have hfold : ∀ (qs : List (String × Written)) (given : List String) (s : σ),
      (∀ p ∈ qs, ∃ j, (p.1, j) ∈ js ∧ Written.Writes p.2 j) →
      (given ++ qs.map (·.1)).Perm (js.map (·.1)) →
        l.decodeGiven s given none (Written.named qs) = .ok ((qs.map (·.1)).foldl take s) := by
    intro qs
    induction qs with
    | nil =>
      intro given s _ hgiven
      have hmissing : l.missing? given = none :=
        missing?_eq_none fun f hf hreq => by
          simpa using hgiven.mem_iff.mpr (hrequired f hf hreq)
      simp only [Written.named, List.map_nil, decodeGiven, Written.ending, Written.ended,
        Except.mapError, hmissing, bind, Except.bind, List.foldl_nil]
    | cons p qs ih =>
      intro given s hqs hgiven
      obtain ⟨⟨j, hj, hw⟩, hqs⟩ := List.forall_mem_cons.mp hqs
      have hnew : p.1 ∉ given := fun hmem => by
        have := (hgiven.nodup_iff.mpr hdistinct)
        rw [List.nodup_append] at this
        exact this.2.2 p.1 hmem p.1 (by simp) rfl
      have hstep : l.decodeGiven s given none (Written.named (p :: qs)) =
          l.decodeGiven (take s p.1) (p.1 :: given) none (Written.named qs) := by
        simp only [Written.named, List.map_cons, decodeGiven, Written.decodeName, Except.mapError,
          bind, Except.bind, hfield s p.1 j p.2 hj hw]
        rw [if_neg (by simp [hnew])]
      rw [hstep, List.map_cons, List.foldl_cons]
      refine ih (p.1 :: given) _ hqs (List.Perm.trans ?_ hgiven)
      simpa using List.perm_middle.symm
  exact hfold ps [] start hwrites hnames

end Layout

end AppWatch
