/-
# Bounded queues

A queue with room for `capacity` items.  A sender that finds no room waits with its item.  Room
that becomes free is granted to the sender that has waited longest; the granted sender puts its
item in when its turn to act comes.  Room that nobody waits for may be used by anybody at once.  A
closed queue has lost its receiver: it refuses every item.

Granted room counts as taken, so the items, with those still to come on granted room, never exceed
the capacity (`BoundedQueue.Fits`), and room is free only when nobody waits for it
(`BoundedQueue.Fair`).
-/

namespace AppWatch

/-- A first-in first-out queue of limited room, with the senders that wait for room. -/
structure BoundedQueue (ι α : Type) where
  capacity : Nat
  items : List α := []
  /-- Senders that were given room and have not used it yet, longest first. -/
  granted : List (ι × α) := []
  /-- Senders that wait with their items, longest first. -/
  waiting : List (ι × α) := []
  /-- Whether the receiver is gone. -/
  closed : Bool := false

/-- What becomes of an offered item. -/
inductive Offer (ι α : Type) where
  | accepted (q : BoundedQueue ι α)
  | waits (q : BoundedQueue ι α)
  | refused

namespace BoundedQueue

variable {ι α : Type}

/-- How many places are taken, by items or by grants. -/
def taken (q : BoundedQueue ι α) : Nat := q.items.length + q.granted.length

/-- How many more items there is room for. -/
def room (q : BoundedQueue ι α) : Nat := q.capacity - q.taken

/-- Offers an item: it goes in if there is room. -/
def offer (q : BoundedQueue ι α) (sender : ι) (a : α) : Offer ι α :=
  if q.closed then .refused
  else if 0 < q.room then .accepted { q with items := q.items ++ [a] }
  else .waits { q with waiting := q.waiting ++ [(sender, a)] }

/-- Grants free room to the senders that have waited longest. -/
def grant (q : BoundedQueue ι α) : BoundedQueue ι α :=
  { q with
    granted := q.granted ++ q.waiting.take q.room
    waiting := q.waiting.drop q.room }

/-- A granted sender puts its item in. -/
def enter? [DecidableEq ι] (q : BoundedQueue ι α) (sender : ι) : Option (BoundedQueue ι α) :=
  match q.granted.find? fun g => g.1 = sender with
  | none => none
  | some (_, a) =>
    some { q with
      items := q.items ++ [a]
      granted := q.granted.eraseP fun g => g.1 = sender }

/-- Takes the first item out. -/
def take? (q : BoundedQueue ι α) : Option (α × BoundedQueue ι α) :=
  match q.items with
  | [] => none
  | a :: rest => some (a, { q with items := rest }.grant)

/-- Removes the receiver; whatever was in the queue is lost. -/
def close (q : BoundedQueue ι α) : BoundedQueue ι α :=
  { q with items := [], granted := [], waiting := [], closed := true }

/-- Sends the senders away that fail the test; their grants go to others. -/
def keepSenders (q : BoundedQueue ι α) (keep : ι → Bool) : BoundedQueue ι α :=
  { q with
    granted := q.granted.filter fun g => keep g.1
    waiting := q.waiting.filter fun w => keep w.1 }.grant

/-- The senders that have not put their items in yet. -/
def pending (q : BoundedQueue ι α) : List ι := (q.granted ++ q.waiting).map (·.1)

/-- No more places are taken than there are. -/
def Fits (q : BoundedQueue ι α) : Prop := q.taken ≤ q.capacity

/-- Nobody waits while there is room. -/
def Fair (q : BoundedQueue ι α) : Prop := 0 < q.room → q.waiting = []

variable {q q' : BoundedQueue ι α} {sender : ι} {a : α}

/-! ## What the operations do -/

/-- What becomes of an offer. -/
theorem offer_cases (q : BoundedQueue ι α) (sender : ι) (a : α) :
    (q.offer sender a = .refused ∧ q.closed = true) ∨
      (q.closed = false ∧ 0 < q.room ∧
        q.offer sender a = .accepted { q with items := q.items ++ [a] }) ∨
      (q.closed = false ∧ q.room = 0 ∧
        q.offer sender a = .waits { q with waiting := q.waiting ++ [(sender, a)] }) := by
  unfold offer
  cases hc : q.closed with
  | true => exact .inl ⟨rfl, rfl⟩
  | false =>
    rcases Nat.eq_zero_or_pos q.room with hr | hr
    · exact .inr (.inr ⟨rfl, hr, by simp [hr]⟩)
    · exact .inr (.inl ⟨rfl, hr, by simp [hr]⟩)

theorem offer_eq_accepted (h : q.offer sender a = .accepted q') :
    q.closed = false ∧ 0 < q.room ∧ q' = { q with items := q.items ++ [a] } := by
  rcases q.offer_cases sender a with ⟨ho, -⟩ | ⟨hopen, hroom, ho⟩ | ⟨-, -, ho⟩
  · cases ho.symm.trans h
  · cases ho.symm.trans h
    exact ⟨hopen, hroom, rfl⟩
  · cases ho.symm.trans h

theorem offer_eq_waits (h : q.offer sender a = .waits q') :
    q.closed = false ∧ q.room = 0 ∧ q' = { q with waiting := q.waiting ++ [(sender, a)] } := by
  rcases q.offer_cases sender a with ⟨ho, -⟩ | ⟨-, -, ho⟩ | ⟨hopen, hfull, ho⟩
  · cases ho.symm.trans h
  · cases ho.symm.trans h
  · cases ho.symm.trans h
    exact ⟨hopen, hfull, rfl⟩

theorem closed_of_offer_refused (h : q.offer sender a = .refused) : q.closed = true := by
  rcases q.offer_cases sender a with ⟨-, hclosed⟩ | ⟨-, -, ho⟩ | ⟨-, -, ho⟩
  · exact hclosed
  · cases ho.symm.trans h
  · cases ho.symm.trans h

@[simp] theorem pending_grant (q : BoundedQueue ι α) : q.grant.pending = q.pending := by
  simp [pending, grant]

/-- What a receipt takes, and whom it leaves waiting. -/
theorem take?_eq_some (h : q.take? = some (a, q')) :
    q.items = a :: q'.items ∧ q'.pending = q.pending ∧ q'.closed = q.closed := by
  unfold take? at h
  split at h
  · cases h
  · next b rest hi =>
    obtain ⟨rfl, rfl⟩ := Prod.mk.inj (Option.some.inj h)
    exact ⟨hi, pending_grant _, rfl⟩

/-- A receipt leaves the senders waiting in their order. -/
theorem senders_take? (h : q.take? = some (a, q')) :
    q'.granted ++ q'.waiting = q.granted ++ q.waiting ∧ q'.capacity = q.capacity := by
  unfold take? at h
  split at h
  · cases h
  · cases h
    refine ⟨?_, rfl⟩
    simp only [grant]
    rw [List.append_assoc, List.take_append_drop]

/-- What a granted sender brings in. -/
theorem enter?_eq_some [DecidableEq ι] (h : q.enter? sender = some q') :
    ∃ a, (sender, a) ∈ q.granted ∧
      q' = { q with
        items := q.items ++ [a]
        granted := q.granted.eraseP fun g => g.1 = sender } := by
  unfold enter? at h
  split at h
  · cases h
  · next s a hf =>
    cases h
    have hs := List.find?_some hf
    simp only [decide_eq_true_eq] at hs
    exact ⟨a, hs ▸ List.mem_of_find?_eq_some hf, rfl⟩

/-- Whoever was granted room can use it, and nobody else. -/
theorem isSome_enter?_iff [DecidableEq ι] :
    (q.enter? sender).isSome = true ↔ sender ∈ q.granted.map (·.1) := by
  constructor
  · intro h
    obtain ⟨q', henter⟩ := Option.isSome_iff_exists.mp h
    obtain ⟨a, hmem, -⟩ := enter?_eq_some henter
    exact List.mem_map.2 ⟨_, hmem, rfl⟩
  · intro h
    obtain ⟨g, hg, hsender⟩ := List.mem_map.1 h
    unfold enter?
    split
    · next hnone => exact absurd hsender (by simpa using List.find?_eq_none.1 hnone g hg)
    · rfl

/-- A sender that has put its item in waits no longer, with that item. -/
theorem pending_enter? [DecidableEq ι] (h : q.enter? sender = some q') :
    sender ∈ q.pending ∧ q'.pending = q.pending.erase sender ∧ q'.closed = q.closed := by
  obtain ⟨a, hmem, rfl⟩ := enter?_eq_some h
  have hgranted : sender ∈ q.granted.map (·.1) := List.mem_map.2 ⟨_, hmem, rfl⟩
  have herase : (q.granted.eraseP fun g => decide (g.1 = sender)).map (·.1) =
      (q.granted.map (·.1)).erase sender := by
    rw [List.erase_eq_eraseP', List.eraseP_map]
    rfl
  refine ⟨?_, ?_, rfl⟩
  · rw [pending, List.map_append]
    exact List.mem_append_left _ hgranted
  · simp only [pending, List.map_append]
    rw [herase, List.erase_append_left _ hgranted]

/-- A sender brings in the first item it waits with, and all others wait on. -/
theorem senders_enter? [DecidableEq ι] (h : q.enter? sender = some q') :
    ∃ before a after, q.granted ++ q.waiting = before ++ (sender, a) :: after ∧
      (∀ g ∈ before, g.1 ≠ sender) ∧ q'.granted ++ q'.waiting = before ++ after ∧
      q'.items = q.items ++ [a] ∧ q'.capacity = q.capacity ∧ q'.closed = q.closed := by
  unfold enter? at h
  split at h
  · cases h
  · next s a hfind =>
    cases h
    obtain ⟨hs, before, after, hgranted, hbefore⟩ := List.find?_eq_some_iff_append.mp hfind
    obtain rfl : s = sender := of_decide_eq_true hs
    have hbefore : ∀ g ∈ before, g.1 ≠ s := fun g hg => by simpa using hbefore g hg
    refine ⟨before, a, after ++ q.waiting, ?_, hbefore, ?_, rfl, rfl, rfl⟩
    · rw [hgranted, List.append_assoc, List.cons_append]
    · have herase : (before ++ (s, a) :: after).eraseP (fun g => decide (g.1 = s)) =
          before ++ after := by
        rw [List.eraseP_append_right _ fun g hg => by simpa using hbefore g hg]
        simp
      simp only [hgranted, herase, List.append_assoc]

theorem mem_pending_of_granted (h : (sender, a) ∈ q.granted) : sender ∈ q.pending :=
  List.mem_map.2 ⟨(sender, a), List.mem_append_left _ h, rfl⟩

@[simp] theorem items_keepSenders (q : BoundedQueue ι α) (keep : ι → Bool) :
    (q.keepSenders keep).items = q.items := rfl

@[simp] theorem pending_keepSenders (q : BoundedQueue ι α) (keep : ι → Bool) :
    (q.keepSenders keep).pending = q.pending.filter keep := by
  simp only [keepSenders, pending_grant]
  simp only [pending, List.filter_map, ← List.filter_append]
  rfl

/-- The senders that are left are those that pass the test, in their order. -/
theorem senders_keepSenders (q : BoundedQueue ι α) (keep : ι → Bool) :
    (q.keepSenders keep).granted ++ (q.keepSenders keep).waiting =
      (q.granted ++ q.waiting).filter fun g => keep g.1 := by
  simp only [keepSenders, grant]
  rw [List.append_assoc, List.take_append_drop, List.filter_append]

/-! ## Room -/

theorem fits_offer (hq : q.Fits) (h : q.offer sender a = .accepted q') : q'.Fits := by
  obtain ⟨-, hroom, rfl⟩ := offer_eq_accepted h
  simp only [Fits, room, taken, List.length_append, List.length_cons, List.length_nil] at *
  omega

theorem fair_offer_accepted (hq : q.Fair) (h : q.offer sender a = .accepted q') : q'.Fair := by
  obtain ⟨-, hroom, rfl⟩ := offer_eq_accepted h
  exact fun _ => hq hroom

/-- A sender joins those who wait only where there is no room. -/
theorem fair_offer_waits (h : q.offer sender a = .waits q') : q'.Fair := by
  obtain ⟨-, hfull, rfl⟩ := offer_eq_waits h
  exact fun hroom => absurd hfull (Nat.ne_of_gt hroom)

theorem fits_grant (hq : q.Fits) : q.grant.Fits := by
  simp only [Fits, grant, room, taken, List.length_append, List.length_take] at *
  omega

theorem fair_grant (q : BoundedQueue ι α) : q.grant.Fair := by
  intro h
  simp only [grant, room, taken, List.length_append, List.length_take] at *
  rw [List.drop_eq_nil_iff]
  omega

theorem fits_take? (hq : q.Fits) (h : q.take? = some (a, q')) : q'.Fits := by
  unfold take? at h
  split at h
  · cases h
  · next b rest hi =>
    cases h
    apply fits_grant
    simp only [Fits, taken, hi, List.length_cons] at *
    omega

theorem fair_take? (h : q.take? = some (a, q')) : q'.Fair := by
  unfold take? at h
  split at h
  · cases h
  · cases h
    exact fair_grant _

/-- A sender that puts its item in takes the place that was granted to it. -/
theorem taken_enter? [DecidableEq ι] (h : q.enter? sender = some q') :
    q'.taken = q.taken ∧ q'.capacity = q.capacity := by
  obtain ⟨a, hmem, rfl⟩ := enter?_eq_some h
  have hlength : (q.granted.eraseP fun g => g.1 = sender).length = q.granted.length - 1 :=
    List.length_eraseP_of_mem hmem (decide_eq_true rfl)
  have hpos := List.length_pos_of_mem hmem
  refine ⟨?_, rfl⟩
  simp only [taken, List.length_append, List.length_cons, List.length_nil, hlength]
  omega

theorem fits_enter? [DecidableEq ι] (hq : q.Fits) (h : q.enter? sender = some q') : q'.Fits := by
  obtain ⟨htaken, hcapacity⟩ := taken_enter? h
  rw [Fits, htaken, hcapacity]
  exact hq

theorem fair_enter? [DecidableEq ι] (hq : q.Fair) (h : q.enter? sender = some q') : q'.Fair := by
  obtain ⟨htaken, hcapacity⟩ := taken_enter? h
  obtain ⟨a, -, rfl⟩ := enter?_eq_some h
  rw [Fair, room, htaken, hcapacity]
  exact hq

/-- While somebody waits every place is taken. -/
theorem taken_eq_capacity (hfits : q.Fits) (hfair : q.Fair) (hwaiting : q.waiting ≠ []) :
    q.taken = q.capacity := by
  have hnone : ¬ 0 < q.room := fun h => hwaiting (hfair h)
  unfold room at hnone
  unfold Fits at hfits
  omega

/-! ## A queue that nobody new comes to -/

/-- A queue has lost items from its front, and senders, at most; if it was closed, all of them. -/
structure Recedes (q q' : BoundedQueue ι α) : Prop where
  items : q'.items <:+ q.items
  senders : (q'.granted ++ q'.waiting).Sublist (q.granted ++ q.waiting)
  closed : q'.closed = q.closed ∨ q'.granted ++ q'.waiting = []

theorem Recedes.refl (q : BoundedQueue ι α) : q.Recedes q :=
  ⟨List.suffix_refl _, List.Sublist.refl _, .inl rfl⟩

theorem Recedes.pending (h : q.Recedes q') : q'.pending.Sublist q.pending :=
  h.senders.map _

theorem recedes_take? (h : q.take? = some (a, q')) : q.Recedes q' where
  items := by
    rw [(take?_eq_some h).1]
    exact List.suffix_cons _ _
  senders := (senders_take? h).1 ▸ List.Sublist.refl _
  closed := .inl (take?_eq_some h).2.2

theorem recedes_close (q : BoundedQueue ι α) : q.Recedes q.close :=
  ⟨List.nil_suffix, List.nil_sublist _, .inr rfl⟩

theorem recedes_keepSenders (q : BoundedQueue ι α) (keep : ι → Bool) :
    q.Recedes (q.keepSenders keep) where
  items := List.suffix_refl _
  senders := by
    rw [senders_keepSenders]
    exact List.filter_sublist
  closed := .inl rfl

end BoundedQueue

end AppWatch
