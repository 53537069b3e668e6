/-
# Every accepted batch is in one window

The processor takes batches in two phases, waits for deadlines and for callbacks in two others, and
the senders may leave in any of them.  This module keeps a `Ledger` beside the pipeline: what the
queue has accepted, the windows that have been dispatched with their calls, and the window that is
open now.  The account always balances (`Ledger.Balanced`): the batches of the windows, those of
the open one and those still in the queue are, in order, the accepted ones.

What a window is owed is said without merging (`IsDispatch`): one call for each key that occurs in
it, in ascending key order, with the snapshot of the last batch that mentions the key.  That the
merged batch of a window makes just these calls is `Summary.merge`, one batch at a time.

The account says nothing about when a window ends, and does not need to: the deadline decides how
the accepted batches are cut into windows, never which of them are in one.
-/
import AppWatch.Processor
import Mathlib.Data.List.Basic

namespace AppWatch

/-! ## 1. What a window is owed -/

/-- `v` is what the last of some batches that mentions `k` says of it. -/
def LastMention (field : Batch → SortedMap ResourceKey ResourceInfo) (w : List Batch)
    (k : ResourceKey) (v : ResourceInfo) : Prop :=
  ∃ before b after, w = before ++ b :: after ∧ (field b).get? k = some v ∧
    ∀ c ∈ after, (field c).get? k = none

/-- Each key that occurs in the batches once, in ascending order, with its last snapshot. -/
structure Summary (field : Batch → SortedMap ResourceKey ResourceInfo) (w : List Batch)
    (entries : List (ResourceKey × ResourceInfo)) : Prop where
  ascending : Ascending entries
  mem_iff : ∀ k v, (k, v) ∈ entries ↔ LastMention field w k v
  occurs : ∀ k, (∃ v, (k, v) ∈ entries) ↔ ∃ b ∈ w, (field b).contains k = true

/-- The calls that a window is owed: the changed resources first, then the applications. -/
def IsDispatch (w : List Batch) (calls : List StatusCall) : Prop :=
  ∃ resources applications,
    Summary Batch.resources w resources ∧ Summary Batch.applications w applications ∧
      calls = (resources.map fun e => StatusCall.componentChanged e.1 e.2) ++
        applications.map fun e => StatusCall.calculateStatus e.1 e.2

section Summary

variable {field : Batch → SortedMap ResourceKey ResourceInfo} {w : List Batch} {b : Batch}
  {k : ResourceKey} {v : ResourceInfo}

theorem lastMention_singleton : LastMention field [b] k v ↔ (field b).get? k = some v := by
  constructor
  · rintro ⟨before, c, after, hw, hc, -⟩
    have hlen : before = [] := by
      cases before with
      | nil => rfl
      | cons _ _ => simp at hw
    subst hlen
    rw [(List.cons.inj hw).1]
    exact hc
  · exact fun h => ⟨[], b, [], rfl, h, by simp⟩

/-- A further batch decides the keys it mentions and leaves the others. -/
theorem lastMention_append_singleton :
    LastMention field (w ++ [b]) k v ↔
      (field b).get? k = some v ∨ ((field b).get? k = none ∧ LastMention field w k v) := by
  constructor
  · rintro ⟨before, c, after, hw, hc, hafter⟩
    rcases List.eq_nil_or_concat after with rfl | ⟨init, d, rfl⟩
    · obtain ⟨-, hbc⟩ := List.append_inj' hw rfl
      rw [(List.cons.inj hbc).1]
      exact .inl hc
    · rw [List.concat_eq_append, ← List.cons_append, ← List.append_assoc] at hw
      obtain ⟨hinit, hbd⟩ := List.append_inj' hw rfl
      rw [(List.cons.inj hbd).1]
      refine .inr ⟨hafter d (by simp), before, c, init, hinit, hc, fun e he => ?_⟩
      exact hafter e (by simp [he])
  · rintro (h | ⟨hn, before, c, after, rfl, hc, hafter⟩)
    · exact ⟨w, b, [], rfl, h, by simp⟩
    · refine ⟨before, c, after ++ [b], by simp, hc, fun e he => ?_⟩
      rcases List.mem_append.mp he with he | he
      · exact hafter e he
      · rw [List.mem_singleton.mp he]
        exact hn

theorem summary_singleton (field : Batch → SortedMap ResourceKey ResourceInfo) (b : Batch) :
    Summary field [b] (field b).entries where
  ascending := (field b).ascending
  mem_iff k v := by rw [lastMention_singleton, SortedMap.get?_eq_some_iff]
  occurs k := by
    simp [SortedMap.contains, Option.isSome_iff_exists, SortedMap.get?_eq_some_iff]

/-- **Merging one more batch keeps the account of a window.** -/
theorem Summary.merge {m : SortedMap ResourceKey ResourceInfo}
    (h : Summary field w m.entries) (b : Batch) :
    Summary field (w ++ [b]) (m.merge (field b)).entries := by
  have hget : ∀ k v, (k, v) ∈ (m.merge (field b)).entries ↔
      (field b).get? k = some v ∨ ((field b).get? k = none ∧ (k, v) ∈ m.entries) := by
    intro k v
    rw [← SortedMap.get?_eq_some_iff, SortedMap.get?_merge, ← SortedMap.get?_eq_some_iff]
    cases (field b).get? k <;> simp
  refine ⟨(m.merge (field b)).ascending, fun k v => ?_, fun k => ?_⟩
  · rw [hget, lastMention_append_singleton, h.mem_iff]
  · have hlast : (∃ c ∈ w ++ [b], (field c).contains k = true) ↔
        (∃ c ∈ w, (field c).contains k = true) ∨ (field b).contains k = true := by
      simp only [List.mem_append, List.mem_singleton, or_and_right, exists_or, exists_eq_left]
    rw [hlast, ← h.occurs k, SortedMap.contains]
    simp only [hget]
    cases (field b).get? k <;> simp

end Summary

/-- A merged batch makes the calls that its window is owed. -/
theorem isDispatch_calls {w : List Batch} {b : Batch}
    (hr : Summary Batch.resources w b.resources.entries)
    (ha : Summary Batch.applications w b.applications.entries) : IsDispatch w b.calls :=
  ⟨b.resources.entries, b.applications.entries, hr, ha, rfl⟩

/-! ## 2. The account -/

/-- Some batches that were taken together, and the calls made for them. -/
structure Window where
  batches : List Batch := []
  calls : List StatusCall := []

/-- What has happened at a queue and its processor so far. -/
structure Ledger where
  /-- The batches that the queue has accepted, in order. -/
  accepted : List Batch := []
  /-- The windows whose calls have all returned. -/
  past : List Window := []
  /-- The window that is open or being dispatched. -/
  current : Window := {}

namespace Ledger

/-- The queue accepts batches. -/
def accept (l : Ledger) (bs : List Batch) : Ledger := { l with accepted := l.accepted ++ bs }

/-- The processor makes a step, with the call it makes in it.  While it collects it takes the
first batch of the queue, if there is one; a window is over when no call is left to be made. -/
def work (l : Ledger) {ι : Type} (p : Pipeline ι) (call : Option TimedCall) : Ledger :=
  match p.phase with
  | .idle | .collecting _ _ =>
    { l with current := { l.current with batches := l.current.batches ++ p.queue.items.take 1 } }
  | .calling [] _ => { l with past := l.past ++ [l.current], current := {} }
  | .calling (_ :: _) _ =>
    { l with current := { l.current with
        calls := l.current.calls ++ call.toList.map TimedCall.call } }
  | .awaiting _ _ _ | .stopped => l

end Ledger

namespace Pipeline

variable {ι : Type}

/-- What one of the parties at a queue does. -/
inductive Act (ι : Type) where
  /-- A sender sends a batch: it goes into the queue, or the sender waits with it. -/
  | send (sender : ι) (b : Batch)
  /-- A sender uses the room it was given. -/
  | enter (sender : ι)
  /-- The senders that fail the test give up. -/
  | giveUp (keep : ι → Bool)
  /-- The senders are dropped; those that wait with a batch may still bring it in. -/
  | dropSenders
  | tick (ms : Nat)
  /-- The processor makes a step; a call made in it takes so long. -/
  | process (duration : Nat)

/-- Whether an act is not one of the senders. -/
def Act.isProcessing : Act ι → Bool
  | .tick _ | .process _ => true
  | _ => false

/-- What comes of an act, with the account of it; `none` if nobody can act so now. -/
def act [DecidableEq ι] (p : Pipeline ι) (l : Ledger) : Act ι → Option (Pipeline ι × Ledger)
  | .send sender b =>
    if !p.hasSenders then none
    else if b.isEmpty then some (p, l)
    else match p.queue.offer sender b with
      | .accepted q => some ({ p with queue := q }, l.accept [b])
      | .waits q => some ({ p with queue := q }, l)
      | .refused => some (p, l)
  | .enter sender =>
    (p.queue.enter? sender).map fun q =>
      ({ p with queue := q }, l.accept (q.items.drop p.queue.items.length))
  | .giveUp keep => some ({ p with queue := p.queue.keepSenders keep }, l)
  | .dropSenders => some ({ p with hasSenders := false }, l)
  | .tick ms => some ({ p with now := p.now + ms }, l)
  | .process duration =>
    (p.step fun _ => duration).map fun (p', call) => (p', l.work p call)

/-- The state and the account after some acts. -/
def run [DecidableEq ι] (p : Pipeline ι) (l : Ledger) :
    List (Act ι) → Option (Pipeline ι × Ledger)
  | [] => some (p, l)
  | a :: rest => (p.act l a).bind fun (p', l') => p'.run l' rest

end Pipeline

/-! ## 3. The account balances -/

namespace Ledger

/-- How the open window stands in each phase. -/
def Standing (w : Window) : Phase → Prop
  | .idle | .stopped => w = {}
  | .collecting pending _ => w.batches ≠ [] ∧ w.calls = [] ∧
      Summary Batch.resources w.batches pending.resources.entries ∧
      Summary Batch.applications w.batches pending.applications.entries
  | .calling calls _ | .awaiting _ calls _ =>
    w.batches ≠ [] ∧ IsDispatch w.batches (w.calls ++ calls)

/-- Whether the processor has learned that nothing more will come. -/
def HasEnded : Phase → Prop
  | .calling _ final | .awaiting _ _ final => final = true
  | .stopped => True
  | .idle | .collecting _ _ => False

/-- Nothing is in the queue, and nobody is left to put anything in. -/
def Drained {ι : Type} (p : Pipeline ι) : Prop :=
  p.hasSenders = false ∧ p.queue.items = [] ∧ p.queue.pending = []

/-- **The account balances**: nothing is lost, doubled or moved between acceptance and window, each
past window has had the calls it is owed, and the open one is on its way to them. -/
structure Balanced {ι : Type} (p : Pipeline ι) (l : Ledger) : Prop where
  conserved : l.past.flatMap Window.batches ++ l.current.batches ++ p.queue.items = l.accepted
  past : ∀ w ∈ l.past, w.batches ≠ [] ∧ IsDispatch w.batches w.calls
  standing : Standing l.current p.phase
  ended : HasEnded p.phase → Drained p

variable {ι : Type} {p p' : Pipeline ι} {l l' : Ledger}

/-- What a receipt finds: a batch at the head of the queue, the end of all batches, or neither. -/
theorem receive_cases (p : Pipeline ι) :
    (∃ b q, p.receive = .batch b q ∧ p.queue.items = b :: q.items) ∨
      (p.receive = .ended ∧ Drained p) ∨
      (p.receive = .nothing ∧ p.queue.items = [] ∧
        (p.hasSenders = true ∨ p.queue.pending ≠ [])) := by
  unfold Pipeline.receive BoundedQueue.take?
  cases hi : p.queue.items with
  | cons b rest => exact .inl ⟨b, _, rfl, rfl⟩
  | nil =>
    refine .inr ?_
    simp only
    split
    · rename_i h
      refine .inr ⟨rfl, trivial, h.imp_right fun hp => ?_⟩
      simpa using hp
    · rename_i h
      rw [not_or] at h
      exact .inl ⟨rfl, by simpa using h.1, hi, by simpa using h.2⟩

/-- A window that is closed with nothing left in the queue goes on to its calls. -/
theorem Balanced.close {pending : Batch} {deadline : Nat} {call : Option TimedCall} {final : Bool}
    (h : Balanced p l) (hp : p.phase = .collecting pending deadline) (hi : p.queue.items = [])
    (hf : final = true → Drained p) :
    Balanced { p with phase := .calling pending.calls final } (l.work p call) := by
  have hst := h.standing
  rw [hp] at hst
  obtain ⟨hne, hcalls, hr, ha⟩ := hst
  have hl : l.work p call = l := by
    simp [Ledger.work, hp, hi]
  rw [hl]
  refine ⟨h.conserved, h.past, ⟨hne, ?_⟩, hf⟩
  rw [hcalls]
  exact isDispatch_calls hr ha

/-- The first batch opens a window. -/
theorem Balanced.opened {b : Batch} {q : BoundedQueue ι Batch} {deadline : Nat}
    (h : Balanced p l) (hp : p.phase = .idle) (hi : p.queue.items = b :: q.items) :
    Balanced { p with queue := q, phase := .collecting b deadline } (l.work p none) := by
  have hst := h.standing
  rw [hp] at hst
  have hcur : l.current = {} := hst
  have hc := h.conserved
  refine ⟨?_, ?_, ?_, fun he => absurd he (by simp [HasEnded])⟩
  · simpa [Ledger.work, hp, hi, hcur] using hc
  · simpa [Ledger.work, hp] using h.past
  · simp [Ledger.work, hp, hi, hcur, Standing, summary_singleton]

/-- The end of all batches stops a processor that has no window open. -/
theorem Balanced.stopped (h : Balanced p l) (hp : p.phase = .idle) (hd : Drained p) :
    Balanced { p with phase := .stopped } (l.work p none) := by
  have hst := h.standing
  rw [hp] at hst
  have hcur : l.current = {} := hst
  have hc := h.conserved
  refine ⟨?_, ?_, ?_, fun _ => hd⟩
  · simpa [Ledger.work, hp, hd.2.1] using hc
  · simpa [Ledger.work, hp] using h.past
  · simp [Ledger.work, hp, hd.2.1, hcur, Standing]

/-- A further batch joins the open window. -/
theorem Balanced.joined {b pending : Batch} {q : BoundedQueue ι Batch} {deadline : Nat}
    (h : Balanced p l) (hp : p.phase = .collecting pending deadline)
    (hi : p.queue.items = b :: q.items) :
    Balanced { p with queue := q, phase := .collecting (pending.merge b) deadline }
      (l.work p none) := by
  have hst := h.standing
  rw [hp] at hst
  obtain ⟨-, hcalls, hres, happ⟩ := hst
  have hc := h.conserved
  refine ⟨?_, ?_, ?_, fun he => absurd he (by simp [HasEnded])⟩
  · simpa [Ledger.work, hp, hi] using hc
  · simpa [Ledger.work, hp] using h.past
  · simp only [Ledger.work, hp, hi, List.take_succ_cons, List.take_zero]
    exact ⟨by simp, hcalls, hres.merge b, happ.merge b⟩

/-- A window is past when its last call has returned. -/
theorem Balanced.finished {final : Bool} (h : Balanced p l) (hp : p.phase = .calling [] final) :
    Balanced { p with phase := if final then .stopped else .idle } (l.work p none) := by
  have hst := h.standing
  have hend := h.ended
  rw [hp] at hst hend
  obtain ⟨hne, hd⟩ := hst
  rw [List.append_nil] at hd
  have hc := h.conserved
  refine ⟨?_, ?_, ?_, ?_⟩
  · simpa [Ledger.work, hp] using hc
  · intro w hw
    simp only [Ledger.work, hp, List.mem_append, List.mem_singleton] at hw
    rcases hw with hw | rfl
    · exact h.past w hw
    · exact ⟨hne, hd⟩
  · cases final <;> simp [Ledger.work, hp, Standing]
  · cases final with
    | false => exact fun he => absurd he (by simp [HasEnded])
    | true => exact fun _ => hend rfl

/-- A call that is made is one of those the window is owed. -/
theorem Balanced.called {c : StatusCall} {cs : List StatusCall} {final : Bool} {time : Nat}
    {phase : Phase} (h : Balanced p l) (hp : p.phase = .calling (c :: cs) final)
    (hphase : phase = .calling cs final ∨ ∃ returns, phase = .awaiting returns cs final) :
    Balanced { p with phase := phase } (l.work p (some ⟨time, c⟩)) := by
  have hst := h.standing
  have hend := h.ended
  rw [hp] at hst hend
  have hw : l.work p (some ⟨time, c⟩) =
      { l with current := { l.current with calls := l.current.calls ++ [c] } } := by
    simp [Ledger.work, hp]
  rw [hw]
  obtain ⟨hne, hd⟩ := hst
  have hd' : IsDispatch l.current.batches (l.current.calls ++ [c] ++ cs) := by
    simpa using hd
  rcases hphase with rfl | ⟨returns, rfl⟩
  · exact ⟨h.conserved, h.past, ⟨hne, hd'⟩, hend⟩
  · exact ⟨h.conserved, h.past, ⟨hne, hd'⟩, hend⟩

/-- A call that returns is followed by the next. -/
theorem Balanced.returned {returns : Nat} {cs : List StatusCall} {final : Bool}
    (h : Balanced p l) (hp : p.phase = .awaiting returns cs final) :
    Balanced { p with phase := .calling cs final } (l.work p none) := by
  have hst := h.standing
  have hend := h.ended
  rw [hp] at hst hend
  have hw : l.work p none = l := by
    simp [Ledger.work, hp]
  rw [hw]
  exact ⟨h.conserved, h.past, hst, hend⟩

/-- **A step of the processor keeps the account balanced.** -/
theorem Balanced.step {duration : StatusCall → Nat} {call : Option TimedCall}
    (h : Balanced p l) (hs : p.step duration = some (p', call)) :
    Balanced p' (l.work p call) := by
  unfold Pipeline.step at hs
  split at hs
  · rename_i hp
    rcases receive_cases p with ⟨b, q, hr, hi⟩ | ⟨hr, hd⟩ | ⟨hr, -, -⟩ <;> rw [hr] at hs
    · cases hs
      exact h.opened hp hi
    · cases hs
      exact h.stopped hp hd
    · cases hs
  · rename_i pending deadline hp
    rcases receive_cases p with ⟨b, q, hr, hi⟩ | ⟨hr, hd⟩ | ⟨hr, hi, -⟩ <;> rw [hr] at hs
    · cases hs
      exact h.joined hp hi
    · cases hs
      exact h.close hp hd.2.1 fun _ => hd
    · dsimp only at hs
      split at hs
      · cases hs
        exact h.close hp hi fun he => absurd he (by simp)
      · cases hs
  · rename_i final hp
    cases hs
    exact h.finished hp
  · rename_i c cs final hp
    cases hs
    refine h.called hp ?_
    split
    · exact .inl rfl
    · exact .inr ⟨_, rfl⟩
  · rename_i returns cs final hp
    split at hs
    · cases hs
      exact h.returned hp
    · cases hs
  · cases hs

/-- A queue that is drained stays as it is while nobody sends. -/
theorem Drained.not_granted {sender : ι} {b : Batch} (h : Drained p) :
    (sender, b) ∉ p.queue.granted := by
  intro hm
  have hp := BoundedQueue.mem_pending_of_granted hm
  rw [h.2.2] at hp
  exact absurd hp (by simp)

/-- **Every act of every party keeps the account balanced.** -/
theorem Balanced.act [DecidableEq ι] {a : Pipeline.Act ι} (h : Balanced p l)
    (ha : p.act l a = some (p', l')) : Balanced p' l' := by
  have hc := h.conserved
  cases a with
  | send sender b =>
    simp only [Pipeline.act] at ha
    split at ha
    · cases ha
    rename_i hsend
    split at ha
    · cases ha
      exact h
    have hopen : ¬ HasEnded p.phase := fun he => by simp [(h.ended he).1] at hsend
    rcases p.queue.offer_cases sender b with ⟨ho, -⟩ | ⟨-, -, ho⟩ | ⟨-, -, ho⟩
    · rw [ho] at ha
      cases ha
      exact h
    · rw [ho] at ha
      cases ha
      refine ⟨?_, h.past, h.standing, fun he => absurd he hopen⟩
      simp only [Ledger.accept, ← hc, List.append_assoc]
    · rw [ho] at ha
      cases ha
      exact ⟨hc, h.past, h.standing, fun he => absurd he hopen⟩
  | enter sender =>
    obtain ⟨q, hq, he⟩ := Option.map_eq_some_iff.mp ha
    cases he
    obtain ⟨b, hb, rfl⟩ := BoundedQueue.enter?_eq_some hq
    refine ⟨?_, h.past, h.standing, fun he => absurd hb (h.ended he).not_granted⟩
    simp only [Ledger.accept, List.drop_left, ← hc, List.append_assoc]
  | giveUp keep =>
    cases ha
    refine ⟨hc, h.past, h.standing, fun he => ?_⟩
    obtain ⟨hs, hi, hpend⟩ := h.ended he
    exact ⟨hs, hi, by simp [hpend]⟩
  | dropSenders =>
    cases ha
    exact ⟨hc, h.past, h.standing, fun he => ⟨rfl, (h.ended he).2⟩⟩
  | tick ms =>
    cases ha
    exact ⟨hc, h.past, h.standing, h.ended⟩
  | process duration =>
    obtain ⟨⟨p₁, call⟩, hs, he⟩ := Option.map_eq_some_iff.mp ha
    cases he
    exact h.step hs

/-- The account balances after any run. -/
theorem Balanced.run [DecidableEq ι] (acts : List (Pipeline.Act ι)) :
    ∀ {p : Pipeline ι} {l : Ledger}, Balanced p l → p.run l acts = some (p', l') →
      Balanced p' l' := by
  induction acts with
  | nil =>
    intro p l h hr
    cases hr
    exact h
  | cons a rest ih =>
    intro p l h hr
    obtain ⟨⟨p₁, l₁⟩, ha, hr⟩ := Option.bind_eq_some_iff.mp hr
    exact ih (h.act ha) hr

end Ledger

/-! ## 4. Once the senders are gone the processor comes to its end -/

namespace Pipeline

variable {ι : Type} {p p' : Pipeline ι}

/-- A batch that is received is taken out of the queue. -/
theorem take?_of_receive_batch {b : Batch} {q : BoundedQueue ι Batch}
    (h : p.receive = .batch b q) : p.queue.take? = some (b, q) := by
  unfold receive at h
  split at h
  · rename_i ht
    cases h
    exact ht
  · split at h <;> cases h

/-- A step of the processor touches the queue by a receipt only. -/
theorem step_frame {duration : StatusCall → Nat} {call : Option TimedCall}
    (h : p.step duration = some (p', call)) :
    p'.hasSenders = p.hasSenders ∧
      (p'.queue = p.queue ∨ ∃ b, p.queue.take? = some (b, p'.queue)) := by
  unfold step at h
  split at h
  · split at h
    · rename_i b q hr
      cases h
      exact ⟨rfl, .inr ⟨b, take?_of_receive_batch hr⟩⟩
    · cases h
      exact ⟨rfl, .inl rfl⟩
    · cases h
  · split at h
    · rename_i b q hr
      cases h
      exact ⟨rfl, .inr ⟨b, take?_of_receive_batch hr⟩⟩
    · cases h
      exact ⟨rfl, .inl rfl⟩
    · split at h
      · cases h
        exact ⟨rfl, .inl rfl⟩
      · cases h
  · cases h
    exact ⟨rfl, .inl rfl⟩
  · cases h
    exact ⟨rfl, .inl rfl⟩
  · split at h
    · cases h
      exact ⟨rfl, .inl rfl⟩
    · cases h
  · cases h

/-- Nobody is left to send: neither a sender nor anyone who waits with a batch. -/
def Abandoned (p : Pipeline ι) : Prop := p.hasSenders = false ∧ p.queue.pending = []

theorem Abandoned.step {duration : StatusCall → Nat} {call : Option TimedCall}
    (ha : p.Abandoned) (h : p.step duration = some (p', call)) : p'.Abandoned := by
  obtain ⟨hs, hq⟩ := step_frame h
  refine ⟨hs.trans ha.1, ?_⟩
  rcases hq with hq | ⟨b, hq⟩
  · rw [hq]
    exact ha.2
  · exact (BoundedQueue.take?_eq_some hq).2.1.trans ha.2

/-- Without senders there is always something to receive, if only the end. -/
theorem Abandoned.receive_ne (ha : p.Abandoned) : p.receive ≠ .nothing := by
  intro hr
  rcases Ledger.receive_cases p with ⟨b, q, h, -⟩ | ⟨h, -⟩ | ⟨-, -, h⟩
  · exact absurd (h.symm.trans hr) (by simp)
  · exact absurd (h.symm.trans hr) (by simp)
  · rcases h with h | h
    · exact absurd (h.symm.trans ha.1) (by simp)
    · exact h ha.2

/-- Without senders the processor waits for nothing but the clock. -/
theorem Abandoned.exists_step (ha : p.Abandoned) (hp : p.phase ≠ .stopped)
    (halarm : ∀ returns calls final, p.phase = .awaiting returns calls final →
      returns ≤ p.now) : ∃ p₁ call, p.step (fun _ => 0) = some (p₁, call) := by
  cases hph : p.phase with
  | idle =>
    cases hr : p.receive with
    | nothing => exact absurd hr ha.receive_ne
    | _ => simp [Pipeline.step, hph, hr]
  | collecting pending deadline =>
    cases hr : p.receive with
    | nothing => exact absurd hr ha.receive_ne
    | _ => simp [Pipeline.step, hph, hr]
  | calling calls final => cases calls <;> simp [Pipeline.step, hph]
  | awaiting returns calls final => simp [Pipeline.step, hph, halarm _ _ _ hph]
  | stopped => exact absurd hph hp

/-- A time at which no call is out any more. -/
theorem exists_alarm (p : Pipeline ι) :
    ∃ ms, ∀ returns calls final, p.phase = .awaiting returns calls final →
      returns ≤ p.now + ms := by
  cases hph : p.phase with
  | awaiting returns calls final =>
    refine ⟨returns, fun _ _ _ h => ?_⟩
    cases h
    exact Nat.le_add_left _ _
  | _ => exact ⟨0, fun _ _ _ h => absurd h (by simp)⟩

/-- **Without senders the processor stops**, by steps of its own and the passage of time. -/
theorem exists_run_stopped [DecidableEq ι] (p : Pipeline ι) (l : Ledger) (ha : p.Abandoned) :
    ∃ acts p' l', (∀ a ∈ acts, Act.isProcessing a = true) ∧ p.run l acts = some (p', l') ∧
      p'.phase = .stopped := by
  by_cases hp : p.phase = .stopped
  · exact ⟨[], p, l, by simp, rfl, hp⟩
  · obtain ⟨ms, hms⟩ := exists_alarm p
    have hat : Abandoned { p with now := p.now + ms } := ha
    obtain ⟨p₁, call, hs⟩ := hat.exists_step hp hms
    have hlt : p₁.work < p.work := work_step_lt (p := { p with now := p.now + ms }) hs
    have ha₁ : p₁.Abandoned := hat.step hs
    obtain ⟨acts, p', l', hown, hrun, hstop⟩ :=
      exists_run_stopped p₁ (l.work { p with now := p.now + ms } call) ha₁
    refine ⟨.tick ms :: .process 0 :: acts, p', l', ?_, ?_, hstop⟩
    · intro a hm
      simp only [List.mem_cons] at hm
      rcases hm with rfl | rfl | hm
      · rfl
      · rfl
      · exact hown a hm
    · simp only [run, act, Option.bind_some, hs, Option.map_some]
      exact hrun
termination_by p.work

/-! ## 5. Windows -/

/-- A queue of a capacity with an idle processor behind it. -/
def fresh (ι : Type) (capacity window now : Nat) : Pipeline ι where
  window := window
  queue := { capacity := capacity }
  now := now

/-- **The processor loses and doubles nothing.**  After any run the past windows are not empty and
have had exactly the calls they are owed; the open window is on its way to them; the batches of
all windows with those still in the queue are, in order, the accepted ones.  When the processor has
stopped, the past windows hold every accepted batch; and once the senders are gone it does stop,
whatever it is doing. -/
theorem windows_exact {ι : Type} [DecidableEq ι] (capacity window now : Nat)
    (acts : List (Act ι)) {p : Pipeline ι} {l : Ledger}
    (h : (fresh ι capacity window now).run {} acts = some (p, l)) :
    (∀ w ∈ l.past, w.batches ≠ [] ∧ IsDispatch w.batches w.calls) ∧
      (l.current.batches = [] ∧ l.current.calls = [] ∨ l.current.batches ≠ [] ∧
        ∃ rest, IsDispatch l.current.batches (l.current.calls ++ rest)) ∧
      l.past.flatMap Window.batches ++ l.current.batches ++ p.queue.items = l.accepted ∧
      (p.phase = .stopped →
        p.hasSenders = false ∧ l.past.flatMap Window.batches = l.accepted) ∧
      (p.hasSenders = false → p.queue.pending = [] →
        ∃ more p' l', (∀ a ∈ more, Act.isProcessing a = true) ∧
          p.run l more = some (p', l') ∧ p'.phase = .stopped) := by
  have hfresh : Ledger.Balanced (fresh ι capacity window now) {} :=
    ⟨rfl, by simp, rfl, fun he => absurd he (by simp [fresh, Ledger.HasEnded])⟩
  have hb : Ledger.Balanced p l := hfresh.run acts h
  refine ⟨hb.past, ?_, hb.conserved, ?_, fun hs hp => exists_run_stopped p l ⟨hs, hp⟩⟩
  · have hst := hb.standing
    cases hph : p.phase with
    | idle =>
      rw [hph] at hst
      have hcur : l.current = {} := hst
      exact .inl (by simp [hcur])
    | collecting pending deadline =>
      rw [hph] at hst
      obtain ⟨hne, hcalls, hr, ha⟩ := hst
      exact .inr ⟨hne, pending.calls, by rw [hcalls]; exact isDispatch_calls hr ha⟩
    | calling calls final =>
      rw [hph] at hst
      exact .inr ⟨hst.1, calls, hst.2⟩
    | awaiting returns calls final =>
      rw [hph] at hst
      exact .inr ⟨hst.1, calls, hst.2⟩
    | stopped =>
      rw [hph] at hst
      have hcur : l.current = {} := hst
      exact .inl (by simp [hcur])
  · intro hph
    have hst := hb.standing
    have hd := hb.ended (by rw [hph]; trivial)
    have hc := hb.conserved
    rw [hph] at hst
    have hcur : l.current = {} := hst
    exact ⟨hd.1, by simpa [hcur, hd.2.1] using hc⟩

/-- A batch that names one application. -/
def sampleBatch (name : String) : Batch where
  applications := {
    entries := [(⟨{}, "default", name⟩, { «namespace» := "default", name := name })]
    ascending := List.pairwise_singleton _ _ }

/-- Two senders share a queue with room for one batch and leave while the window is open: the
processor stops with both batches in one window. -/
theorem windows_exact_two_senders :
    let acts : List (Act Nat) :=
      [.send 0 (sampleBatch "shop"), .send 1 (sampleBatch "mall"), .process 0, .enter 1,
        .process 0, .dropSenders, .process 0, .process 5, .tick 5, .process 0, .process 5,
        .tick 7, .process 0, .process 0]
    ∃ p l, (fresh Nat 1 100 0).run {} acts = some (p, l) ∧ p.phase = .stopped ∧
      l.past.flatMap Window.batches = [sampleBatch "shop", sampleBatch "mall"] := by
  intro acts
  refine ⟨_, _, rfl, rfl, ?_⟩
  exact ((windows_exact 1 100 0 acts rfl).2.2.2.1 rfl).2

end Pipeline

end AppWatch
