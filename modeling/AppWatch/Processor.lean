/-
# The batch processor

The processor opens a window when it takes a first batch.  Everything it takes before the window
ends is merged; then it makes the callbacks of the merged batch, the changed resources before the
applications, each in ascending key order, and waits for each to return.  Only then does it take
the next batch.  Once the senders are gone and the queue is empty it finishes the window it is in
and stops.

Time is a count of milliseconds.  A receipt is tried before the deadline is looked at, so a batch
that is there when the window ends still belongs to it.

Every step makes `Pipeline.work` smaller (`Pipeline.work_step_lt`), so `settle`, which steps until
the processor waits, needs no bound of its own.
-/
import AppWatch.Batch
import AppWatch.BoundedQueue

namespace AppWatch

/-! ## 1. Callbacks -/

/-- A call that the processor makes. -/
inductive StatusCall where
  | componentChanged (key : ResourceKey) (resource : ResourceInfo)
  | calculateStatus (key : ResourceKey) (application : ResourceInfo)
deriving DecidableEq

/-- A call with the time at which it was made. -/
structure TimedCall where
  time : Nat
  call : StatusCall
deriving DecidableEq

/-- The calls of a batch in the order in which they are made. -/
def Batch.calls (b : Batch) : List StatusCall :=
  (b.resources.entries.map fun e => .componentChanged e.1 e.2) ++
    b.applications.entries.map fun e => .calculateStatus e.1 e.2

/-- How many entries a batch has. -/
def Batch.size (b : Batch) : Nat := b.applications.size + b.resources.size

theorem Batch.length_calls (b : Batch) : b.calls.length = b.size := by
  simp [calls, size, SortedMap.size, Nat.add_comm]

/-! ## 2. The processor and its queue -/

/-- What the processor is doing. -/
inductive Phase where
  /-- Waiting for the first batch of a window. -/
  | idle
  /-- In a window that ends at the deadline. -/
  | collecting (pending : Batch) (deadline : Nat)
  /-- About to make the remaining calls of a window. -/
  | calling (calls : List StatusCall) (final : Bool)
  /-- Waiting until a call returns. -/
  | awaiting (returns : Nat) (calls : List StatusCall) (final : Bool)
  /-- Not running. -/
  | stopped
deriving DecidableEq

/-- The batch queue with the processor behind it, under a clock in milliseconds. -/
structure Pipeline (ι : Type) where
  window : Nat := 0
  queue : BoundedQueue ι Batch
  /-- Whether anybody may still send. -/
  hasSenders : Bool := true
  phase : Phase := .idle
  now : Nat := 0

namespace Pipeline

variable {ι : Type}

/-- The outcome of a receipt: a batch, the end of all batches, or neither yet. -/
inductive Receipt (ι : Type) where
  | batch (b : Batch) (queue : BoundedQueue ι Batch)
  | ended
  | nothing

/-- What the processor receives at this moment. -/
def receive (p : Pipeline ι) : Receipt ι :=
  match p.queue.take? with
  | some (b, q) => .batch b q
  | none => if p.hasSenders ∨ !p.queue.pending.isEmpty then .nothing else .ended

/-- One step of the processor, with the call it makes in it; `none` when it waits.  `duration`
says how long a call takes to return. -/
def step (duration : StatusCall → Nat) (p : Pipeline ι) :
    Option (Pipeline ι × Option TimedCall) :=
  match p.phase with
  | .idle =>
    match p.receive with
    | .batch b q => some ({ p with queue := q, phase := .collecting b (p.now + p.window) }, none)
    | .ended => some ({ p with phase := .stopped }, none)
    | .nothing => none
  | .collecting pending deadline =>
    match p.receive with
    | .batch b q =>
      some ({ p with queue := q, phase := .collecting (pending.merge b) deadline }, none)
    | .ended => some ({ p with phase := .calling pending.calls true }, none)
    | .nothing =>
      if deadline ≤ p.now then some ({ p with phase := .calling pending.calls false }, none)
      else none
  | .calling [] final => some ({ p with phase := if final then .stopped else .idle }, none)
  | .calling (c :: cs) final =>
    let wait := duration c
    let phase := if wait = 0 then .calling cs final else .awaiting (p.now + wait) cs final
    some ({ p with phase := phase }, some ⟨p.now, c⟩)
  | .awaiting returns cs final =>
    if returns ≤ p.now then some ({ p with phase := .calling cs final }, none) else none
  | .stopped => none

/-- The time for which the processor waits, if it waits for a time. -/
def alarm? (p : Pipeline ι) : Option Nat :=
  match p.phase with
  | .collecting _ deadline => some deadline
  | .awaiting returns _ _ => some returns
  | _ => none

/-- Whether the processor has not stopped. -/
def isRunning (p : Pipeline ι) : Bool := p.phase ≠ .stopped

/-- What becomes of a batch that is offered without waiting. -/
inductive Delivery where
  /-- It is in the queue, or it was empty and dropped. -/
  | done
  /-- There is no room for it. -/
  | full
  /-- The processor is gone. -/
  | refused
deriving DecidableEq

/-- Offers a batch without waiting; empty ones are dropped. -/
def deliver (p : Pipeline ι) (sender : ι) (b : Batch) : Delivery × Pipeline ι :=
  if b.isEmpty then (.done, p)
  else match p.queue.offer sender b with
    | .accepted q => (.done, { p with queue := q })
    | .waits _ => (.full, p)
    | .refused => (.refused, p)

/-- Stops the processor at once; with it the receiver of the queue is gone. -/
def abort (p : Pipeline ι) : Pipeline ι := { p with queue := p.queue.close, phase := .stopped }

/-! ## 3. Every step is progress -/

/-- What is left to do in a phase. -/
def phaseWork : Phase → Nat
  | .idle => 1
  | .collecting pending _ => 2 * pending.size + 4
  | .calling calls _ => 2 * calls.length + 2
  | .awaiting _ calls _ => 2 * calls.length + 3
  | .stopped => 0

/-- What is left to do for the batches in the queue. -/
def queueWork : List Batch → Nat
  | [] => 0
  | b :: bs => 2 * b.size + 4 + queueWork bs

/-- What is left to do for the batches in the queue and for the current window. -/
def work (p : Pipeline ι) : Nat := queueWork p.queue.items + phaseWork p.phase

end Pipeline

theorem Entries.length_insert_le [Ord κ] (k : κ) (v : α) (l : List (κ × α)) :
    (Entries.insert k v l).length ≤ l.length + 1 := by
  fun_induction Entries.insert k v l <;> simp_all

theorem SortedMap.size_insertMany_le [Ord κ] [Std.TransOrd κ] [Std.LawfulEqOrd κ]
    (m : SortedMap κ α) (l : List (κ × α)) : (m.insertMany l).size ≤ m.size + l.length := by
  induction l generalizing m with
  | nil => simp [insertMany]
  | cons e l ih =>
    have h := ih (m.insert e.1 e.2)
    have h' : (m.insert e.1 e.2).size ≤ m.size + 1 := Entries.length_insert_le ..
    simp only [insertMany, List.foldl_cons, List.length_cons] at h ⊢
    omega

theorem Batch.size_merge_le (b c : Batch) : (b.merge c).size ≤ b.size + c.size := by
  have h₁ := SortedMap.size_insertMany_le b.applications c.applications.entries
  have h₂ := SortedMap.size_insertMany_le b.resources c.resources.entries
  simp only [size, merge, SortedMap.merge, SortedMap.size] at *
  omega

namespace Pipeline

variable {ι : Type}

theorem items_of_receive_batch {p : Pipeline ι} {b : Batch} {q : BoundedQueue ι Batch}
    (h : p.receive = .batch b q) : p.queue.items = b :: q.items := by
  unfold receive at h
  split at h
  · next b' q' ht =>
    cases h
    unfold BoundedQueue.take? at ht
    split at ht
    · cases ht
    · next hi =>
      cases ht
      exact hi
  · split at h <;> cases h

/-- A step leaves less to do than there was. -/
theorem work_step_lt {duration : StatusCall → Nat} {p p' : Pipeline ι} {c : Option TimedCall}
    (h : p.step duration = some (p', c)) : p'.work < p.work := by
  unfold step at h
  split at h
  · next hp =>
    split at h
    · next b q hr =>
      cases h
      simp only [work, items_of_receive_batch hr, hp, phaseWork, queueWork]
      omega
    · cases h
      simp [work, hp, phaseWork]
    · cases h
  · next pending deadline hp =>
    split at h
    · next b q hr =>
      cases h
      have := Batch.size_merge_le pending b
      simp only [work, items_of_receive_batch hr, hp, phaseWork, queueWork]
      omega
    · cases h
      simp [work, hp, phaseWork, Batch.length_calls]
    · split at h
      · cases h
        simp [work, hp, phaseWork, Batch.length_calls]
      · cases h
  · next final hp =>
    cases h
    cases final <;> simp [work, hp, phaseWork]
  · next d cs final hp =>
    cases h
    by_cases hd : duration d = 0
    · simp [work, hp, hd, phaseWork]
    · simp only [work, hp, hd, phaseWork, List.length_cons, ↓reduceIte]
      omega
  · next returns cs final hp =>
    split at h
    · cases h
      simp [work, hp, phaseWork]
    · cases h
  · cases h

/-! ## 4. Running -/

/-- Steps until the processor waits, with the calls it makes on the way. -/
def settle (duration : StatusCall → Nat) (p : Pipeline ι) : Pipeline ι × List TimedCall :=
  match _h : p.step duration with
  | none => (p, [])
  | some (p', c) =>
    let r := settle duration p'
    (r.1, c.toList ++ r.2)
termination_by p.work
decreasing_by exact work_step_lt _h

/-- Lets time pass up to `target`, going from one alarm to the next, at most `alarms` of them. -/
def runUntil (duration : StatusCall → Nat) (target : Nat) :
    (alarms : Nat) → Pipeline ι → Pipeline ι × List TimedCall
  | 0, p => ({ p with now := target }, [])
  | alarms + 1, p =>
    match p.alarm? with
    | some t =>
      if t ≤ target then
        let r := settle duration { p with now := max p.now t }
        let r' := runUntil duration target alarms r.1
        (r'.1, r.2 ++ r'.2)
      else ({ p with now := target }, [])
    | none => ({ p with now := target }, [])

/-- Lets time pass; each alarm on the way is progress, so there are no more of them than there is
work. -/
def sleep (duration : StatusCall → Nat) (p : Pipeline ι) (ms : Nat) :
    Pipeline ι × List TimedCall :=
  runUntil duration (p.now + ms) p.work p

end Pipeline

end AppWatch
