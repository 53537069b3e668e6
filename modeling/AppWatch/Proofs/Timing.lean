/-
# When windows open and close

Only the clock and the callbacks take time here.  So a run keeps to time (`Pipeline.timedRun`) if
the clock goes on only while the processor waits, and never past what it waits for: the end of the
window or the return of a call.  What is seen of a run are its moments: a batch is taken, a window
is closed, a call is made, the calls of a window are over.

A `TimedWindow` tells of one window when it opened, what it took and when, when it closed and which
calls followed.  The moments of a run are those of such windows, one after the other
(`KeepsTime.complete`); of the last one a part may still lie ahead.  The invariant behind it,
`KeepsTime`, has a case for each thing the processor can be doing: the deadline is that of the
opening in the one, the calls made so far take until now in the other.

Nothing is said of a clock that stands still, and none does: what the processor does by itself when
time passes, `settle` and `sleep`, is a run that keeps to time (`proceeds_sleep`).
-/
import AppWatch.Proofs.Windows

namespace AppWatch

namespace Pipeline

variable {ι : Type}

/-! ## 1. Runs that keep to time -/

instance (p : Pipeline ι) : Decidable (Ledger.Drained p) :=
  inferInstanceAs (Decidable (_ ∧ _ ∧ _))

/-- What can be seen of the processor. -/
inductive Deed where
  /-- It takes a batch from the queue. -/
  | takes (b : Batch)
  /-- It closes a window, and the queue is drained or not. -/
  | closes (drained : Bool)
  /-- It makes a call, which takes so long. -/
  | calls (c : StatusCall) (duration : Nat)
  /-- The last call of a window has returned. -/
  | finishes

structure Moment where
  time : Nat
  deed : Deed

/-- What is seen when a step leads from one state to another. -/
def momentsBetween (p p' : Pipeline ι) (call : Option TimedCall) (duration : Nat) : List Moment :=
  match p.phase, p'.phase with
  | .collecting _ _, .calling _ _ => [⟨p.now, .closes (Ledger.Drained p)⟩]
  | .calling _ _, .idle | .calling _ _, .stopped => [⟨p.now, .finishes⟩]
  | _, _ =>
    let taken := p.queue.items.take (p.queue.items.length - p'.queue.items.length)
    taken.map (fun b => ⟨p.now, .takes b⟩) ++
      call.toList.map fun c => ⟨c.time, .calls c.call duration⟩

/-- What is seen of the processor in an act. -/
def moments (p : Pipeline ι) : Act ι → List Moment
  | .process duration =>
    match p.step fun _ => duration with
    | some (p', call) => p.momentsBetween p' call duration
    | none => []
  | _ => []

/-- Time passes only while the processor waits, and not past the time for which it waits. -/
def isOnTime (p : Pipeline ι) : Act ι → Bool
  | .tick ms => (p.step fun _ => 0).isNone && p.alarm?.all fun t => p.now + ms ≤ t
  | _ => true

/-- The state after some acts that keep to time, with what is seen of the processor. -/
def timedRun [DecidableEq ι] (p : Pipeline ι) : List (Act ι) → Option (Pipeline ι × List Moment)
  | [] => some (p, [])
  | a :: rest =>
    if p.isOnTime a then
      (p.act {} a).bind fun (p', _) =>
        (p'.timedRun rest).map fun (p'', log) => (p'', p.moments a ++ log)
    else none

variable {p p' p'' : Pipeline ι} {l l' : Ledger} {a : Act ι} {duration : StatusCall → Nat}
  {call : Option TimedCall} {log log' : List Moment}

theorem timedRun_cons [DecidableEq ι] {rest : List (Act ι)} (htime : p.isOnTime a = true)
    (hact : p.act {} a = some (p', l)) (hrest : p'.timedRun rest = some (p'', log)) :
    p.timedRun (a :: rest) = some (p'', p.moments a ++ log) := by
  simp [timedRun, htime, hact, hrest]

theorem of_timedRun_cons [DecidableEq ι] {rest : List (Act ι)}
    (h : p.timedRun (a :: rest) = some (p'', log)) :
    ∃ p' l log', p.isOnTime a = true ∧ p.act {} a = some (p', l) ∧
      p'.timedRun rest = some (p'', log') ∧ log = p.moments a ++ log' := by
  simp only [timedRun] at h
  split at h
  · next htime =>
    obtain ⟨⟨p', l⟩, hact, hmap⟩ := Option.bind_eq_some_iff.mp h
    obtain ⟨⟨p₂, log'⟩, hrun, he⟩ := Option.map_eq_some_iff.mp hmap
    cases he
    exact ⟨p', l, log', htime, hact, hrun, rfl⟩
  · cases h

theorem timedRun_append [DecidableEq ι] {acts rest : List (Act ι)}
    (h : p.timedRun acts = some (p', log)) (h' : p'.timedRun rest = some (p'', log')) :
    p.timedRun (acts ++ rest) = some (p'', log ++ log') := by
  induction acts generalizing p log with
  | nil =>
    cases h
    exact h'
  | cons a acts ih =>
    obtain ⟨p₁, l, log₁, htime, hact, hrun, rfl⟩ := of_timedRun_cons h
    rw [List.cons_append, List.append_assoc]
    exact timedRun_cons htime hact (ih hrun)

/-! ## 2. What a step can be -/

/-- The steps of the processor, each with what it finds, the call made in it and what is seen. -/
inductive Advance (duration : Nat) (p : Pipeline ι) :
    Pipeline ι → Option TimedCall → List Moment → Prop
  | opens {b : Batch} {q : BoundedQueue ι Batch} (hphase : p.phase = .idle) :
      Advance duration p { p with queue := q, phase := .collecting b (p.now + p.window) } none
        [⟨p.now, .takes b⟩]
  | stops (hphase : p.phase = .idle) : Advance duration p { p with phase := .stopped } none []
  | joins {pending b : Batch} {deadline : Nat} {q : BoundedQueue ι Batch}
      (hphase : p.phase = .collecting pending deadline) :
      Advance duration p { p with queue := q, phase := .collecting (pending.merge b) deadline } none
        [⟨p.now, .takes b⟩]
  | closes {pending : Batch} {deadline : Nat} (hphase : p.phase = .collecting pending deadline)
      (hend : Ledger.Drained p ∨ deadline ≤ p.now) :
      Advance duration p { p with phase := .calling pending.calls (Ledger.Drained p) } none
        [⟨p.now, .closes (Ledger.Drained p)⟩]
  | calls {c : StatusCall} {cs : List StatusCall} {final : Bool}
      (hphase : p.phase = .calling (c :: cs) final) :
      Advance duration p
        { p with
          phase := if duration = 0 then .calling cs final
            else .awaiting (p.now + duration) cs final }
        (some ⟨p.now, c⟩) [⟨p.now, .calls c duration⟩]
  | returns {t : Nat} {cs : List StatusCall} {final : Bool}
      (hphase : p.phase = .awaiting t cs final) (hdue : t ≤ p.now) :
      Advance duration p { p with phase := .calling cs final } none []
  | finishes {final : Bool} (hphase : p.phase = .calling [] final) :
      Advance duration p { p with phase := if final then .stopped else .idle } none
        [⟨p.now, .finishes⟩]

/-- What is seen when a batch is taken. -/
theorem momentsBetween_take {b : Batch} {q : BoundedQueue ι Batch} {pending : Batch}
    {deadline duration : Nat} (hphase : ∀ calls final, p.phase ≠ .calling calls final)
    (hitems : p.queue.items = b :: q.items) :
    p.momentsBetween { p with queue := q, phase := .collecting pending deadline } none duration =
      [⟨p.now, .takes b⟩] := by
  cases hp : p.phase with
  | calling calls final => exact absurd hp (hphase calls final)
  | _ => simp [momentsBetween, hp, hitems]

theorem advance_of_step {duration : Nat} (h : p.step (fun _ => duration) = some (p', call)) :
    Advance duration p p' call (p.momentsBetween p' call duration) := by
  unfold step at h
  split at h
  · next hphase =>
    rcases Ledger.receive_cases p with ⟨b, q, hr, hitems⟩ | ⟨hr, -⟩ | ⟨hr, -, -⟩ <;> rw [hr] at h
    · cases h
      rw [momentsBetween_take (by simp [hphase]) hitems]
      exact .opens hphase
    · cases h
      have hstops : Advance duration p _ none [] := .stops hphase
      simpa [momentsBetween, hphase] using hstops
    · cases h
  · next pending deadline hphase =>
    have hclose : Ledger.Drained p ∨ deadline ≤ p.now → Advance duration p
        { p with phase := .calling pending.calls (Ledger.Drained p) } none
        (p.momentsBetween { p with phase := .calling pending.calls (Ledger.Drained p) } none
          duration) := by
      intro hend
      have hcloses : Advance duration p _ none _ := .closes hphase hend
      simpa [momentsBetween, hphase] using hcloses
    rcases Ledger.receive_cases p with ⟨b, q, hr, hitems⟩ | ⟨hr, hdrained⟩ | ⟨hr, -, hmore⟩ <;>
      rw [hr] at h
    · cases h
      rw [momentsBetween_take (by simp [hphase]) hitems]
      exact .joins hphase
    · cases h
      simpa only [decide_eq_true hdrained] using hclose (.inl hdrained)
    · dsimp only at h
      split at h
      · next hdeadline =>
        cases h
        have hopen : ¬ Ledger.Drained p := by
          rintro ⟨hsenders, -, hpending⟩
          simp [hsenders, hpending] at hmore
        simpa only [decide_eq_false hopen] using hclose (.inr hdeadline)
      · cases h
  · next final hphase =>
    cases h
    have hseen : p.momentsBetween { p with phase := if final then .stopped else .idle } none
        duration = [⟨p.now, .finishes⟩] := by
      cases final <;> simp [momentsBetween, hphase]
    rw [hseen]
    exact .finishes hphase
  · next c cs final hphase =>
    cases h
    have hseen : p.momentsBetween
        { p with
          phase := if duration = 0 then .calling cs final
            else .awaiting (p.now + duration) cs final }
        (some ⟨p.now, c⟩) duration = [⟨p.now, .calls c duration⟩] := by
      by_cases hd : duration = 0 <;> simp [momentsBetween, hphase, hd]
    rw [hseen]
    exact .calls hphase
  · next hphase =>
    split at h
    · next hdue =>
      cases h
      have hreturns : Advance duration p _ none [] := .returns hphase hdue
      simpa [momentsBetween, hphase] using hreturns
    · cases h
  · cases h

theorem Advance.now_eq {duration : Nat} {seen : List Moment}
    (h : Advance duration p p' call seen) : p'.now = p.now := by
  cases h <;> rfl

theorem Advance.window_eq {duration : Nat} {seen : List Moment}
    (h : Advance duration p p' call seen) : p'.window = p.window := by
  cases h <;> rfl

/-- The senders leave the processor and the clock as they are. -/
theorem act_frame [DecidableEq ι] (h : p.act l a = some (p', l')) (ha : a.isProcessing = false) :
    p'.phase = p.phase ∧ p'.now = p.now ∧ p'.window = p.window := by
  cases a with
  | send sender b =>
    simp only [act] at h
    split at h
    · cases h
    · split at h
      · cases h
        exact ⟨rfl, rfl, rfl⟩
      · split at h <;> cases h <;> exact ⟨rfl, rfl, rfl⟩
  | enter sender =>
    obtain ⟨q, -, he⟩ := Option.map_eq_some_iff.mp h
    cases he
    exact ⟨rfl, rfl, rfl⟩
  | giveUp keep =>
    cases h
    exact ⟨rfl, rfl, rfl⟩
  | dropSenders =>
    cases h
    exact ⟨rfl, rfl, rfl⟩
  | tick ms => cases ha
  | process d => cases ha

theorem window_act [DecidableEq ι] (h : p.act l a = some (p', l')) : p'.window = p.window := by
  cases a with
  | tick ms =>
    cases h
    rfl
  | process d =>
    obtain ⟨⟨p₁, call⟩, hstep, he⟩ := Option.map_eq_some_iff.mp h
    cases he
    exact (advance_of_step hstep).window_eq
  | _ => exact (act_frame h rfl).2.2

end Pipeline

/-! ## 3. Windows in time -/

open Pipeline (Moment)

/-- A window with its times. -/
structure TimedWindow where
  opened : Nat
  /-- The batch it was opened with. -/
  first : Batch
  /-- The batches that were taken later, and when. -/
  later : List (Nat × Batch) := []
  closed : Nat
  /-- Whether it was found at the closing that the queue is drained for good. -/
  drained : Bool
  /-- The calls that were made, and how long each took. -/
  calls : List (StatusCall × Nat) := []

namespace TimedWindow

/-- The batches of a window in one. -/
def batch (w : TimedWindow) : Batch := w.later.foldl (fun b x => b.merge x.2) w.first

/-- When calls have returned that are made from some time on, one after the other. -/
def returnTime (time : Nat) (cs : List (StatusCall × Nat)) : Nat :=
  cs.foldl (fun t c => t + c.2) time

/-- When the calls of the window have returned. -/
def ended (w : TimedWindow) : Nat := returnTime w.closed w.calls

/-- What is seen of a window until it is closed. -/
def takings (w : TimedWindow) : List Moment :=
  ⟨w.opened, .takes w.first⟩ :: w.later.map fun x => ⟨x.1, .takes x.2⟩

/-- What is seen of calls that are made one after the other, each as soon as the one before it has
returned. -/
def callsFrom (time : Nat) : List (StatusCall × Nat) → List Moment
  | [] => []
  | (c, duration) :: rest => ⟨time, .calls c duration⟩ :: callsFrom (time + duration) rest

/-- What is seen of a window until its last call has been made. -/
def begun (w : TimedWindow) : List Moment :=
  w.takings ++ ⟨w.closed, .closes w.drained⟩ :: callsFrom w.closed w.calls

/-- **What is seen of a window**: batches are taken, the window is closed, the calls follow, each
after the one before it, and when the last has returned the window is over. -/
def moments (w : TimedWindow) : List Moment := w.begun ++ [⟨w.ended, .finishes⟩]

/-- A window takes batches only while it is open, closes at its deadline at the latest, and earlier
only if the queue is drained. -/
structure Timely (window : Nat) (w : TimedWindow) : Prop where
  taken : ∀ x ∈ w.later, w.opened ≤ x.1 ∧ x.1 ≤ w.closed
  closed : w.opened ≤ w.closed ∧ w.closed ≤ w.opened + window
  early : w.closed < w.opened + window → w.drained = true

/-- Windows, one after the other: each keeps to its times and makes the calls of its batches, and
the next is opened only when these have returned, and not at all once the queue was drained. -/
structure Succession (window : Nat) (ws : List TimedWindow) : Prop where
  timely : ∀ w ∈ ws, w.Timely window
  called : ∀ w ∈ ws, w.calls.map Prod.fst = w.batch.calls
  follows : ws.Pairwise fun w w' => w.ended ≤ w'.opened ∧ w.drained = false

variable {window : Nat} {w : TimedWindow} {ws : List TimedWindow}

theorem succession_nil (window : Nat) : Succession window [] := ⟨by simp, by simp, .nil⟩

/-- A further window follows the earlier ones. -/
theorem Succession.concat (h : Succession window ws) (hw : w.Timely window)
    (hcalls : w.calls.map Prod.fst = w.batch.calls)
    (hbefore : ∀ v ∈ ws, v.ended ≤ w.opened ∧ v.drained = false) :
    Succession window (ws ++ [w]) where
  timely v hv := by
    rcases List.mem_append.mp hv with hv | hv
    · exact h.timely v hv
    · rw [List.mem_singleton.mp hv]
      exact hw
  called v hv := by
    rcases List.mem_append.mp hv with hv | hv
    · exact h.called v hv
    · rw [List.mem_singleton.mp hv]
      exact hcalls
  follows := by
    refine List.pairwise_append.mpr ⟨h.follows, List.pairwise_singleton _ _, fun v hv w' hw' => ?_⟩
    rw [List.mem_singleton.mp hw']
    exact hbefore v hv

@[simp] theorem returnTime_nil (time : Nat) : returnTime time [] = time := rfl

@[simp] theorem returnTime_concat (time : Nat) (cs : List (StatusCall × Nat))
    (c : StatusCall × Nat) : returnTime time (cs ++ [c]) = returnTime time cs + c.2 :=
  List.foldl_concat ..

theorem le_returnTime (time : Nat) (cs : List (StatusCall × Nat)) : time ≤ returnTime time cs := by
  induction cs generalizing time with
  | nil => exact Nat.le_refl _
  | cons c cs ih => exact Nat.le_trans (Nat.le_add_right _ _) (ih _)

theorem callsFrom_append (time : Nat) (cs cs' : List (StatusCall × Nat)) :
    callsFrom time (cs ++ cs') = callsFrom time cs ++ callsFrom (returnTime time cs) cs' := by
  induction cs generalizing time with
  | nil => rfl
  | cons c cs ih => exact congrArg _ (ih (time + c.2))

/-! ## 4. The invariant -/

variable {window now : Nat} {log : List Moment} {past : List TimedWindow} {w : TimedWindow}
  {cs : List StatusCall}

/-- What was seen are the moments of past windows and the takings of an open one. -/
structure Collecting (window now : Nat) (log : List Moment) (past : List TimedWindow)
    (w : TimedWindow) : Prop where
  succession : Succession window past
  before : ∀ v ∈ past, v.ended ≤ w.opened ∧ v.drained = false
  seen : log = past.flatMap moments ++ w.takings
  within : w.opened ≤ now ∧ now ≤ w.opened + window
  taken : ∀ x ∈ w.later, w.opened ≤ x.1 ∧ x.1 ≤ now

/-- What was seen are the moments of past windows and those of a closed one, which still owes some
calls. -/
structure Calling (window : Nat) (log : List Moment) (past : List TimedWindow) (w : TimedWindow)
    (owed : List StatusCall) : Prop where
  succession : Succession window past
  before : ∀ v ∈ past, v.ended ≤ w.opened ∧ v.drained = false
  seen : log = past.flatMap moments ++ w.begun
  timely : w.Timely window
  called : w.calls.map Prod.fst ++ owed = w.batch.calls

/-- A first batch opens a window. -/
theorem collecting_open (hpast : Succession window past)
    (hbefore : ∀ v ∈ past, v.ended ≤ now ∧ v.drained = false) (b : Batch) :
    Collecting window now (past.flatMap moments ++ [⟨now, .takes b⟩]) past
      { opened := now, first := b, closed := now, drained := false } where
  succession := hpast
  before := hbefore
  seen := rfl
  within := ⟨Nat.le_refl _, Nat.le_add_right _ _⟩
  taken _ hx := absurd hx List.not_mem_nil

/-- A further batch joins the open window. -/
theorem Collecting.join (h : Collecting window now log past w) (b : Batch) :
    Collecting window now (log ++ [⟨now, .takes b⟩]) past
      { w with later := w.later ++ [(now, b)] } where
  succession := h.succession
  before := h.before
  seen := by simp [h.seen, takings]
  within := h.within
  taken x hx := by
    rcases List.mem_append.mp hx with hx | hx
    · exact h.taken x hx
    · rw [List.mem_singleton.mp hx]
      exact ⟨h.within.1, Nat.le_refl _⟩

/-- The open window is closed at its deadline, or because the queue is drained. -/
theorem Collecting.close {drained : Bool} (h : Collecting window now log past w)
    (hend : drained = true ∨ w.opened + window ≤ now) :
    Calling window (log ++ [⟨now, .closes drained⟩]) past
      { w with closed := now, drained := drained, calls := [] } w.batch.calls where
  succession := h.succession
  before := h.before
  seen := by simp [h.seen, begun, takings, callsFrom]
  timely := by
    refine ⟨h.taken, h.within, fun hearly => hend.resolve_right ?_⟩
    simp only at hearly
    omega
  called := rfl

/-- The closed window makes its next call. -/
theorem Calling.call {c : StatusCall} (h : Calling window log past w (c :: cs)) (duration : Nat) :
    Calling window (log ++ [⟨w.ended, .calls c duration⟩]) past
      { w with calls := w.calls ++ [(c, duration)] } cs where
  succession := h.succession
  before := h.before
  seen := by simp [h.seen, begun, takings, callsFrom_append, callsFrom, ended]
  timely := ⟨h.timely.taken, h.timely.closed, h.timely.early⟩
  called := by
    have hcalled := h.called
    simpa [batch] using hcalled

/-- A window that owes no more calls is past when the last has returned. -/
theorem Calling.finish (h : Calling window log past w []) :
    Succession window (past ++ [w]) ∧
      log ++ [⟨w.ended, .finishes⟩] = (past ++ [w]).flatMap moments := by
  have hcalled := h.called
  rw [List.append_nil] at hcalled
  exact ⟨h.succession.concat h.timely hcalled h.before, by simp [h.seen, moments]⟩

/-- By then all windows have ended. -/
theorem Calling.ended_le {owed : List StatusCall} (h : Calling window log past w owed) :
    ∀ v ∈ past ++ [w], v.ended ≤ w.ended := by
  intro v hv
  rcases List.mem_append.mp hv with hv | hv
  · have hbefore := (h.before v hv).1
    have hopen := h.timely.closed.1
    have hcalls : w.closed ≤ w.ended := le_returnTime w.closed w.calls
    omega
  · exact Nat.le_of_eq (congrArg ended (List.mem_singleton.mp hv))

/-- A window whose calls are made can be completed: what is missing of it lies ahead. -/
theorem Calling.complete {owed : List StatusCall} (h : Calling window log past w owed) :
    ∃ windows ahead, windows.flatMap moments = log ++ ahead ∧
      (∀ m ∈ ahead, w.ended ≤ m.time) ∧ Succession window windows := by
  induction owed generalizing log w with
  | nil =>
    obtain ⟨hpast, hseen⟩ := h.finish
    exact ⟨past ++ [w], [⟨w.ended, .finishes⟩], hseen.symm, by simp, hpast⟩
  | cons c owed ih =>
    -- the next call returns at once
    obtain ⟨windows, ahead, hseen, htimes, hwindows⟩ := ih (h.call 0)
    have hended : ({ w with calls := w.calls ++ [(c, 0)] } : TimedWindow).ended = w.ended := by
      simp [ended]
    rw [hended] at htimes
    refine ⟨windows, ⟨w.ended, .calls c 0⟩ :: ahead, by simp [hseen], fun m hm => ?_, hwindows⟩
    rcases List.mem_cons.mp hm with rfl | hm
    · exact Nat.le_refl _
    · exact htimes m hm

end TimedWindow

namespace Pipeline

open TimedWindow (Succession Collecting Calling)

variable {ι : Type} {p p' : Pipeline ι} {l l' : Ledger} {a : Act ι} {window now : Nat}
  {log log' seen : List Moment}

/-- What was seen up to now belongs to windows that keep to time, and the last of them stands as the
phase of the processor says. -/
def KeepsTime (window now : Nat) (log : List Moment) : Phase → Prop
  | .idle => ∃ past, Succession window past ∧ log = past.flatMap TimedWindow.moments ∧
      ∀ v ∈ past, v.ended ≤ now ∧ v.drained = false
  | .collecting pending deadline => ∃ past w, Collecting window now log past w ∧
      pending = w.batch ∧ deadline = w.opened + window
  | .calling cs final => ∃ past w, Calling window log past w cs ∧ final = w.drained ∧
      now = w.ended
  | .awaiting t cs final => ∃ past w, Calling window log past w cs ∧ final = w.drained ∧
      t = w.ended ∧ now ≤ t
  | .stopped => ∃ past, Succession window past ∧ log = past.flatMap TimedWindow.moments

/-- **A step of the processor goes on with its window**, opens one or is the end of one. -/
theorem KeepsTime.advance {duration : Nat} {call : Option TimedCall}
    (h : KeepsTime window p.now log p.phase) (hwindow : p.window = window)
    (hs : Advance duration p p' call seen) :
    KeepsTime window p'.now (log ++ seen) p'.phase := by
  cases hs with
  | @opens b q hphase =>
    rw [hphase] at h
    obtain ⟨past, hpast, rfl, hbefore⟩ := h
    exact ⟨past, _, TimedWindow.collecting_open hpast hbefore b, rfl, by rw [hwindow]⟩
  | stops hphase =>
    rw [hphase] at h
    obtain ⟨past, hpast, rfl, -⟩ := h
    exact ⟨past, hpast, List.append_nil _⟩
  | @joins pending b deadline q hphase =>
    rw [hphase] at h
    obtain ⟨past, w, hw, rfl, rfl⟩ := h
    exact ⟨past, _, hw.join b, by simp [TimedWindow.batch], rfl⟩
  | closes hphase hend =>
    rw [hphase] at h
    obtain ⟨past, w, hw, rfl, rfl⟩ := h
    have hclose := hw.close (hend.imp_left decide_eq_true)
    exact ⟨past, _, hclose, rfl, by simp [TimedWindow.ended]⟩
  | @calls c cs final hphase =>
    rw [hphase] at h
    obtain ⟨past, w, hw, rfl, hnow⟩ := h
    have hcall := hw.call duration
    have hended : ({ w with calls := w.calls ++ [(c, duration)] } : TimedWindow).ended =
        p.now + duration := by
      simp [hnow, TimedWindow.ended]
    rw [← hnow] at hcall
    by_cases hd : duration = 0
    · simp only [if_pos hd]
      exact ⟨past, _, hcall, rfl, by rw [hended, hd, Nat.add_zero]⟩
    · simp only [if_neg hd]
      exact ⟨past, _, hcall, rfl, hended.symm, Nat.le_add_right _ _⟩
  | returns hphase hdue =>
    rw [hphase] at h
    obtain ⟨past, w, hw, rfl, rfl, hlate⟩ := h
    rw [List.append_nil]
    exact ⟨past, w, hw, rfl, Nat.le_antisymm hlate hdue⟩
  | finishes hphase =>
    rw [hphase] at h
    obtain ⟨past, w, hw, rfl, hnow⟩ := h
    obtain ⟨hpast, hseen⟩ := hw.finish
    rw [← hnow] at hseen
    cases hd : w.drained with
    | true => exact ⟨past ++ [w], hpast, hseen⟩
    | false =>
      refine ⟨past ++ [w], hpast, hseen, fun v hv => ⟨?_, ?_⟩⟩
      · rw [hnow]
        exact hw.ended_le v hv
      · rcases List.mem_append.mp hv with hv | hv
        · exact (hw.before v hv).2
        · rw [List.mem_singleton.mp hv, hd]

/-- Time passes up to what the processor waits for. -/
theorem KeepsTime.tick {ms : Nat} (h : KeepsTime window p.now log p.phase)
    (htime : p.isOnTime (.tick ms) = true) : KeepsTime window (p.now + ms) log p.phase := by
  simp only [isOnTime, Bool.and_eq_true, Option.isNone_iff_eq_none] at htime
  obtain ⟨hwaits, halarm⟩ := htime
  cases hphase : p.phase with
  | idle =>
    rw [hphase] at h
    obtain ⟨past, hpast, hseen, hbefore⟩ := h
    exact ⟨past, hpast, hseen, fun v hv => ⟨by have hv := (hbefore v hv).1; omega,
      (hbefore v hv).2⟩⟩
  | collecting pending deadline =>
    rw [hphase] at h
    obtain ⟨past, w, hw, rfl, rfl⟩ := h
    have hdeadline : p.now + ms ≤ w.opened + window := by simpa [alarm?, hphase] using halarm
    have hopened := hw.within.1
    refine ⟨past, w, ⟨hw.succession, hw.before, hw.seen, ⟨by omega, hdeadline⟩, fun x hx => ?_⟩,
      rfl, rfl⟩
    have hx := hw.taken x hx
    omega
  | calling cs final =>
    -- a processor that is about to call does not wait
    cases cs <;> simp [step, hphase] at hwaits
  | awaiting t cs final =>
    rw [hphase] at h
    obtain ⟨past, w, hw, hfinal, ht, -⟩ := h
    have hreturns : p.now + ms ≤ t := by simpa [alarm?, hphase] using halarm
    exact ⟨past, w, hw, hfinal, ht, hreturns⟩
  | stopped =>
    rw [hphase] at h
    obtain ⟨past, hpast, hseen⟩ := h
    exact ⟨past, hpast, hseen⟩

theorem KeepsTime.act [DecidableEq ι] (h : KeepsTime window p.now log p.phase)
    (hwindow : p.window = window) (htime : p.isOnTime a = true) (ha : p.act l a = some (p', l')) :
    KeepsTime window p'.now (log ++ p.moments a) p'.phase := by
  cases hown : a.isProcessing with
  | false =>
    obtain ⟨hphase, hnow, -⟩ := act_frame ha hown
    have hseen : p.moments a = [] := by
      cases a <;> first | rfl | cases hown
    rw [hphase, hnow, hseen, List.append_nil]
    exact h
  | true =>
    cases a with
    | tick ms =>
      cases ha
      rw [moments, List.append_nil]
      · exact h.tick htime
      · simp
    | process duration =>
      obtain ⟨⟨p₁, call⟩, hstep, he⟩ := Option.map_eq_some_iff.mp ha
      cases he
      simp only [moments, hstep]
      exact h.advance hwindow (advance_of_step hstep)
    | _ => cases hown

theorem KeepsTime.run [DecidableEq ι] {acts : List (Act ι)}
    (h : KeepsTime window p.now log p.phase) (hwindow : p.window = window)
    (hr : p.timedRun acts = some (p', log')) :
    KeepsTime window p'.now (log ++ log') p'.phase := by
  induction acts generalizing p log log' with
  | nil =>
    cases hr
    rwa [List.append_nil]
  | cons a rest ih =>
    obtain ⟨p₁, l₁, log₁, htime, hact, hrun, rfl⟩ := of_timedRun_cons hr
    rw [← List.append_assoc]
    exact ih (h.act hwindow htime hact) ((window_act hact).trans hwindow) hrun

/-- **What was seen is the beginning of windows that keep to time**; what is missing of the last one
is not over yet. -/
theorem KeepsTime.complete (h : KeepsTime window p.now log p.phase) :
    ∃ windows ahead, windows.flatMap TimedWindow.moments = log ++ ahead ∧
      (∀ m ∈ ahead, p.now ≤ m.time) ∧ Succession window windows := by
  cases hphase : p.phase with
  | idle =>
    rw [hphase] at h
    obtain ⟨past, hpast, hseen, -⟩ := h
    exact ⟨past, [], by simp [hseen], by simp, hpast⟩
  | collecting pending deadline =>
    rw [hphase] at h
    obtain ⟨past, w, hw, -, -⟩ := h
    have hdeadline : Collecting window (w.opened + window) log past w :=
      ⟨hw.succession, hw.before, hw.seen, ⟨Nat.le_add_right _ _, Nat.le_refl _⟩, fun x hx =>
        ⟨(hw.taken x hx).1, Nat.le_trans (hw.taken x hx).2 hw.within.2⟩⟩
    have hend : false = true ∨ w.opened + window ≤ w.opened + window := .inr (Nat.le_refl _)
    obtain ⟨windows, ahead, hseen, htimes, hwindows⟩ := (hdeadline.close hend).complete
    refine ⟨windows, ⟨w.opened + window, .closes false⟩ :: ahead, by simp [hseen], ?_, hwindows⟩
    intro m hm
    rcases List.mem_cons.mp hm with rfl | hm
    · exact hw.within.2
    · exact Nat.le_trans hw.within.2 (htimes m hm)
  | calling cs final =>
    rw [hphase] at h
    obtain ⟨past, w, hw, -, hnow⟩ := h
    rw [hnow]
    exact hw.complete
  | awaiting t cs final =>
    rw [hphase] at h
    obtain ⟨past, w, hw, -, rfl, hlate⟩ := h
    obtain ⟨windows, ahead, hseen, htimes, hwindows⟩ := hw.complete
    exact ⟨windows, ahead, hseen, fun m hm => Nat.le_trans hlate (htimes m hm), hwindows⟩
  | stopped =>
    rw [hphase] at h
    obtain ⟨past, hpast, hseen⟩ := h
    exact ⟨past, [], by simp [hseen], by simp, hpast⟩

/-! ## 5. Time goes on -/

variable {duration : StatusCall → Nat}

/-- The call that is seen, with the time it takes. -/
def Moment.call? (m : Moment) : Option (TimedCall × Nat) :=
  match m.deed with
  | .calls c duration => some (⟨m.time, c⟩, duration)
  | _ => none

/-- Calls with the times that they take. -/
def withDurations (duration : StatusCall → Nat) (calls : List TimedCall) :
    List (TimedCall × Nat) :=
  calls.map fun c => (c, duration c.call)

/-- The processor acts by itself, and these calls are made. -/
def Proceeds [DecidableEq ι] (duration : StatusCall → Nat) (p p' : Pipeline ι)
    (calls : List TimedCall) : Prop :=
  ∃ acts log, (∀ a ∈ acts, Act.isProcessing a = true) ∧ p.timedRun acts = some (p', log) ∧
    log.filterMap Moment.call? = withDurations duration calls

theorem Proceeds.refl [DecidableEq ι] (duration : StatusCall → Nat) (p : Pipeline ι) :
    Proceeds duration p p [] := ⟨[], [], by simp, rfl, rfl⟩

theorem Proceeds.trans [DecidableEq ι] {calls calls' : List TimedCall} {p'' : Pipeline ι}
    (h : Proceeds duration p p' calls) (h' : Proceeds duration p' p'' calls') :
    Proceeds duration p p'' (calls ++ calls') := by
  obtain ⟨acts, log, hown, hrun, hcalls⟩ := h
  obtain ⟨acts', log', hown', hrun', hcalls'⟩ := h'
  refine ⟨acts ++ acts', log ++ log', fun a ha => ?_, timedRun_append hrun hrun', ?_⟩
  · exact (List.mem_append.mp ha).elim (hown a) (hown' a)
  · rw [List.filterMap_append, hcalls, hcalls', withDurations, withDurations, withDurations,
      List.map_append]

/-- Only the time that the next call takes matters for a step. -/
theorem step_congr (duration : StatusCall → Nat) (p : Pipeline ι) :
    ∃ d, p.step duration = p.step (fun _ => d) ∧
      ∀ c cs final, p.phase = .calling (c :: cs) final → duration c = d := by
  cases hphase : p.phase with
  | calling cs final =>
    cases cs with
    | nil => exact ⟨0, by simp [step, hphase], by simp⟩
    | cons c cs => exact ⟨duration c, by simp [step, hphase], by simp⟩
  | _ => exact ⟨0, by simp [step, hphase], by simp⟩

/-- Whether the processor waits does not depend on the calls. -/
theorem step_eq_none (h : p.step duration = none) : p.step (fun _ => 0) = none := by
  cases hphase : p.phase with
  | calling cs final => cases cs <;> simp [step, hphase] at h
  | _ =>
    rw [← h]
    simp [step, hphase]

theorem Advance.calls_seen {d : Nat} {call : Option TimedCall} (h : Advance d p p' call seen)
    (hd : ∀ c cs final, p.phase = .calling (c :: cs) final → duration c = d) :
    seen.filterMap Moment.call? = withDurations duration call.toList := by
  cases h with
  | calls hphase => simp [Moment.call?, withDurations, hd _ _ _ hphase]
  | _ => rfl

/-- A step is an act of the processor, and the call it makes is seen. -/
theorem Proceeds.step [DecidableEq ι] {call : Option TimedCall}
    (h : p.step duration = some (p', call)) : Proceeds duration p p' call.toList := by
  obtain ⟨d, hstep, hd⟩ := step_congr duration p
  rw [hstep] at h
  refine ⟨[.process d], p.moments (.process d), by simp [Act.isProcessing], ?_, ?_⟩
  · simp [timedRun, isOnTime, Pipeline.act, h]
  · simp only [moments, h]
    exact (advance_of_step h).calls_seen hd

/-- While the processor waits, time may pass up to what it waits for. -/
theorem Proceeds.tick [DecidableEq ι] {target : Nat} (hwaits : p.step duration = none)
    (htarget : p.now ≤ target) (halarm : ∀ t, p.alarm? = some t → target ≤ t) :
    Proceeds duration p { p with now := target } [] := by
  have hnow : p.now + (target - p.now) = target := by omega
  refine ⟨[.tick (target - p.now)], [], by simp [Act.isProcessing], ?_, rfl⟩
  have htime : p.isOnTime (.tick (target - p.now)) = true := by
    cases ht : p.alarm? with
    | none => simp [isOnTime, step_eq_none hwaits, ht]
    | some t => simp [isOnTime, step_eq_none hwaits, ht, hnow, halarm t ht]
  simp [timedRun, htime, Pipeline.act, hnow, moments]

/-- What the processor waits for lies ahead. -/
theorem now_lt_of_alarm {t : Nat} (hwaits : p.step duration = none) (h : p.alarm? = some t) :
    p.now < t := by
  refine Nat.lt_of_not_le fun hdue => ?_
  cases hphase : p.phase with
  | collecting pending deadline =>
    obtain rfl : deadline = t := by simpa [alarm?, hphase] using h
    cases hr : p.receive <;> simp [Pipeline.step, hphase, hr, hdue] at hwaits
  | awaiting returns cs final =>
    obtain rfl : returns = t := by simpa [alarm?, hphase] using h
    simp [Pipeline.step, hphase, hdue] at hwaits
  | _ => simp [alarm?, hphase] at h

/-- **To settle is to keep to time**, and the processor waits afterwards. -/
theorem proceeds_settle [DecidableEq ι] (duration : StatusCall → Nat) (p : Pipeline ι) :
    Proceeds duration p (p.settle duration).1 (p.settle duration).2 ∧
      (p.settle duration).1.step duration = none ∧ (p.settle duration).1.now = p.now ∧
      ((p.settle duration).1.work < p.work ∨ p.step duration = none) := by
  unfold settle
  split
  · next hwaits => exact ⟨.refl _ _, hwaits, rfl, .inr hwaits⟩
  · next p₁ call hstep =>
    have hless := work_step_lt hstep
    obtain ⟨hproceeds, hwaits, hnow, hwork⟩ := proceeds_settle duration p₁
    have hsame : p₁.now = p.now := by
      obtain ⟨d, hd, -⟩ := step_congr duration p
      exact (advance_of_step (hd.symm.trans hstep)).now_eq
    refine ⟨(Proceeds.step hstep).trans hproceeds, hwaits, hnow.trans hsame, .inl ?_⟩
    rcases hwork with hwork | hstill
    · exact Nat.lt_trans hwork hless
    · unfold settle
      rw [hstill]
      exact hless
termination_by p.work

theorem proceeds_runUntil [DecidableEq ι] {target : Nat} (alarms : Nat) {p : Pipeline ι}
    (hwaits : p.step duration = none) (halarms : p.work ≤ alarms) (htarget : p.now ≤ target) :
    Proceeds duration p (runUntil duration target alarms p).1
        (runUntil duration target alarms p).2 ∧
      (runUntil duration target alarms p).1.now = target := by
  induction alarms generalizing p with
  | zero =>
    have hstopped : p.alarm? = none := by
      cases hphase : p.phase <;> simp [alarm?, hphase, work, phaseWork] at halarms ⊢
    exact ⟨.tick hwaits htarget (by simp [hstopped]), rfl⟩
  | succ alarms ih =>
    unfold runUntil
    split
    · next t ht =>
      have hahead := now_lt_of_alarm hwaits ht
      split
      · next hrings =>
        have hmax : max p.now t = t := Nat.max_eq_right (Nat.le_of_lt hahead)
        have hbefore : Proceeds duration p { p with now := max p.now t } [] := by
          rw [hmax]
          refine .tick hwaits (Nat.le_of_lt hahead) fun t' ht' => ?_
          rw [ht] at ht'
          exact Nat.le_of_eq (Option.some.inj ht')
        obtain ⟨hsettle, hstill, hnow, hwork⟩ :=
          proceeds_settle duration { p with now := max p.now t }
        have hless : (settle duration { p with now := max p.now t }).1.work < p.work := by
          refine hwork.resolve_right fun hnone => ?_
          have hlater := now_lt_of_alarm (p := { p with now := max p.now t }) hnone ht
          simp only at hlater
          omega
        obtain ⟨hrest, hend⟩ := ih hstill (by omega) (by rw [hnow]; simp only; omega)
        exact ⟨(hbefore.trans hsettle).trans hrest, hend⟩
      · next hlate =>
        refine ⟨.tick hwaits htarget fun t' ht' => ?_, rfl⟩
        rw [ht] at ht'
        cases ht'
        omega
    · next hnone => exact ⟨.tick hwaits htarget (by simp [hnone]), rfl⟩

/-- **To sleep is to keep to time**: whatever the processor is doing, it settles, and then the time
passes in which it goes on by itself. -/
theorem proceeds_sleep [DecidableEq ι] (duration : StatusCall → Nat) (p : Pipeline ι) (ms : Nat) :
    Proceeds duration p ((p.settle duration).1.sleep duration ms).1
        ((p.settle duration).2 ++ ((p.settle duration).1.sleep duration ms).2) ∧
      ((p.settle duration).1.sleep duration ms).1.now = p.now + ms := by
  obtain ⟨hsettle, hwaits, hnow, -⟩ := proceeds_settle duration p
  obtain ⟨hsleep, hend⟩ :=
    proceeds_runUntil _ hwaits (Nat.le_refl _) (Nat.le_add_right (p.settle duration).1.now ms)
  rw [← hnow]
  exact ⟨hsettle.trans hsleep, hend⟩

/-! ## 6. Windows keep to time -/

/-- **Windows keep to time.**  Take any run that keeps to time: any sends, and calls that take any
time.

* What is seen of the processor are the moments of windows, one after the other, of which the last
  may be incomplete; what is missing of it is not over yet.  Each window is opened with a first
  batch, takes further ones until its deadline at the latest, which counts from its own opening, and
  is closed just then, or before if the queue is drained; its calls follow at once, and no window
  is opened until they have returned, or at all once the queue was drained.
* Time goes on by itself: while the processor settles and sleeps, as its clock does. -/
theorem windows_on_time {ι : Type} [DecidableEq ι] (capacity window now : Nat)
    (acts : List (Act ι)) {p : Pipeline ι} {log : List Moment}
    (h : (fresh ι capacity window now).timedRun acts = some (p, log)) :
    (∃ windows ahead, windows.flatMap TimedWindow.moments = log ++ ahead ∧
      (∀ m ∈ ahead, p.now ≤ m.time) ∧ Succession window windows) ∧
    ∀ duration ms,
      Proceeds duration p ((p.settle duration).1.sleep duration ms).1
          ((p.settle duration).2 ++ ((p.settle duration).1.sleep duration ms).2) ∧
        ((p.settle duration).1.sleep duration ms).1.now = p.now + ms := by
  have hfresh : KeepsTime window now [] (fresh ι capacity window now).phase :=
    ⟨[], TimedWindow.succession_nil window, rfl, by simp⟩
  exact ⟨(hfresh.run rfl h).complete, fun duration ms => proceeds_sleep duration p ms⟩

/-- A batch that is sent just when the window ends still belongs to it; one that is sent while the
calls are made waits until they have returned, and its own window is cut short when the senders
leave. -/
theorem windows_on_time_cut_short :
    let acts : List (Act Nat) :=
      [.send 0 (sampleBatch "shop"), .process 0, .tick 100, .send 1 (sampleBatch "mall"),
        .process 0, .process 0, .process 30, .send 0 (sampleBatch "shop"), .tick 30, .process 0,
        .process 20, .tick 20, .process 0, .process 0, .process 0, .tick 40, .dropSenders,
        .process 0, .process 5, .tick 5, .process 0, .process 0]
    ∃ p log, (fresh Nat 1 100 0).timedRun acts = some (p, log) ∧ p.phase = .stopped ∧
      log.map Moment.time = [0, 100, 100, 100, 130, 150, 150, 190, 190, 195] ∧
      ∃ windows ahead, windows.flatMap TimedWindow.moments = log ++ ahead ∧
        (∀ m ∈ ahead, p.now ≤ m.time) ∧ Succession 100 windows := by
  intro acts
  refine ⟨_, _, rfl, rfl, rfl, ?_⟩
  exact (windows_on_time 1 100 0 acts rfl).1

end Pipeline

end AppWatch
