/-
# What a reader makes of its stream

A stream yields events and failures in any order, and its reader is one of many parties.  Still its
diary says all there is to say of it: it has read what it was given, in order; it has sent the
events among that and nothing else; it pauses after each failure, and after nothing else; and it
reports a failure exactly if it is the first of a row or a tenth one.

The reader counts only up to `maxFailures` and starts anew with every event, so its count is that of
the failures at the end of what it has read (`StreamItem.failuresAtEnd`), as far as that goes.  What
it has noted and when it has read is told reading by reading (`IsLog`).  `Reader.Accords` is what
each turn of the reader preserves (`Accords.turn`), and a run is turn after turn (`accords_run`).

Whether a reader that waits for room can go on is not in its diary.  That no reader is left waiting
is a matter of the inbox, which lets nobody wait while there is room (`Watcher.Orderly`).
-/
import Mathlib.Data.List.Induction
import AppWatch.Proofs.StreamReports

namespace AppWatch

/-! ## 1. Rows of failures -/

namespace StreamItem

def isFailure : StreamItem → Bool
  | .failure _ => true
  | .event _ => false

/-- How many failures a list of items ends with. -/
def failuresAtEnd (items : List StreamItem) : Nat := (items.reverse.takeWhile isFailure).length

theorem failuresAtEnd_concat (items : List StreamItem) (x : StreamItem) :
    failuresAtEnd (items ++ [x]) = if x.isFailure then failuresAtEnd items + 1 else 0 := by
  rw [failuresAtEnd, List.reverse_concat, List.takeWhile_cons]
  split <;> rfl

/-- A row of failures makes the one before it longer. -/
theorem failuresAtEnd_append (items : List StreamItem) {run : List StreamItem}
    (hrun : ∀ x ∈ run, x.isFailure = true) :
    failuresAtEnd (items ++ run) = failuresAtEnd items + run.length := by
  induction run using List.reverseRecOn with
  | nil => simp
  | append_singleton run x ih =>
    rw [← List.append_assoc, failuresAtEnd_concat, if_pos (hrun x (by simp)),
      ih fun y hy => hrun y (List.mem_append_left _ hy), List.length_append]
    rfl

/-- After an event, and at the beginning, there is no row. -/
theorem failuresAtEnd_eq_zero {items : List StreamItem}
    (hlast : ∀ x ∈ items.getLast?, x.isFailure = false) : failuresAtEnd items = 0 := by
  rcases items.eq_nil_or_concat with rfl | ⟨init, x, rfl⟩
  · rfl
  · rw [List.concat_eq_append] at hlast ⊢
    rw [failuresAtEnd_concat, hlast x (by simp)]
    rfl

end StreamItem

open StreamItem

/-! ## 2. The log of a reader -/

/-- What is noted at a reading after so many failures in a row. -/
def StreamReading.IsNoted (kind : KindDescriptor) (scope : String) (count : Nat)
    (x : StreamReading) : Prop :=
  x.notes = match x.item with
    | .failure f => Reader.report kind scope (min (count + 1) maxFailures) f
    | .event _ => []

/-- Readings as the reader of a scope makes them: each failure is noted as its place in the row has
it, and is followed by a pause. -/
inductive IsLog (kind : KindDescriptor) (scope : String) : List StreamReading → Prop
  | begins : IsLog kind scope []
  | goesOn {xs : List StreamReading} {x : StreamReading} (h : IsLog kind scope xs)
      (hnoted : x.IsNoted kind scope (failuresAtEnd (xs.map StreamReading.item)))
      (hpaused : ∀ y ∈ xs.getLast?, y.item.isFailure = true → y.time + retryDelay ≤ x.time) :
      IsLog kind scope (xs ++ [x])

section Log

variable {kind : KindDescriptor} {scope : String} {xs before run after : List StreamReading}
  {x y : StreamReading}

theorem IsLog.init (h : IsLog kind scope (xs ++ after)) : IsLog kind scope xs := by
  induction after using List.reverseRecOn with
  | nil => rwa [List.append_nil] at h
  | append_singleton after z ih =>
    rw [← List.append_assoc] at h
    generalize hlog : xs ++ after ++ [z] = log at h
    cases h with
    | begins => simp at hlog
    | goesOn h _ _ =>
      obtain ⟨rfl, -⟩ := List.append_inj' hlog rfl
      exact ih h

/-- How the latest reading came about. -/
theorem IsLog.last (h : IsLog kind scope (xs ++ [x])) :
    x.IsNoted kind scope (failuresAtEnd (xs.map StreamReading.item)) ∧
      ∀ y ∈ xs.getLast?, y.item.isFailure = true → y.time + retryDelay ≤ x.time := by
  generalize hlog : xs ++ [x] = log at h
  cases h with
  | begins => simp at hlog
  | goesOn _ hnoted hpaused =>
    obtain ⟨rfl, hx⟩ := List.append_inj' hlog rfl
    obtain rfl := List.singleton_inj.mp hx
    exact ⟨hnoted, hpaused⟩

/-- **What is noted depends on the row of failures before.** -/
theorem IsLog.noted (h : IsLog kind scope (before ++ x :: after)) :
    x.IsNoted kind scope (failuresAtEnd (before.map StreamReading.item)) := by
  rw [List.append_cons] at h
  exact h.init.last.1

/-- **After a failure nothing is read for as long as the pause lasts.** -/
theorem IsLog.paused (h : IsLog kind scope (before ++ x :: y :: after))
    (hx : x.item.isFailure = true) : x.time + retryDelay ≤ y.time := by
  rw [List.append_cons, List.append_cons] at h
  exact h.init.last.2 x (by simp) hx

/-- A row of failures that begins with the log or after an event. -/
structure IsRow (before run : List StreamReading) : Prop where
  failures : ∀ x ∈ run, x.item.isFailure = true
  begins : ∀ y ∈ before.getLast?, y.item.isFailure = false

theorem IsRow.init (h : IsRow before (run ++ [x])) : IsRow before run :=
  ⟨fun y hy => h.failures y (List.mem_append_left _ hy), h.begins⟩

theorem IsRow.failuresAtEnd_eq (h : IsRow before run) :
    failuresAtEnd ((before ++ run).map StreamReading.item) = run.length := by
  have hbegins : failuresAtEnd (before.map StreamReading.item) = 0 := by
    refine failuresAtEnd_eq_zero fun x hx => ?_
    rw [List.getLast?_map] at hx
    obtain ⟨y, hy, rfl⟩ := Option.map_eq_some_iff.mp hx
    exact h.begins y hy
  rw [List.map_append, failuresAtEnd_append, hbegins, Nat.zero_add, List.length_map]
  intro x hx
  obtain ⟨y, hy, rfl⟩ := List.mem_map.mp hx
  exact h.failures y hy

/-- The count is exact as long as it is below its limit. -/
theorem min_maxFailures {count : Nat} (h : count < UInt32.size) :
    min count maxFailures = count := by
  have hmax : maxFailures = UInt32.size - 1 := rfl
  omega

theorem Reader.report_eq (count : Nat) (f : Failure) : Reader.report kind scope count f =
    if count = 1 ∨ 10 ∣ count then [.notice (.streamFailed kind scope count f)] else [] := by
  simp only [Reader.report, isReported, Bool.or_eq_true, decide_eq_true_eq, Nat.dvd_iff_mod_eq_zero]

/-- What is noted of a reading that follows a row of failures. -/
theorem IsLog.notes_eq (h : IsLog kind scope (before ++ run ++ x :: after))
    (hrow : IsRow before run) (hshort : x.item.isFailure = true → run.length + 1 < UInt32.size) :
    x.notes = match x.item with
      | .failure f =>
        if run.length + 1 = 1 ∨ 10 ∣ run.length + 1 then
          [.notice (.streamFailed kind scope (run.length + 1) f)]
        else []
      | .event _ => [] := by
  have hnoted := h.noted
  rw [StreamReading.IsNoted, hrow.failuresAtEnd_eq] at hnoted
  cases hitem : x.item with
  | event e =>
    rw [hitem] at hnoted
    exact hnoted
  | failure f =>
    rw [hitem] at hnoted hshort
    rw [hnoted, min_maxFailures (hshort rfl)]
    exact Reader.report_eq _ f

/-- How many of so many failures in a row are reported. -/
def reportsOf (count : Nat) : Nat := if count = 0 then 0 else 1 + count / 10

theorem reportsOf_succ (count : Nat) :
    reportsOf (count + 1) =
      reportsOf count + if count + 1 = 1 ∨ 10 ∣ count + 1 then 1 else 0 := by
  unfold reportsOf
  by_cases hzero : count = 0
  · subst hzero
    rfl
  · rw [if_neg hzero, if_neg (Nat.succ_ne_zero count)]
    split <;> omega

/-- **A row of failures is reported once at its beginning and with every tenth of them.** -/
theorem IsLog.length_notes (h : IsLog kind scope (before ++ run ++ after)) (hrow : IsRow before run)
    (hshort : run.length < UInt32.size) :
    (run.flatMap StreamReading.notes).length = reportsOf run.length := by
  induction run using List.reverseRecOn generalizing after with
  | nil => rfl
  | append_singleton run x ih =>
    have hlength : (run ++ [x]).length = run.length + 1 := by simp
    have hlog : IsLog kind scope (before ++ run ++ x :: after) := by simpa using h
    have hnotes := hlog.notes_eq hrow.init fun _ => hlength ▸ hshort
    have hfailure := hrow.failures x (by simp)
    have hlast : x.notes.length = if run.length + 1 = 1 ∨ 10 ∣ run.length + 1 then 1 else 0 := by
      cases hitem : x.item with
      | failure f =>
        rw [hitem] at hnotes
        rw [hnotes, apply_ite List.length]
        rfl
      | event e =>
        rw [hitem] at hfailure
        cases hfailure
    have hearlier := ih hlog hrow.init (by omega)
    rw [List.flatMap_append, List.length_append, hearlier, List.flatMap_singleton, hlast, hlength,
      reportsOf_succ]

end Log

/-! ## 3. A reader and its diary -/

/-- The latest item that was read is an event. -/
def Diary.EndsWithEvent (d : Diary) : Prop :=
  ∃ x, d.readings.getLast? = some x ∧ x.item.isFailure = false

/-- A reader is what its diary says of it, as long as its inbox is open or closed. -/
structure Reader.Accords (kind : KindDescriptor) (scope : String) (now : Nat) (closed : Bool)
    (d : Diary) (r : Reader) (held : List WatchEvent) : Prop where
  log : IsLog kind scope d.readings
  given : d.given = d.items ++ r.unread
  sent : closed = false → d.sent ++ held = d.items.filterMap StreamItem.event?
  unsent : closed = true → d.sent = [] ∧ held = []
  /-- Who finds the inbox closed stops with the first event. -/
  givesUp : closed = true → (∀ x ∈ d.items.dropLast, x.isFailure = true) ∧
    ((∃ x ∈ d.items, x.isFailure = false) → r.state = .ended)
  counted : r.failures = min (failuresAtEnd d.items) maxFailures
  rested : ∀ x, d.readings.getLast? = some x → x.item.isFailure = true →
    r.state = .pausing (x.time + retryDelay) ∨ x.time + retryDelay ≤ now
  pausing : ∀ u, r.state = .pausing u →
    ∃ x, d.readings.getLast? = some x ∧ x.item.isFailure = true ∧ u = x.time + retryDelay
  ended : r.state = .ended → r.unread = [] ∧ r.isOpen = false ∨ closed = true ∧ d.EndsWithEvent
  /-- Who finds the inbox closed does not wait for room in it. -/
  waits : r.state = .holding → closed = false

namespace Reader

variable {kind : KindDescriptor} {scope : String} {now now' : Nat} {closed : Bool} {d d' : Diary}
  {r r' : Reader} {held held' : List WatchEvent} {item : StreamItem} {rest : List StreamItem}
  {notes : List Note} {e : WatchEvent} {f : Failure} {state : ReaderState}

/-- A reader that was just started has nothing in its diary. -/
theorem accords_new (kind : KindDescriptor) (scope : String) (now : Nat) (closed : Bool) :
    ({} : Reader).Accords kind scope now closed {} [] where
  log := .begins
  given := rfl
  sent _ := rfl
  unsent _ := ⟨rfl, rfl⟩
  givesUp _ := ⟨by simp [Diary.items], by simp [Diary.items]⟩
  counted := rfl
  rested x hx := by cases hx
  pausing u hu := by cases hu
  ended h := by cases h
  waits h := by cases h

namespace Accords

theorem later (h : r.Accords kind scope now closed d held) (hnow : now ≤ now') :
    r.Accords kind scope now' closed d held where
  log := h.log
  given := h.given
  sent := h.sent
  unsent := h.unsent
  givesUp := h.givesUp
  counted := h.counted
  rested x hx hfailure := (h.rested x hx hfailure).imp_right fun hover => Nat.le_trans hover hnow
  pausing := h.pausing
  ended := h.ended
  waits := h.waits

/-- A reader that does something else than to pause has paused after its latest failure. -/
theorem rested_of_ne (h : r.Accords kind scope now closed d held)
    (hstate : ∀ u, r.state ≠ .pausing u) :
    ∀ x ∈ d.readings.getLast?, x.item.isFailure = true → x.time + retryDelay ≤ now :=
  fun x hx hfailure => (h.rested x hx hfailure).resolve_left (hstate _)

/-- What is read now comes to the end of the log. -/
theorem log_concat (h : r.Accords kind scope now closed d held) (hreading : r.state = .reading)
    (hnoted : StreamReading.IsNoted kind scope (failuresAtEnd d.items) ⟨now, item, notes⟩) :
    IsLog kind scope (d.readings ++ [⟨now, item, notes⟩]) :=
  h.log.goesOn hnoted (h.rested_of_ne (by simp [hreading]))

theorem given_concat (h : r.Accords kind scope now closed d held)
    (hunread : r.unread = item :: rest) (sent : List WatchEvent) :
    (d ++ (⟨[], [⟨now, item, notes⟩], sent⟩ : Diary)).given =
      (d ++ (⟨[], [⟨now, item, notes⟩], sent⟩ : Diary)).items ++ rest := by
  change d.given ++ [] = (d.readings ++ [(⟨now, item, notes⟩ : StreamReading)]).map _ ++ rest
  rw [List.append_nil, h.given, hunread, List.map_append, List.append_assoc]
  rfl

/-- Who reads with its inbox closed has read no event before. -/
theorem failures_of_closed (h : r.Accords kind scope now closed d held)
    (hreading : r.state = .reading) (hclosed : closed = true) :
    ∀ x ∈ d.items, x.isFailure = true := by
  intro x hx
  by_contra hevent
  have hended := (h.givesUp hclosed).2 ⟨x, hx, by simpa using hevent⟩
  cases hreading.symm.trans hended

theorem items_concat (d : Diary) (x : StreamReading) (sent : List WatchEvent) :
    (d ++ (⟨[], [x], sent⟩ : Diary)).items = d.items ++ [x.item] := List.map_append

/-- The reader reads an event. -/
theorem readsEvent {sent : List WatchEvent} (h : r.Accords kind scope now closed d held)
    (hreading : r.state = .reading) (hunread : r.unread = .event e :: rest)
    (hsent : closed = false → held = [] ∧ sent ++ held' = [e])
    (hunsent : closed = true → sent = [] ∧ held' = [] ∧ state = .ended)
    (hpausing : ∀ u, state ≠ .pausing u) (hended : state = .ended → closed = true) :
    Accords kind scope now closed (d ++ (⟨[], [⟨now, .event e, []⟩], sent⟩ : Diary))
      { r with unread := rest, failures := 0, state := state } held' where
  log := h.log_concat hreading rfl
  given := h.given_concat hunread _
  sent hopen := by
    obtain ⟨hnone, hsent⟩ := hsent hopen
    have hbefore := h.sent hopen
    rw [hnone, List.append_nil] at hbefore
    rw [items_concat, List.filterMap_append, ← hbefore]
    change d.sent ++ sent ++ held' = d.sent ++ [e]
    rw [List.append_assoc, hsent]
  unsent hclosed := by
    obtain ⟨hnone, hheld, -⟩ := hunsent hclosed
    refine ⟨?_, hheld⟩
    change d.sent ++ sent = []
    rw [(h.unsent hclosed).1, hnone]
    rfl
  givesUp hclosed := by
    refine ⟨?_, fun _ => (hunsent hclosed).2.2⟩
    rw [items_concat, List.dropLast_concat]
    exact h.failures_of_closed hreading hclosed
  counted := by
    rw [items_concat, failuresAtEnd_concat]
    rfl
  rested x hx hfailure := by
    obtain rfl := Option.some.inj (List.getLast?_concat.symm.trans hx)
    cases hfailure
  pausing u hu := absurd hu (hpausing u)
  ended hstate := .inr ⟨hended hstate, _, List.getLast?_concat, rfl⟩
  waits hstate := by
    cases closed with
    | false => rfl
    | true => cases hstate.symm.trans (hunsent rfl).2.2

/-- The stream of the reader has failed. -/
theorem readsFailure (h : r.Accords kind scope now closed d held) (hreading : r.state = .reading)
    (hunread : r.unread = .failure f :: rest) :
    Accords kind scope now closed
      (d ++ (⟨[], [⟨now, .failure f, report kind scope (min (r.failures + 1) maxFailures) f⟩], []⟩ :
        Diary))
      { r with
        unread := rest
        failures := min (r.failures + 1) maxFailures
        state := .pausing (now + retryDelay) } held := by
  -- the count goes on from its limit as it would without one
  have hcount : min (r.failures + 1) maxFailures =
      min (failuresAtEnd d.items + 1) maxFailures := by
    rw [h.counted]
    omega
  refine {
    log := h.log_concat hreading (by rw [hcount]; rfl)
    given := h.given_concat hunread _
    sent := fun hopen => ?_
    unsent := fun hclosed => ⟨?_, (h.unsent hclosed).2⟩
    givesUp := fun hclosed => ?_
    counted := ?_
    rested := fun x hx _ => ?_
    pausing := fun u hu => ?_
    ended := fun hended => by cases hended
    waits := fun hholding => by cases hholding }
  · rw [items_concat, List.filterMap_append, ← h.sent hopen]
    change d.sent ++ [] ++ held = d.sent ++ held ++ []
    simp
  · exact (List.append_nil _).trans (h.unsent hclosed).1
  · have hfailures := h.failures_of_closed hreading hclosed
    rw [items_concat, List.dropLast_concat]
    refine ⟨hfailures, ?_⟩
    rintro ⟨x, hx, hevent⟩
    rcases List.mem_append.mp hx with hx | hx
    · cases (hfailures x hx).symm.trans hevent
    · rw [List.mem_singleton.mp hx] at hevent
      cases hevent
  · rw [items_concat, failuresAtEnd_concat]
    exact hcount
  · obtain rfl := Option.some.inj (List.getLast?_concat.symm.trans hx)
    exact .inl rfl
  · cases hu
    exact ⟨_, List.getLast?_concat, rfl, rfl⟩

/-- What a reader is given and what it sends of an event it holds changes nothing of what it has
read. -/
theorem of_readings {unread : List StreamItem} (h : r.Accords kind scope now closed d held)
    (hreadings : d'.readings = d.readings) (hgiven : d'.given = d.items ++ unread)
    (hsent : closed = false → d'.sent ++ held' = d.sent ++ held)
    (hunsent : closed = true → d'.sent = [] ∧ held' = [])
    (hended : r.state = .ended → unread = r.unread) :
    Accords kind scope now closed d' { r with unread := unread } held' := by
  have hitems : d'.items = d.items := congrArg (List.map StreamReading.item) hreadings
  refine {
    log := hreadings ▸ h.log
    given := hitems ▸ hgiven
    sent := fun hopen => ?_
    unsent := hunsent
    givesUp := hitems ▸ h.givesUp
    counted := hitems ▸ h.counted
    rested := hreadings ▸ h.rested
    pausing := hreadings ▸ h.pausing
    ended := fun hstate => ?_
    waits := h.waits }
  · rw [hitems, hsent hopen, h.sent hopen]
  · rw [Diary.EndsWithEvent, hreadings, hended hstate]
    exact h.ended hstate

/-- **Each turn of a reader is as its diary has it.** -/
theorem turn (h : r.Accords kind scope now closed d held)
    (hturn : r.Turn kind scope now closed held d' r' held') :
    r'.Accords kind scope now closed (d ++ d') held' := by
  cases hturn with
  | rests =>
    rw [Diary.append_empty]
    exact h
  | fails hreading hunread => exact h.readsFailure hreading hunread
  | sends hreading hunread hopen hnone =>
    refine h.readsEvent hreading hunread (fun _ => ⟨hnone, List.append_nil [_]⟩)
      (fun hclosed => ?_) (fun u hu => ?_) fun hended => ?_
    · cases hopen.symm.trans hclosed
    · cases hreading.symm.trans hu
    · cases hreading.symm.trans hended
  | holds hreading hunread hopen hnone =>
    exact h.readsEvent hreading hunread (fun _ => ⟨hnone, rfl⟩)
      (fun hclosed => by cases hopen.symm.trans hclosed) (by simp) (fun hended => by cases hended)
  | gives hreading hunread hclosed =>
    exact h.readsEvent hreading hunread (fun hopen => by cases hclosed.symm.trans hopen)
      (fun _ => ⟨rfl, (h.unsent hclosed).2, rfl⟩) (by simp) (fun _ => hclosed)
  | wakes hpausing hover =>
    rw [Diary.append_empty]
    obtain ⟨x, hlast, hfailure, rfl⟩ := h.pausing _ hpausing
    exact { h with
      givesUp := fun hclosed => ⟨(h.givesUp hclosed).1, fun hevent => by
        cases hpausing.symm.trans ((h.givesUp hclosed).2 hevent)⟩
      rested := fun y hy _ => by
        obtain rfl := Option.some.inj (hlast.symm.trans hy)
        exact .inr hover
      pausing := fun u hu => by cases hu
      ended := fun hended => by cases hended
      waits := fun hholding => by cases hholding }
  | @enters e hholding hheld hopen =>
    have hreads : Accords kind scope now closed d { r with state := .reading } held :=
      { h with
        givesUp := fun hclosed => by cases hopen.symm.trans hclosed
        rested := fun x hx hfailure => .inr (h.rested_of_ne (by simp [hholding]) x hx hfailure)
        pausing := fun u hu => by cases hu
        ended := fun hended => by cases hended
        waits := fun hholding => by cases hholding }
    refine hreads.of_readings (List.append_nil _) ((List.append_nil _).trans h.given) (fun _ => ?_)
      (fun hclosed => ?_) fun hended => ?_
    · rw [hheld]
      exact List.append_nil _
    · cases hopen.symm.trans hclosed
    · cases hended
  | ends hreading hunread hover =>
    rw [Diary.append_empty]
    exact { h with
      givesUp := fun hclosed => ⟨(h.givesUp hclosed).1, fun _ => rfl⟩
      rested := fun x hx hfailure => .inr (h.rested_of_ne (by simp [hreading]) x hx hfailure)
      pausing := fun u hu => by cases hu
      ended := fun _ => .inl ⟨hunread, hover⟩
      waits := fun hholding => by cases hholding }
  | @yields items hopen hlistening =>
    refine h.of_readings (List.append_nil _) ?_ (fun _ => ?_) (fun hclosed => ?_) fun hended => ?_
    · change d.given ++ items = d.items ++ (r.unread ++ items)
      rw [h.given, List.append_assoc]
    · exact congrArg (· ++ held) (List.append_nil d.sent)
    · obtain ⟨hsent, hheld⟩ := h.unsent hclosed
      exact ⟨(List.append_nil _).trans hsent, hheld⟩
    · exact absurd hended hlistening
  | closes =>
    rw [Diary.append_empty]
    exact { h with ended := fun hended => (h.ended hended).imp_left fun hover => ⟨hover.1, rfl⟩ }

end Accords

end Reader

/-! ## 4. A run -/

namespace System

variable {s s' : System} {gvr : GroupVersionResource} {scope : String} {actions : List Action}
  {notes : List Note} {w : Watcher} {r : Reader} {d : Diary}

/-- **In every run a reader stays as its diary has it**, whatever the other parties do, as long as
it is not stopped. -/
theorem accords_run (hkept : s.Kept) (hrun : s.run actions = some (s', notes))
    (hstay : ∀ a ∈ actions, a ≠ .stop ∧ a ≠ .stopWatcher gvr)
    (hw : s.registry.watcher? gvr = some w) (hr : w.readers.get? scope = some r)
    (h : r.Accords w.kind scope s.pipeline.now w.inbox.closed d (w.held scope)) :
    ∃ w' r', s'.registry.watcher? gvr = some w' ∧ w'.inbox.closed = w.inbox.closed ∧
      w'.readers.get? scope = some r' ∧
      r'.Accords w.kind scope s'.pipeline.now w.inbox.closed (d ++ s.diary gvr scope actions)
        (w'.held scope) := by
  induction actions generalizing s notes w r d with
  | nil =>
    cases hrun
    refine ⟨w, r, hw, rfl, hr, ?_⟩
    rw [diary, Diary.append_empty]
    exact h
  | cons action actions ih =>
    obtain ⟨s₁, notes₁, notes₂, hstep, hrest, -⟩ := run_cons hrun
    obtain ⟨hstop, hhere⟩ := hstay action List.mem_cons_self
    obtain ⟨w₁, r₁, hw₁, hkind, hclosed, hr₁, hturn⟩ :=
      takesTurn_of_step hkept hstep hw hr hstop hhere
    have hnext := (h.turn hturn).later (now_le_of_step hstep)
    rw [← hkind, ← hclosed] at hnext ⊢
    obtain ⟨w', r', hw', hclosed', hr', hend⟩ :=
      ih (hkept.step hstep) hrest (fun a ha => hstay a (List.mem_cons_of_mem _ ha)) hw₁ hr₁ hnext
    refine ⟨w', r', hw', hclosed', hr', ?_⟩
    rw [diary, hstep, ← Diary.append_assoc]
    exact hend

/-- Who can read: a reader that is neither pausing nor waiting, if there is something to be read or
the stream is over. -/
theorem isSome_read_iff (hw : s.registry.watcher? gvr = some w)
    (hr : w.readers.get? scope = some r) :
    (s.step (.read gvr scope)).isSome = true ↔
      r.state = .reading ∧ (r.unread ≠ [] ∨ r.isOpen = false) := by
  simp only [step, read, hw, hr, Option.bind_eq_bind, Option.bind_some]
  by_cases hreading : r.state = .reading
  · simp only [hreading, ne_eq, not_true_eq_false, ↓reduceIte, true_and]
    split
    · next hunread => cases hopen : r.isOpen <;> simp [hunread]
    · next hunread => simp [hunread]
    · next hunread => split <;> simp [hunread]
  · simp [hreading]

/-- Who can end its pause: a reader whose pause has been long enough. -/
theorem isSome_wake_iff (hw : s.registry.watcher? gvr = some w)
    (hr : w.readers.get? scope = some r) :
    (s.step (.wake gvr scope)).isSome = true ↔
      ∃ u, r.state = .pausing u ∧ u ≤ s.pipeline.now := by
  simp only [step, wake, hw, hr, Option.bind_eq_bind, Option.bind_some, Option.isSome_map]
  cases hstate : r.state with
  | pausing u =>
    simp only [ReaderState.pausing.injEq, exists_eq_left']
    split <;> simp [*]
  | _ => simp

/-- Who can put its event into the inbox: whoever was given room there. -/
theorem isSome_enterInbox_iff (hw : s.registry.watcher? gvr = some w) :
    (s.step (.enterInbox gvr scope)).isSome = true ↔ scope ∈ w.inbox.granted.map (·.1) := by
  rw [← BoundedQueue.isSome_enter?_iff]
  simp only [step, enterInbox, hw, Option.bind_eq_bind, Option.bind_some, Option.isSome_map]
  cases w.inbox.enter? scope <;> rfl

/-- The reader of a scope. -/
def reader? (s : System) (gvr : GroupVersionResource) (scope : String) : Option Reader :=
  (s.registry.watcher? gvr).bind fun w => w.readers.get? scope

theorem reader?_setWatcher (s : System) (gvr : GroupVersionResource) (w : Watcher)
    (scope : String) : (s.setWatcher gvr w).reader? gvr scope = w.readers.get? scope := by
  rw [reader?, setWatcher, Registry.watcher?, SortedMap.get?_insert_self, Option.bind_some]

/-- A reader whose pause ends goes on reading. -/
theorem reader?_wake (hw : s.registry.watcher? gvr = some w) (hr : w.readers.get? scope = some r)
    (h : s.step (.wake gvr scope) = some (s', notes)) :
    s'.reader? gvr scope = some { r with state := .reading } := by
  obtain ⟨g, v, v', hv, hflows, rfl⟩ := (step_cases h rfl).exists_flows rfl
  cases hflows with
  | wakes hr' _ _ =>
    obtain rfl := Option.some.inj (hw.symm.trans hv)
    obtain rfl := Option.some.inj (hr.symm.trans hr')
    rw [reader?_setWatcher, SortedMap.get?_insert_self]

/-- A reader that puts in the event it has waited with goes on reading. -/
theorem reader?_enterInbox (hkept : w.Kept) (hw : s.registry.watcher? gvr = some w)
    (hr : w.readers.get? scope = some r)
    (h : s.step (.enterInbox gvr scope) = some (s', notes)) :
    r.state = .holding ∧ s'.reader? gvr scope = some { r with state := .reading } := by
  obtain ⟨g, v, v', hv, hflows, rfl⟩ := (step_cases h rfl).exists_flows rfl
  cases hflows with
  | enters henter =>
    obtain rfl := Option.some.inj (hw.symm.trans hv)
    obtain ⟨e, hholding, -⟩ := (hkept.orderly_of_enter? henter).brings hr henter
    refine ⟨hholding, ?_⟩
    rw [reader?_setWatcher, SortedMap.get?_modify, if_pos rfl, hr]
    rfl

theorem kept_fresh (applicationKind : KindDescriptor) (namespacesKey : String)
    (namespaces : List String) (capacity window now : Nat) :
    (fresh applicationKind namespacesKey namespaces capacity window now).Kept :=
  fun _ => .inl (Watcher.orderly_empty _)

/-- **A reader forwards what its stream yields, and failures neither lose an event nor flood the
log.**  Take any run, and a reader that was just started in the state it has led to.  Whatever
happens then, as long as the reader is not stopped and no `2 ^ 32` failures in a row are read:

* The reader reads what its stream was given, in order.  It sends exactly the events among that, in
  order; it holds the last of them back while it has to wait for room.  If the inbox is closed, it
  sends nothing and stops with the first event.  For no other reason does it stop before its stream
  is over.
* What the engine notes of failures of this stream is what the reader notes while it reads.  A
  failure is noted, with its place in the row of failures that began after the last event, exactly
  if the place is the first or a multiple of ten; so a row of `n` failures makes `1 + n / 10` notes.
  Nothing is noted of an event.
* The reader pauses after a failure and after nothing else.  Until the delay is over after a
  failure, the reader is pausing and reads nothing; from then on its pause can end, and then it goes
  on.  A reader that does not pause can read at once, unless it has to wait for room or has stopped.
* The reader waits for room only in an inbox that is open.  While it waits it can put its event in,
  or it stands among those who wait and every place in the inbox is taken; it is never left waiting
  where there is room.  Once its event is in the inbox it goes on. -/
theorem readings_exact (applicationKind : KindDescriptor) (namespacesKey : String)
    (namespaces : List String) (capacity window now : Nat) {before later : List Action}
    {s s' : System} {notes notes' : List Note} {gvr : GroupVersionResource} {scope : String}
    {w : Watcher}
    (hbefore : (fresh applicationKind namespacesKey namespaces capacity window now).run before =
      some (s, notes))
    (hw : s.registry.watcher? gvr = some w) (hr : w.readers.get? scope = some {})
    (hrun : s.run later = some (s', notes'))
    (hstay : ∀ a ∈ later, a ≠ .stop ∧ a ≠ .stopWatcher gvr)
    (hshort : ∀ run, run <:+: (s.diary gvr scope later).items →
      (∀ x ∈ run, x.isFailure = true) → run.length < UInt32.size) :
    let d := s.diary gvr scope later
    ∃ w' r, s'.registry.watcher? gvr = some w' ∧ w'.readers.get? scope = some r ∧
      -- what is read and sent
      d.given = d.items ++ r.unread ∧
      (w.inbox.closed = false → d.sent ++ w'.held scope = d.items.filterMap StreamItem.event? ∧
        (w'.held scope).length = if r.state = .holding then 1 else 0) ∧
      (w.inbox.closed = true → d.sent = [] ∧ ∀ x ∈ d.items.dropLast, x.isFailure = true) ∧
      (r.state = .ended → r.unread = [] ∧ r.isOpen = false ∨
        w.inbox.closed = true ∧ d.EndsWithEvent) ∧
      -- what is noted
      notes'.filter (Note.isFailureOf w.kind scope) = d.readings.flatMap StreamReading.notes ∧
      (∀ before run x after, d.readings = before ++ run ++ x :: after → IsRow before run →
        x.notes = match x.item with
          | .failure f =>
            if run.length + 1 = 1 ∨ 10 ∣ run.length + 1 then
              [.notice (.streamFailed w.kind scope (run.length + 1) f)]
            else []
          | .event _ => []) ∧
      (∀ before run after, d.readings = before ++ run ++ after → IsRow before run → run ≠ [] →
        (run.flatMap StreamReading.notes).length = 1 + run.length / 10) ∧
      -- when it pauses
      (∀ before x y after, d.readings = before ++ x :: y :: after → x.item.isFailure = true →
        x.time + retryDelay ≤ y.time) ∧
      (∀ x, d.readings.getLast? = some x → x.item.isFailure = true →
        s'.pipeline.now < x.time + retryDelay → r.state = .pausing (x.time + retryDelay)) ∧
      (∀ u, r.state = .pausing u → ∃ x, d.readings.getLast? = some x ∧
        x.item.isFailure = true ∧ u = x.time + retryDelay) ∧
      ((s'.step (.wake gvr scope)).isSome = true ↔
        ∃ u, r.state = .pausing u ∧ u ≤ s'.pipeline.now) ∧
      (∀ t more, s'.step (.wake gvr scope) = some (t, more) →
        t.reader? gvr scope = some { r with state := .reading }) ∧
      ((s'.step (.read gvr scope)).isSome = true ↔
        r.state = .reading ∧ (r.unread ≠ [] ∨ r.isOpen = false)) ∧
      -- when it waits for room
      (r.state = .holding → w.inbox.closed = false ∧
        ((s'.step (.enterInbox gvr scope)).isSome = true ∨
          scope ∈ w'.inbox.waiting.map (·.1) ∧ w'.inbox.taken = inboxRoom)) ∧
      (∀ t more, s'.step (.enterInbox gvr scope) = some (t, more) →
        r.state = .holding ∧ t.reader? gvr scope = some { r with state := .reading }) := by
  intro d
  obtain ⟨hroomed, hconsistent⟩ := consistent_run (roomed_fresh ..) (consistent_fresh ..) hbefore
  have hkept : s.Kept :=
    (kept_fresh applicationKind namespacesKey namespaces capacity window now).run hbefore
  have hwatcher := hkept gvr
  rw [Registry.watcherAt_of_watcher? hw] at hwatcher
  have hstart : Reader.Accords w.kind scope s.pipeline.now w.inbox.closed {} {} (w.held scope) := by
    rw [hwatcher.held_eq_nil hr (by simp)]
    exact Reader.accords_new ..
  obtain ⟨w', r, hw', hclosed, hr', hend⟩ := accords_run hkept hrun hstay hw hr hstart
  rw [Diary.empty_append] at hend
  have hwatcher' := hkept.run hrun gvr
  rw [Registry.watcherAt_of_watcher? hw'] at hwatcher'
  have hreports := reports_run hroomed hconsistent hkept hrun hstay hw hr
  have hlog : IsLog w.kind scope d.readings := hend.log
  -- a row of failures among the readings is one among the items
  have hrows : ∀ before run after, d.readings = before ++ run ++ after →
      (∀ x ∈ run, x.item.isFailure = true) → run.length < UInt32.size := by
    intro before run after hsplit hrun
    have hpart : run <:+: d.readings := ⟨before, after, hsplit.symm⟩
    have hitems := hshort (run.map StreamReading.item) (hpart.map _) fun x hx => by
      obtain ⟨y, hy, rfl⟩ := List.mem_map.mp hx
      exact hrun y hy
    rwa [List.length_map] at hitems
  refine ⟨w', r, hw', hr', hend.given, fun hopen => ⟨hend.sent hopen, ?_⟩,
    fun hc => ⟨(hend.unsent hc).1, (hend.givesUp hc).1⟩, hend.ended, hreports,
    fun before run x after hsplit hrow => ?_, fun before run after hsplit hrow hrun => ?_,
    fun before x y after hsplit hfailure => ?_, fun x hlast hfailure hearly => ?_, hend.pausing,
    isSome_wake_iff hw' hr', fun t more hwake => reader?_wake hw' hr' hwake,
    isSome_read_iff hw' hr', fun hholding => ⟨hend.waits hholding, ?_⟩,
    fun t more henter => reader?_enterInbox hwatcher' hw' hr' henter⟩
  · exact (hwatcher'.orderly (hclosed.trans hopen)).length_held hr'
  · refine (hsplit ▸ hlog).notes_eq hrow fun hfailure => ?_
    have hrun := hrows before (run ++ [x]) after (by simpa using hsplit) fun y hy =>
      (List.mem_append.mp hy).elim (hrow.failures y) fun hy => List.mem_singleton.mp hy ▸ hfailure
    rwa [List.length_append] at hrun
  · have hrowlog : IsLog w.kind scope (before ++ run ++ after) := hsplit ▸ hlog
    rw [hrowlog.length_notes hrow (hrows before run after hsplit hrow.failures), reportsOf,
      if_neg (by simpa using hrun)]
  · exact (hsplit ▸ hlog).paused hfailure
  · exact (hend.rested x hlast hfailure).resolve_right (Nat.not_le_of_lt hearly)
  · have horderly := hwatcher'.orderly (hclosed.trans (hend.waits hholding))
    exact (horderly.granted_or_full hr' hholding).imp_left (isSome_enterInbox_iff hw').mpr

/-- A reader is started for the applications. -/
def sampleStarting : List Action :=
  [.call 0 (.addToWatch sampleApplications), .checked (.caller 0) (.ok ())]

/-- Eleven failures, an event and another failure. -/
def sampleItems : List StreamItem :=
  List.replicate 11 (.failure .queueClosed) ++
    [.event (.apply sampleShop), .failure .queueClosed]

/-- The stream of the applications yields these, and the reader reads them all. -/
def sampleReadings : List Action :=
  let applications := sampleApplications.gvr
  .feed applications "" sampleItems ::
    (List.replicate 11 [.read applications "", .tick 1000, .wake applications ""]).flatten ++
      [.read applications "", .read applications ""]

/-- The reader is there, and it will have read everything, made three reports and begun a pause. -/
def isSampleReader (s : System) : Bool :=
  let d := s.diary sampleApplications.gvr "" sampleReadings
  (s.registry.watcher? sampleApplications.gvr).any (fun w =>
    w.readers.get? "" = some {} && !w.inbox.closed &&
    (s.run sampleReadings).any fun r =>
      r.1.pipeline.now = 11000 && (r.2.filter (Note.isFailureOf w.kind "")).length = 3 &&
      (r.1.registry.watcher? sampleApplications.gvr).any fun w' =>
        (w'.readers.get? "").any fun r => r.state = .pausing 12000 && r.unread = []) &&
  d.items.length = 13 && d.given = sampleItems

/-- In the sample run the one event is sent, and of twelve failures three are reported. -/
theorem readings_exact_after_failures :
    ∃ s notes w s' notes', sampleStart.run sampleStarting = some (s, notes) ∧
      s.registry.watcher? sampleApplications.gvr = some w ∧ w.readers.get? "" = some {} ∧
      s.run sampleReadings = some (s', notes') ∧
      let d := s.diary sampleApplications.gvr "" sampleReadings
      d.items = sampleItems ∧ d.sent = [.apply sampleShop] ∧
      (d.readings.flatMap StreamReading.notes).length = 3 ∧
      s'.step (.wake sampleApplications.gvr "") = none := by
  have hopened : (sampleStart.run sampleStarting).any (fun r => isSampleReader r.1) = true := by
    decide
  obtain ⟨⟨s, notes⟩, hbefore, hsample⟩ := (Option.any_eq_true _ _).mp hopened
  simp only [isSampleReader, Bool.and_eq_true, Option.any_eq_true, decide_eq_true_eq,
    Bool.not_eq_true'] at hsample
  obtain ⟨⟨⟨w, hw, ⟨hr, hopen⟩, ⟨s', notes'⟩, hrun, ⟨hnow, hthree⟩, v, hv, r, hr', hpausing, hall⟩,
    hlength⟩, hgiven⟩ := hsample
  obtain ⟨w', r', hw', hreader, horder, hsent, -, -, hreports, -, -, -, -, -, hwake, -, -, -, -⟩ :=
    readings_exact sampleApplications "namespaces" [] 64 0 0 hbefore hw hr hrun
      (by simp [sampleReadings]) fun run hrun _ => by
        have hle := hrun.length_le
        have hsize : 13 < UInt32.size := by decide
        omega
  obtain rfl := Option.some.inj (hv.symm.trans hw')
  obtain rfl := Option.some.inj (hr'.symm.trans hreader)
  rw [hall, List.append_nil, hgiven] at horder
  obtain ⟨hevents, hheld⟩ := hsent hopen
  rw [hpausing, if_neg (by simp)] at hheld
  rw [List.length_eq_zero_iff.mp hheld, List.append_nil, ← horder] at hevents
  refine ⟨s, notes, w, s', notes', hbefore, hw, hr, hrun, horder.symm, hevents, ?_, ?_⟩
  · rw [← hreports]
    exact hthree
  · rw [← Option.not_isSome_iff_eq_none, hwake]
    rintro ⟨u, hu, hover⟩
    rw [hpausing] at hu
    cases hu
    have hearly : 12000 ≤ s'.pipeline.now := hover
    rw [show s'.pipeline.now = 11000 from hnow] at hearly
    omega

end System

end AppWatch
