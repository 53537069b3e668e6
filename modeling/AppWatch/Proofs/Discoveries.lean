/-
# What is remembered of discovery

Three things can come of a discovery: the kind that is served, that none is, or a failure.  The
first two are answers and are remembered, the third leaves no trace.  So the memory is told by the
lookups that were made: it holds an answer for a declared kind exactly if a lookup of this very kind
has led to it (`answer?_after`), and since a remembered answer is not asked for again, all of them
led to the same.

`KindCache.history` puts beside each lookup what has come of it.  That a failure leaves no trace and
that kinds do not mix are then equations between histories.  The second needs memories that agree on
one kind only (`history_filter`): the memory of the lookups of one kind has forgotten the others.

An exchange with the API server looks kinds up in the same way (`play_resolveKind`).
-/
import AppWatch.Api.Client
import AppWatch.Rehearsal.Server
import Mathlib.Data.List.Basic

namespace AppWatch

/-! ## 1. Lookups and their history -/

/-- A lookup of a declared kind, with what discovery would say to it at that time. -/
structure KindQuery where
  component : GroupKind
  discovery : Discovery

/-- A lookup with what has come of it. -/
structure PastLookup extends KindQuery where
  lookup : KindLookup

/-- A lookup has led to an answer: a kind, or that none is served. -/
def PastLookup.Succeeded (p : PastLookup) : Prop := ∃ answer, p.lookup.result = .ok answer

namespace KindCache

/-- The memory after some lookups. -/
def after (c : KindCache) (qs : List KindQuery) : KindCache :=
  qs.foldl (fun c q => (c.resolve q.component q.discovery).2) c

/-- Some lookups, one after the other, with what comes of each. -/
def history (c : KindCache) : List KindQuery → List PastLookup
  | [] => []
  | q :: qs =>
    let (lookup, c') := c.resolve q.component q.discovery
    { q with lookup } :: c'.history qs

variable {c c' : KindCache} {k : GroupKind} {q : KindQuery} {qs qs' : List KindQuery}
  {answer : Option KindDescriptor}

theorem history_append (c : KindCache) (qs qs' : List KindQuery) :
    c.history (qs ++ qs') = c.history qs ++ (c.after qs).history qs' := by
  induction qs generalizing c with
  | nil => rfl
  | cons q qs ih => exact congrArg (_ :: ·) (ih _)

/-- A history is of the lookups that were made. -/
theorem map_history (c : KindCache) (qs : List KindQuery) :
    (c.history qs).map PastLookup.toKindQuery = qs := by
  induction qs generalizing c with
  | nil => rfl
  | cons q qs ih => exact congrArg (q :: ·) (ih _)

/-- A history divides where its lookups do. -/
theorem history_split {before after : List PastLookup} {p : PastLookup}
    (h : c.history qs = before ++ p :: after) :
    ∃ qs₁ qs₂, qs = qs₁ ++ p.toKindQuery :: qs₂ ∧ c.history qs₁ = before ∧
      p.lookup = ((c.after qs₁).resolve p.component p.discovery).1 ∧
      ((c.after qs₁).resolve p.component p.discovery).2.history qs₂ = after := by
  have hqs := map_history c qs
  rw [h, List.map_append, List.map_cons] at hqs
  refine ⟨_, _, hqs.symm, ?_⟩
  rw [← hqs, history_append] at h
  have hlength : (c.history (before.map PastLookup.toKindQuery)).length = before.length := by
    have hmap := congrArg List.length (map_history c (before.map PastLookup.toKindQuery))
    simpa using hmap
  obtain ⟨hbefore, hrest⟩ := List.append_inj h hlength
  obtain ⟨hp, hafter⟩ := List.cons.inj hrest
  exact ⟨hbefore, (congrArg PastLookup.lookup hp).symm, hafter⟩

/-! ## 2. What the memory holds -/

/-- A lookup is answered from the memory, or with what discovery says. -/
theorem resolve_lookup (c : KindCache) (k : GroupKind) (d : Discovery) :
    (c.resolve k d).1 =
      match c.answer? k with
      | some answer => ⟨.ok answer, false⟩
      | none => ⟨d, true⟩ := by
  unfold resolve
  cases c.answer? k <;> rfl

/-- A failed discovery leaves no trace. -/
theorem resolve_error (c : KindCache) (k : GroupKind) (f : Failure) :
    (c.resolve k (.error f)).2 = c := by
  unfold resolve
  cases c.answer? k <;> rfl

/-- A lookup leaves what is remembered of other kinds as it is. -/
theorem answer?_resolve_of_ne (c : KindCache) {k k' : GroupKind} (d : Discovery) (hk : k' ≠ k) :
    (c.resolve k d).2.answer? k' = c.answer? k' := by
  unfold resolve
  cases c.answer? k with
  | some answer => rfl
  | none =>
    cases d with
    | error f => rfl
    | ok answer => exact SortedMap.get?_insert_of_ne _ hk _

/-- **After a lookup the memory holds what the lookup has led to**, and nothing if it failed. -/
theorem answer?_resolve_self (c : KindCache) (k : GroupKind) (d : Discovery) :
    (c.resolve k d).2.answer? k = some answer ↔ (c.resolve k d).1.result = .ok answer := by
  rw [resolve_lookup]
  unfold resolve
  cases hk : c.answer? k with
  | some first => simp [hk]
  | none =>
    cases d with
    | error f => simp [remember, hk]
    | ok first => simp [remember, answer?, SortedMap.get?_insert_self]

/-- **The memory holds the answers that lookups have led to**, beside those it held before. -/
theorem answer?_after (c : KindCache) (qs : List KindQuery) :
    (c.after qs).answer? k = some answer ↔ c.answer? k = some answer ∨
      ∃ p ∈ c.history qs, p.component = k ∧ p.lookup.result = .ok answer := by
  induction qs generalizing c with
  | nil => simp [after, history]
  | cons q qs ih =>
    have hafter : c.after (q :: qs) = (c.resolve q.component q.discovery).2.after qs := rfl
    have hstep : (c.resolve q.component q.discovery).2.answer? k = some answer ↔
        c.answer? k = some answer ∨
          q.component = k ∧ (c.resolve q.component q.discovery).1.result = .ok answer := by
      by_cases hk : q.component = k
      · subst hk
        rw [answer?_resolve_self, resolve_lookup]
        cases c.answer? q.component <;> simp
      · rw [answer?_resolve_of_ne c _ (Ne.symm hk)]
        simp [hk]
    rw [hafter, ih, hstep, history]
    simp only [List.mem_cons, exists_eq_or_imp, or_assoc]

/-! ## 3. What can be left out -/

/-- **The lookups of one kind have a history of their own**, from any memory that agrees on it. -/
theorem history_filter (h : c.answer? k = c'.answer? k) (qs : List KindQuery) :
    c.history (qs.filter fun q => q.component = k) =
      (c'.history qs).filter fun p => p.component = k := by
  induction qs generalizing c c' with
  | nil => rfl
  | cons q qs ih =>
    by_cases hk : q.component = k
    · subst hk
      have hlookup : (c.resolve q.component q.discovery).1 =
          (c'.resolve q.component q.discovery).1 := by
        rw [resolve_lookup, resolve_lookup, h]
      have hagree : (c.resolve q.component q.discovery).2.answer? q.component =
          (c'.resolve q.component q.discovery).2.answer? q.component := by
        refine Option.ext fun answer => ?_
        rw [answer?_resolve_self, answer?_resolve_self, hlookup]
      simp only [List.filter_cons, decide_true, history, hlookup, ih hagree, if_true]
    · have hagree : c.answer? k = (c'.resolve q.component q.discovery).2.answer? k := by
        rw [answer?_resolve_of_ne c' _ (Ne.symm hk)]
        exact h
      simp [history, hk, ih hagree]

end KindCache

/-! ## 4. Lookups over the API -/

/-- To change the value that an exchange comes to changes nothing about the way there. -/
theorem Exchange.play_andThen_done {α β : Type} (e : Exchange α) (f : α → β) (s : ScriptedServer) :
    (e.andThen fun a => done (.ok (f a))).play s =
      { e.play s with result := (e.play s).result.map fun r => r.map f } := by
  induction e generalizing s with
  | done result => cases result <;> rfl
  | ask r next ih =>
    simp only [andThen, play]
    split
    · rfl
    · simp only [ih]
  | report n next ih => simp only [andThen, play, ih]

/-- **An exchange looks a kind up as the memory does.**  A remembered kind is answered without a
request; otherwise the exchange is that of discovery, and the answer is remembered unless there is
none. -/
theorem Exchange.play_resolveKind (s : ScriptedServer) (c : KindCache) (k : GroupKind) :
    (resolveKind c k).play s =
      match c.answer? k with
      | some answer => { result := some (.ok (answer, c)), server := s }
      | none =>
        { (discover k).play s with
          result := ((discover k).play s).result.map fun r => r.map fun answer =>
            (answer, (c.resolve k (.ok answer)).2) } := by
  unfold resolveKind
  cases hk : c.answer? k with
  | some answer => rfl
  | none =>
    have hremember : ∀ answer, (c.resolve k (.ok answer)).2 = c.remember k (.ok answer) := by
      intro answer
      simp only [KindCache.resolve, hk]
    simp only [hremember]
    exact play_andThen_done (discover k) (fun answer => (answer, c.remember k (.ok answer))) s

/-! ## 5. The memory and its history -/

namespace KindCache

variable {qs : List KindQuery} {before after : List PastLookup} {p e : PastLookup}
  {answer : Option KindDescriptor}

/-- Discovery is asked exactly if no earlier lookup of the kind has led to an answer. -/
theorem asked_iff (h : history {} qs = before ++ p :: after) :
    p.lookup.asked = true ↔ ∀ e ∈ before, e.component = p.component → ¬ e.Succeeded := by
  obtain ⟨qs₁, -, -, rfl, hp, -⟩ := history_split h
  rw [hp, resolve_lookup]
  cases hanswer : (KindCache.after {} qs₁).answer? p.component with
  | some answer =>
    obtain ⟨e, he, hk, hresult⟩ :=
      ((answer?_after {} qs₁).mp hanswer).resolve_left (by simp [answer?])
    simp only [Bool.false_eq_true, false_iff]
    exact fun hnone => hnone e he hk ⟨answer, hresult⟩
  | none =>
    simp only [true_iff]
    rintro e he hk ⟨answer, hresult⟩
    have hsome := (answer?_after {} qs₁).mpr (.inr ⟨e, he, hk, hresult⟩)
    exact absurd (hanswer.symm.trans hsome) (by simp)

/-- What an earlier lookup of the kind has led to is what a lookup comes to. -/
theorem result_of_earlier (h : history {} qs = before ++ p :: after) (he : e ∈ before)
    (hk : e.component = p.component) (hresult : e.lookup.result = .ok answer) :
    p.lookup.result = .ok answer := by
  obtain ⟨qs₁, -, -, rfl, hp, -⟩ := history_split h
  rw [hp, resolve_lookup, (answer?_after {} qs₁).mpr (.inr ⟨e, he, hk, hresult⟩)]

/-- What discovery says when it is asked is the result. -/
theorem result_of_asked (h : history {} qs = before ++ p :: after)
    (hasked : p.lookup.asked = true) : p.lookup.result = p.discovery := by
  obtain ⟨qs₁, -, -, -, hp, -⟩ := history_split h
  rw [hp, resolve_lookup] at hasked ⊢
  cases hanswer : (KindCache.after {} qs₁).answer? p.component with
  | some answer => simp [hanswer] at hasked
  | none => rfl

/-- A lookup fails because discovery fails. -/
theorem discovery_of_error {f : Failure} (h : history {} qs = before ++ p :: after)
    (hf : p.lookup.result = .error f) : p.discovery = .error f := by
  have hasked : p.lookup.asked = true := by
    rw [asked_iff h]
    rintro e he hk ⟨answer, hresult⟩
    exact absurd (hf.symm.trans (result_of_earlier h he hk hresult)) (by simp)
  exact (result_of_asked h hasked).symm.trans hf

/-- **What is remembered of discovery is told by the lookups that were made.**  Take any lookups of
any kinds, whatever discovery would say to each of them, and one lookup among them.

* Discovery is asked exactly if no earlier lookup of an equal kind has succeeded, and then what it
  says is the result, a failure too.
* If one has, the result is what discovery said to the first that did, the answer that none is
  served included, whatever it would say now.
* If the lookup fails, all others come to what they would have come to without it.

And the lookups of one kind come to what they would have come to alone. -/
theorem lookups_exact (qs : List KindQuery) :
    (∀ before p after, history {} qs = before ++ p :: after →
      (p.lookup.asked = true ↔ ∀ e ∈ before, e.component = p.component → ¬ e.Succeeded) ∧
      (p.lookup.asked = true → p.lookup.result = p.discovery) ∧
      (∀ earlier first since answer, before = earlier ++ first :: since →
        (∀ e ∈ earlier, e.component = p.component → ¬ e.Succeeded) →
        first.component = p.component → first.lookup.result = .ok answer →
        first.discovery = .ok answer ∧ p.lookup.result = .ok answer) ∧
      (∀ f, p.lookup.result = .error f →
        p.discovery = .error f ∧
          history {} ((before ++ after).map PastLookup.toKindQuery) = before ++ after)) ∧
    ∀ k, history {} (qs.filter fun q => q.component = k) =
      (history {} qs).filter fun p => p.component = k := by
  refine ⟨fun before p after h => ⟨asked_iff h, result_of_asked h, ?_, ?_⟩,
    fun k => history_filter rfl qs⟩
  · rintro earlier first since answer rfl hnone hk hresult
    refine ⟨?_, result_of_earlier h (by simp) hk hresult⟩
    have hfirst : history {} qs = earlier ++ first :: (since ++ p :: after) := by
      simpa using h
    have hasked := (asked_iff hfirst).mpr fun e he hek => hnone e he (hek.trans hk)
    exact (result_of_asked hfirst hasked).symm.trans hresult
  · intro f hf
    have hd := discovery_of_error h hf
    refine ⟨hd, ?_⟩
    obtain ⟨qs₁, qs₂, -, rfl, -, rfl⟩ := history_split h
    rw [hd, resolve_error, ← history_append, map_history]

/-- Discovery fails for widgets, then finds that none are served, and would find them later; between
that deployments are found. -/
def sampleQueries : List KindQuery :=
  let widgets : GroupKind := ⟨"example.com", "Widget"⟩
  [⟨widgets, .error (.unexpectedObject "discovery unavailable")⟩, ⟨widgets, .ok none⟩,
    ⟨⟨"apps", "Deployment"⟩, .ok (some ⟨⟨"apps", "v1", "deployments"⟩, "Deployment", true⟩)⟩,
    ⟨widgets, .ok (some ⟨⟨"example.com", "v1", "widgets"⟩, "Widget", true⟩)⟩]

/-- In the sample widgets are not served for good: the last lookup does not ask, and comes to what
discovery said when it had not failed. -/
theorem lookups_exact_not_served :
    ∃ before p, history {} sampleQueries = before ++ [p] ∧ p.lookup.asked = false ∧
      p.lookup.result = .ok none := by
  have hsplit : ∃ p, history {} sampleQueries = (history {} sampleQueries).take 3 ++ [p] ∧
      p.component = ⟨"example.com", "Widget"⟩ ∧ p.lookup.asked = false := ⟨_, rfl, rfl, rfl⟩
  obtain ⟨p, hsplit, hk, hasked⟩ := hsplit
  refine ⟨_, p, hsplit, hasked, ?_⟩
  obtain ⟨-, -, hfirst, -⟩ := (lookups_exact sampleQueries).1 _ p [] hsplit
  refine (hfirst [_] _ [_] none rfl ?_ hk.symm rfl).2
  rintro e he - ⟨answer, hresult⟩
  rw [List.mem_singleton.mp he] at hresult
  cases hresult

end KindCache

end AppWatch
