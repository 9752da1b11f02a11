import Mathlib
import GivenClause.Proofs.Transitions
import GivenClause.Search.Run

/-!
# Sequences of calls on a search

A caller may make single steps and whole runs, in any order and after any outcome.  A `Dialogue` is
such a sequence of calls together with their replies; a step that is refused for want of clauses leaves
everything as it was and does not count.  A `Session` is a dialogue of which only the contradictions
that were returned are told.

A run is a number of quiet steps and a last event: nothing is left, a contradiction is selected, or
the time is up (`saturate_cases`).  With that, a property of states holds throughout a session as
soon as transitions keep it and it does not look at status and time (`Session.invariant`).

The invariants of the search that speak about single clauses come from one place: a property of
literals that copies, factors and resolvents inherit (`Inherited`) holds of all clauses at all times
(`Everywhere.transition`).
-/

namespace GivenClause.Search

open Relation Unification

/-! ## Steps in a row -/

/-- One step leads from `s` to `t`. -/
def StepsTo (s t : State) : Prop := ∃ r, s.step = .ok r ∧ r.state = t

/-- One step leads from `s` to `t` and has not selected a contradiction. -/
def QuietlyTo (s t : State) : Prop := ∃ r, s.step = .ok r ∧ r.refutation = none ∧ r.state = t

/-- Whether a step is quiet can be found out by making it. -/
instance (s t : State) : Decidable (QuietlyTo s t) :=
  decidable_of_iff (s.step.toOption.any fun r => r.refutation = none ∧ r.state = t) <| by
    cases h : s.step <;> simp [QuietlyTo, h, Except.toOption]

/-- The search after `n` steps.  A step that is refused leaves it as it is. -/
def State.after (s : State) : ℕ → State
  | 0 => s
  | n + 1 =>
    match (s.after n).step with
    | .ok r => r.state
    | .error _ => s.after n

lemma after_succ_of_step {s : State} {n : ℕ} {r : Step} (h : (s.after n).step = .ok r) :
    s.after (n + 1) = r.state := by
  rw [State.after, h]

lemma after_succ_of_refused {s : State} {n : ℕ} {e : StepError} (h : (s.after n).step = .error e) :
    s.after (n + 1) = s.after n := by
  rw [State.after, h]

lemma after_add (s : State) (m n : ℕ) : s.after (m + n) = (s.after m).after n := by
  induction n with
  | zero => rfl
  | succ n ih => rw [← Nat.add_assoc, State.after, State.after, ih]

lemma QuietlyTo.transition {s t : State} (h : QuietlyTo s t) : Transition s t none := by
  obtain ⟨r, hr, hnone, rfl⟩ := h
  exact hnone ▸ step_transition hr

lemma QuietlyTo.stepsTo {s t : State} (h : QuietlyTo s t) : StepsTo s t := by
  obtain ⟨r, hr, -, hstate⟩ := h
  exact ⟨r, hr, hstate⟩

lemma StepsTo.transition {s t : State} (h : StepsTo s t) : ∃ w, Transition s t w := by
  obtain ⟨r, hr, rfl⟩ := h
  exact ⟨r.refutation, step_transition hr⟩

lemma Transition.settings_eq {s t : State} {w : Option Clause} (h : Transition s t w) :
    t.settings = s.settings := by
  cases h with
  | refuted select | tautology select | subsumed select | inferred select =>
      obtain ⟨-, -, -, -, rfl⟩ := select
      rfl

/-! ## Runs -/

lemma Transition.status_refuted {s t : State} {w : Clause} (h : Transition s t (some w)) :
    t.status = .refuted := by
  cases h with
  | refuted => rfl

/-- How a run ends that came quietly to `t`, as seen in its last state and its result.  Status and
time aside, the last state is `t` or the result of one more step. -/
inductive Ending (limit : Option TimeLimit) (t : State) : State → Option Clause → Prop
  | saturated {elapsed : Seconds} (empty : t.unprocessed.isEmpty = true) :
      Ending limit t { t with status := .saturated, elapsed := elapsed } none
  | refuted {r : Step} {c : Clause} {elapsed : Seconds} (step : t.step = .ok r)
      (found : r.refutation = some c) :
      Ending limit t { r.state with elapsed := elapsed } (some c)
  | timedOut {r : Step} {elapsed : Seconds} (limited : limit ≠ none) (step : t.step = .ok r)
      (quiet : r.refutation = none) :
      Ending limit t { r.state with status := .timedOut, elapsed := elapsed } none

lemma runFrom_cases {limit : Option TimeLimit} {start : Seconds} {steps : ℕ} {clock : Clock}
    {past : List Event} {s : State} {run : Run}
    (h : State.runFrom limit start steps clock past s = .ok run) :
    ∃ t, ReflTransGen QuietlyTo s t ∧ Ending limit t run.state run.refutation := by
  induction steps generalizing clock past s with
  | zero =>
      rw [State.runFrom] at h
      split_ifs at h with hempty
      cases h
      exact ⟨s, .refl, .saturated hempty⟩
  | succ steps ih =>
      rw [State.runFrom] at h
      split_ifs at h with hempty
      · cases h
        exact ⟨s, .refl, .saturated hempty⟩
      · simp only at h
        split at h
        · cases h
        · rename_i r hr
          split at h
          · rename_i c hc
            cases h
            exact ⟨s, .refl, .refuted hr hc⟩
          · rename_i hquiet
            split at h
            · rename_i clock' hexpired
              cases h
              refine ⟨s, .refl, .timedOut ?_ hr hquiet⟩
              rintro rfl
              simp [State.expired] at hexpired
            · obtain ⟨t, hst, hend⟩ := ih h
              exact ⟨t, .head ⟨r, hr, hquiet, rfl⟩ hst, hend⟩

/-- **A run is quiet steps and an ending.** -/
theorem saturate_cases {limit : Option TimeLimit} {steps : ℕ} {clock : Clock} {s : State} {run : Run}
    (h : s.saturate limit clock steps = .ok run) :
    ∃ t, ReflTransGen QuietlyTo s t ∧ Ending limit t run.state run.refutation := by
  rw [State.saturate] at h
  cases hrun : State.runFrom limit clock.read.1 steps clock.read.2 [] s with
  | error e => simp [hrun, bind, Except.bind] at h
  | ok run' =>
      simp only [hrun, bind, Except.bind, pure, Except.pure, Except.ok.injEq] at h
      obtain ⟨t, hst, hend⟩ := runFrom_cases hrun
      refine ⟨t, hst, ?_⟩
      obtain ⟨last, found, events, clock'⟩ := run'
      simp only at hend
      rw [← h]
      cases hend with
      | saturated empty => exact .saturated empty
      | refuted step found => exact .refuted step found
      | timedOut limited step quiet => exact .timedOut limited step quiet

/-- **Runs that end.**  If every quiet transition goes down in a well-founded order and no step
fails while a clause waits, a run without a limit comes to its end, and more steps make no
difference. -/
theorem runFrom_ends {α : Type} [LT α] [WellFoundedLT α] {P : State → Prop} (μ : State → α)
    (progress : ∀ {s}, P s → s.unprocessed.isEmpty = false → ∃ r, s.step = .ok r)
    (descent : ∀ {s t}, P s → Transition s t none → P t ∧ μ t < μ s)
    (start : Seconds) (clock : Clock) (past : List Event) {s : State} (hs : P s) :
    ∃ bound run, ∀ steps, bound ≤ steps →
      State.runFrom none start steps clock past s = .ok run := by
  induction hm : μ s using WellFoundedLT.induction generalizing s past with
  | _ m ih =>
      cases hempty : s.unprocessed.isEmpty with
      | true =>
          refine ⟨0, ⟨{ s with status := .saturated }, none, past.reverse, clock⟩, ?_⟩
          intro steps _
          cases steps <;> rw [State.runFrom, if_pos hempty]
      | false =>
          obtain ⟨r, hr⟩ := progress hs hempty
          cases hfound : r.refutation with
          | some c =>
              refine ⟨1, ⟨r.state, some c, (r.events.reverse ++ past).reverse, clock⟩, ?_⟩
              intro steps hsteps
              obtain ⟨steps, rfl⟩ := Nat.exists_eq_add_of_le' hsteps
              rw [State.runFrom, if_neg (by simp [hempty])]
              simp only [hr, hfound]
          | none =>
              obtain ⟨ht, hlt⟩ := descent hs (hfound ▸ step_transition hr)
              obtain ⟨bound, run, hrun⟩ := ih _ (hm ▸ hlt) (r.events.reverse ++ past) ht rfl
              refine ⟨bound + 1, run, fun steps hsteps => ?_⟩
              obtain ⟨steps, rfl⟩ := Nat.exists_eq_add_of_le' (Nat.le_of_add_left_le hsteps)
              rw [State.runFrom, if_neg (by simp [hempty])]
              simp only [hr, hfound, State.expired]
              exact hrun steps (by omega)

/-- A run is what its steps come to, with the time that it took. -/
lemma saturate_eq_ok {limit : Option TimeLimit} {s : State} {clock : Clock} {steps : ℕ} {run : Run}
    (h : State.runFrom limit clock.read.1 steps clock.read.2 [] s = .ok run) :
    s.saturate limit clock steps = .ok { run with
      clock := run.clock.read.2
      state := { run.state with
        elapsed := run.state.elapsed + (run.clock.read.1 - clock.read.1) } } := by
  rw [State.saturate]
  simp only [h, bind, Except.bind]
  rfl

lemma saturate_of_runFrom {limit : Option TimeLimit} {s : State} {clock : Clock} {bound : ℕ}
    {run : Run} (h : ∀ steps, bound ≤ steps →
      State.runFrom limit clock.read.1 steps clock.read.2 [] s = .ok run) :
    ∃ run, ∀ steps, bound ≤ steps → s.saturate limit clock steps = .ok run :=
  ⟨_, fun steps hsteps => saturate_eq_ok (h steps hsteps)⟩

/-! ## Sessions -/

/-- What a call replied: the contradiction that it returned, if any. -/
inductive Reply where
  | step (found : Option Clause)
  | run (found : Option Clause)

/-- The contradiction in a reply. -/
def Reply.found : Reply → Option Clause
  | .step found => found
  | .run found => found

/-- The calls that lead from `s` to another state, with all their replies.  A step that is refused
because nothing waits has no reply and leaves the search as it is. -/
inductive Dialogue (s : State) : State → List Reply → Prop
  | start : Dialogue s s []
  | step {t : State} {r : Step} {replies : List Reply} (before : Dialogue s t replies)
      (call : t.step = .ok r) : Dialogue s r.state (replies ++ [.step r.refutation])
  | refused {t : State} {replies : List Reply} (before : Dialogue s t replies)
      (call : t.step = .error .nothingLeft) : Dialogue s t replies
  | saturate {t : State} {limit : Option TimeLimit} {clock : Clock} {steps : ℕ} {run : Run}
      {replies : List Reply} (before : Dialogue s t replies)
      (call : t.saturate limit clock steps = .ok run) :
      Dialogue s run.state (replies ++ [.run run.refutation])

/-- The contradictions that were returned, in their order. -/
def returned (replies : List Reply) : List Clause := replies.filterMap Reply.found

/-- Calls lead from `s` to `t` and return these contradictions. -/
def Session (s t : State) (contradictions : List Clause) : Prop :=
  ∃ replies, Dialogue s t replies ∧ returned replies = contradictions

lemma returned_append_singleton (replies : List Reply) (reply : Reply) :
    returned (replies ++ [reply]) = returned replies ++ reply.found.toList := by
  cases hfound : reply.found <;> simp [returned, hfound]

lemma Session.start {s : State} : Session s s [] := ⟨[], .start, rfl⟩

lemma Session.saturate {s t : State} {limit : Option TimeLimit} {clock : Clock} {steps : ℕ} {run : Run}
    {contradictions : List Clause} (before : Session s t contradictions)
    (call : t.saturate limit clock steps = .ok run) :
    Session s run.state (contradictions ++ run.refutation.toList) := by
  obtain ⟨replies, hbefore, rfl⟩ := before
  exact ⟨_, hbefore.saturate call, returned_append_singleton _ _⟩

lemma quiet_invariant {P : State → Prop} {s t : State}
    (step : ∀ {s t}, P s → Transition s t none → P t) (hs : P s)
    (h : ReflTransGen QuietlyTo s t) : P t := by
  induction h with
  | refl => exact hs
  | tail _ hstep ih => exact step ih hstep.transition

lemma steps_invariant {P : State → Prop} {s t : State}
    (step : ∀ {s t w}, P s → Transition s t w → P t) (hs : P s)
    (h : ReflTransGen StepsTo s t) : P t := by
  induction h with
  | refl => exact hs
  | tail _ hstep ih =>
      obtain ⟨w, htransition⟩ := hstep.transition
      exact step ih htransition

/-- **What transitions keep, holds throughout a session**, if it does not depend on status and time;
and every contradiction that is returned was selected in a state with that property. -/
theorem Session.invariant {P : State → Prop} {s t : State} {contradictions : List Clause}
    (step : ∀ {s t w}, P s → Transition s t w → P t)
    (ignores : ∀ {s : State} (status : Status) (elapsed : Seconds),
      P s → P { s with status := status, elapsed := elapsed })
    (hs : P s) (h : Session s t contradictions) :
    P t ∧ ∀ c ∈ contradictions, ∃ u v, P u ∧ Transition u v (some c) := by
  obtain ⟨replies, dialogue, rfl⟩ := h
  induction dialogue with
  | start => exact ⟨hs, by simp [returned]⟩
  | step before call ih =>
      obtain ⟨hP, hreturned⟩ := ih
      have htransition := step_transition call
      refine ⟨step hP htransition, fun c hc => ?_⟩
      rw [returned_append_singleton] at hc
      rcases List.mem_append.1 hc with hc | hc
      · exact hreturned c hc
      · rw [Option.mem_toList, Reply.found] at hc
        exact ⟨_, _, hP, hc ▸ htransition⟩
  | refused _ _ ih => exact ih
  | saturate before call ih =>
      obtain ⟨hP, hreturned⟩ := ih
      obtain ⟨u, hquiet, hend⟩ := saturate_cases call
      have hu : P u := quiet_invariant step hP hquiet
      rename_i run _
      rw [returned_append_singleton]
      generalize run.state = last at hend ⊢
      generalize run.refutation = found at hend ⊢
      cases hend with
      | saturated empty => exact ⟨ignores _ _ hu, by simpa [Reply.found] using hreturned⟩
      | refuted hstep hfound =>
          have htransition := step_transition hstep
          refine ⟨ignores _ _ (step hu htransition), fun c hc => ?_⟩
          rcases List.mem_append.1 hc with hc | hc
          · exact hreturned c hc
          · rw [Option.mem_toList, Reply.found] at hc
            rw [hfound, hc] at htransition
            exact ⟨_, _, hu, htransition⟩
      | timedOut limited hstep hnone =>
          exact ⟨ignores _ _ (step hu (step_transition hstep)), by simpa [Reply.found] using hreturned⟩

/-! ## What all clauses have in common -/

/-- A property of literals that fresh copies and conclusions inherit. -/
structure Inherited (cycles : Cycles) (Q : List Literal → Prop) : Prop where
  copy : ∀ {ls ms : List Literal}, Variant ls ms → Q ls → Q ms
  factor : ∀ {c r : Clause} {i j : ℕ}, i < j → Q c.literals →
    factor cycles c i j = .ok (some r) → Q r.literals
  resolve : ∀ {c d r : Clause} {i j : ℕ}, Q c.literals → Q d.literals →
    resolve cycles c i d j = .ok (some r) → Q r.literals

/-- All clauses of a search, waiting or processed, have the property. -/
def Everywhere (Q : List Literal → Prop) (s : State) : Prop :=
  (∀ c ∈ s.unprocessed.items, Q c.literals) ∧ ∀ c ∈ s.processed, Q c.literals

/-- Selecting a clause leaves the others waiting, and the copy is a variant of it. -/
lemma Selects.items_perm {s s' : State} {chosen given : Clause} (h : Selects s chosen given s') :
    s.unprocessed.items.Perm (chosen :: s'.unprocessed.items) := by
  obtain ⟨queue, names, hqueue, -, rfl⟩ := h
  exact Queue.extractBest_perm hqueue

lemma Selects.variant {s s' : State} {chosen given : Clause} (h : Selects s chosen given s') :
    Variant chosen.literals given.literals := by
  obtain ⟨queue, names, -, hcopy, -⟩ := h
  exact Clause.variant_of_freshCopy hcopy

lemma Selects.processed_eq {s s' : State} {chosen given : Clause} (h : Selects s chosen given s') :
    s'.processed = s.processed := by
  obtain ⟨-, -, -, -, rfl⟩ := h
  rfl

lemma Selects.settings_eq {s s' : State} {chosen given : Clause} (h : Selects s chosen given s') :
    s'.settings = s.settings := by
  obtain ⟨-, -, -, -, rfl⟩ := h
  rfl

lemma kept_subset (s : State) (given : Clause) : s.kept given ⊆ s.processed := by
  rw [State.kept]
  split_ifs
  · exact List.filter_subset_self _
  · exact List.Subset.refl _

/-- Selection keeps a common property, and hands it to the copy. -/
lemma Everywhere.select {Q : List Literal → Prop} {s s' : State} {chosen given : Clause}
    (copy : ∀ {ls ms : List Literal}, Variant ls ms → Q ls → Q ms) (h : Everywhere Q s)
    (hselect : Selects s chosen given s') : Everywhere Q s' ∧ Q given.literals := by
  have hperm := hselect.items_perm
  refine ⟨⟨fun c hc => h.1 c (hperm.mem_iff.2 (List.mem_cons_of_mem _ hc)), ?_⟩, ?_⟩
  · rw [hselect.processed_eq]
    exact h.2
  · exact copy hselect.variant (h.1 chosen (hperm.mem_iff.2 List.mem_cons_self))

/-- **An inherited property is kept by every transition**, and a selected contradiction has it. -/
theorem Everywhere.transition {Q : List Literal → Prop} {s t : State} {w : Option Clause}
    (hQ : Inherited s.settings.cycles Q) (h : Everywhere Q s) (ht : Transition s t w) :
    Everywhere Q t ∧ ∀ c ∈ w, Q c.literals := by
  cases ht with
  | refuted select =>
      obtain ⟨hs', hgiven⟩ := h.select hQ.copy select
      exact ⟨hs', by rintro c ⟨⟩; exact hgiven⟩
  | tautology select | subsumed select => exact ⟨(h.select hQ.copy select).1, by simp⟩
  | @inferred chosen given s' factors resolvents names names' select _ _ _ factored resolved =>
      obtain ⟨hs', hgiven⟩ := h.select hQ.copy select
      rw [← select.settings_eq] at hQ
      refine ⟨⟨fun c hc => ?_, fun c hc => ?_⟩, by simp⟩
      · rw [Queue.items_insertAll] at hc
        rcases List.mem_append.1 hc with hc | hc
        · exact hs'.1 c hc
        · rcases List.mem_append.1 hc with hc | hc
          · obtain ⟨found, hnamed, hfound⟩ := allFactors_eq factored
            obtain ⟨r, hr, hlits⟩ := mem_nameConclusions hnamed hc
            obtain ⟨-, i, j, hij, hfactor⟩ := (hfound _ _).1 hr
            exact hlits ▸ hQ.factor hij hgiven hfactor
          · obtain ⟨found, hnamed, hfound⟩ := allResolvents_eq resolved
            obtain ⟨r, hr, hlits⟩ := mem_nameConclusions hnamed hc
            obtain ⟨d, hd, -, i, j, hresolve⟩ := (hfound _ _).1 hr
            exact hlits ▸ hQ.resolve hgiven (hs'.2 d (kept_subset s' given hd)) hresolve
      · rcases List.mem_append.1 hc with hc | hc
        · exact hs'.2 c (kept_subset s' given hc)
        · rw [List.mem_singleton] at hc
          exact hc ▸ hgiven

/-! ## The start -/

/-- Naming the input changes names only. -/
lemma mem_nameClauses {names : NameSupply} {clauses : List Clause} {c : Clause}
    (h : c ∈ (nameClauses names clauses).1) : ∃ d ∈ clauses, c = { d with name := c.name } := by
  induction clauses generalizing names with
  | nil => simp [nameClauses] at h
  | cons d rest ih =>
      rcases List.mem_cons.1 h with rfl | h
      · exact ⟨d, List.mem_cons_self, rfl⟩
      · obtain ⟨d', hd', hc⟩ := ih h
        exact ⟨d', List.mem_cons_of_mem _ hd', hc⟩

lemma exists_mem_nameClauses {names : NameSupply} {clauses : List Clause} {d : Clause}
    (h : d ∈ clauses) : ∃ c ∈ (nameClauses names clauses).1, c.literals = d.literals := by
  induction clauses generalizing names with
  | nil => cases h
  | cons d' rest ih =>
      rcases List.mem_cons.1 h with rfl | h
      · exact ⟨_, List.mem_cons_self, rfl⟩
      · obtain ⟨c, hc, hlits⟩ := @ih (names.assign d'.name).2 h
        exact ⟨c, List.mem_cons_of_mem _ hc, hlits⟩

lemma items_start (schedule : Schedule) (settings : Settings) (names : NameSupply)
    (clauses : List Clause) :
    (State.start schedule settings names clauses).unprocessed.items
      = (nameClauses names clauses).1 := by
  rw [State.start]
  exact Queue.items_insertAll _ _

lemma everywhere_start {Q : List Literal → Prop} (schedule : Schedule) (settings : Settings)
    (names : NameSupply) {clauses : List Clause} (h : ∀ c ∈ clauses, Q c.literals) :
    Everywhere Q (State.start schedule settings names clauses) := by
  refine ⟨fun c hc => ?_, by simp [State.start]⟩
  rw [items_start] at hc
  obtain ⟨d, hd, hcd⟩ := mem_nameClauses hc
  rw [hcd]
  exact h d hd

end GivenClause.Search
