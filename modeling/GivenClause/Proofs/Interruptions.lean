import Mathlib
import GivenClause.Proofs.Sessions

/-!
# Interrupted searches

A run with a time limit may stop long before the search is over, and the next run takes the search up
where it was left.  Nothing but the time and the verdict shows that there was an interruption.

**Work.**  `State.work` is a search without its verdict and the time it took: the clauses with their
scores, the archive, the supply of names, the schedule, the counts and the witness.  By `step_under`
searches of the same work go on with the same work.

**Legs.**  An interrupted search is a list of runs, each of which takes up the search and the clock
where the one before has left them (`Resumed`).  Every leg amounts to a number of steps
(`exists_performs`), and steps in a row add up.  So the legs together have done the work of so many
steps; and if the last of them came to a verdict, they have done the work of one run without
interruption (`interruptions_change_nothing`).  Nothing is assumed about the clock or the limits.
-/

namespace GivenClause.Search

open Relation

variable {s t : State}

/-! ## Work -/

/-- A search without its verdict and without the time it took. -/
def State.work (s : State) : State := { s with status := .running, elapsed := .finite 0 }

lemma eq_under_of_work_eq (h : s.work = t.work) : t = s.under s.settings t.status t.elapsed := by
  cases s
  cases t
  simp only [State.work, State.mk.injEq] at h
  simp [State.under, h]

/-- Searches of the same work take the same steps. -/
lemma exists_step_of_work_eq (h : s.work = t.work) {r : Step} (hr : s.step = .ok r) :
    ∃ r', t.step = .ok r' ∧ r'.refutation = r.refutation ∧ r'.state.work = r.state.work := by
  have hstep := step_under_settings s t.status t.elapsed
  rw [← eq_under_of_work_eq h, hr] at hstep
  refine ⟨_, hstep, rfl, ?_⟩
  show (r.state.under s.settings _ _).work = _
  rw [← (step_transition hr).settings_eq]
  rfl

lemma work_after (h : s.work = t.work) (n : ℕ) : (s.after n).work = (t.after n).work := by
  induction n with
  | zero => exact h
  | succ n ih =>
      cases hs : (s.after n).step with
      | ok r =>
          obtain ⟨r', hr', -, hwork⟩ := exists_step_of_work_eq ih hs
          rw [after_succ_of_step hs, after_succ_of_step hr', hwork]
      | error e =>
          cases ht : (t.after n).step with
          | ok r =>
              obtain ⟨r', hr', -, -⟩ := exists_step_of_work_eq ih.symm ht
              rw [hr'] at hs
              cases hs
          | error e' => rw [after_succ_of_refused hs, after_succ_of_refused ht, ih]

/-! ## Steps in a row -/

/-- The first `n` steps of a search are all of a kind. -/
def Makes (kind : State → State → Prop) (n : ℕ) (s : State) : Prop :=
  ∀ i < n, kind (s.after i) (s.after (i + 1))

lemma Makes.add {kind : State → State → Prop} {m n : ℕ} (h : Makes kind m s)
    (h' : Makes kind n (s.after m)) : Makes kind (m + n) s := by
  intro i hi
  rcases Nat.lt_or_ge i m with him | him
  · exact h i him
  · obtain ⟨j, rfl⟩ := Nat.exists_eq_add_of_le him
    rw [Nat.add_assoc, after_add, after_add]
    exact h' j (by omega)

/-- Quiet steps are steps. -/
lemma Makes.stepsTo {n : ℕ} (h : Makes QuietlyTo n s) : Makes StepsTo n s :=
  fun i hi => (h i hi).stepsTo

lemma makes_quietly_of_work_eq {n : ℕ} (h : s.work = t.work) (hs : Makes QuietlyTo n s) :
    Makes QuietlyTo n t := by
  intro i hi
  obtain ⟨r, hr, hquiet, -⟩ := hs i hi
  obtain ⟨r', hr', hsame, -⟩ := exists_step_of_work_eq (work_after h i) hr
  exact ⟨r', hr', hsame.trans hquiet, (after_succ_of_step hr').symm⟩

lemma makes_steps_of_work_eq {n : ℕ} (h : s.work = t.work) (hs : Makes StepsTo n s) :
    Makes StepsTo n t := by
  intro i hi
  obtain ⟨r, hr, -⟩ := hs i hi
  obtain ⟨r', hr', -⟩ := exists_step_of_work_eq (work_after h i) hr
  exact ⟨r', hr', (after_succ_of_step hr').symm⟩

/-- Where quiet steps lead is where so many steps lead. -/
lemma exists_makes_of_quiet (h : ReflTransGen QuietlyTo s t) :
    ∃ n, Makes QuietlyTo n s ∧ s.after n = t := by
  induction h with
  | refl => exact ⟨0, fun i hi => absurd hi (Nat.not_lt_zero i), rfl⟩
  | @tail t u _ hstep ih =>
      obtain ⟨n, hmakes, rfl⟩ := ih
      have hone : s.after (n + 1) = u := by
        obtain ⟨r, hr, -, rfl⟩ := hstep
        exact after_succ_of_step hr
      refine ⟨n + 1, fun i hi => ?_, hone⟩
      rcases Nat.lt_succ_iff_lt_or_eq.1 hi with hi | rfl
      · exact hmakes i hi
      · rw [hone]
        exact hstep

/-! ## One leg -/

/-- One leg of an interrupted search: where it set out, and the run. -/
structure Leg where
  origin : State
  run : Run

/-- The leg has done the work of `k` steps, and of at least one if a clause was waiting. -/
structure Leg.Performs (leg : Leg) (k : ℕ) : Prop where
  steps : Makes StepsTo k leg.origin
  work : leg.run.state.work = (leg.origin.after k).work
  progress : leg.origin.unprocessed.isEmpty = false → 0 < k

lemma makes_one_of_step {kind : State → State → Prop} {r : Step} (hr : s.step = .ok r)
    (h : kind s r.state) : Makes kind 1 s := by
  intro i hi
  obtain rfl : i = 0 := by omega
  rw [after_succ_of_step (n := 0) hr]
  exact h

/-- **A run amounts to a number of steps**, which are quiet unless it returns a contradiction. -/
theorem exists_performs {limit : Option TimeLimit} {clock : Clock} {steps : ℕ} {run : Run}
    (h : s.saturate limit clock steps = .ok run) :
    ∃ k, Leg.Performs ⟨s, run⟩ k ∧ (run.refutation = none → Makes QuietlyTo k s) := by
  obtain ⟨t, hquiet, hend⟩ := saturate_cases h
  obtain ⟨n, hmakes, rfl⟩ := exists_makes_of_quiet hquiet
  obtain ⟨last, found, events, now⟩ := run
  simp only at hend
  cases hend with
  | saturated empty =>
      refine ⟨n, ⟨hmakes.stepsTo, rfl, fun hwaits => Nat.pos_of_ne_zero ?_⟩, fun _ => hmakes⟩
      rintro rfl
      exact absurd (empty.symm.trans hwaits) (by simp)
  | refuted hr hfound =>
      refine ⟨n + 1, ⟨hmakes.stepsTo.add (makes_one_of_step hr ⟨_, hr, rfl⟩), ?_, fun _ => by omega⟩,
        by simp⟩
      rw [after_succ_of_step hr]
      rfl
  | timedOut limited hr hnone =>
      refine ⟨n + 1, ⟨hmakes.stepsTo.add (makes_one_of_step hr ⟨_, hr, rfl⟩), ?_, fun _ => by omega⟩,
        fun _ => hmakes.add (makes_one_of_step hr ⟨_, hr, hnone, rfl⟩)⟩
      rw [after_succ_of_step hr]
      rfl

/-! ## A run without a limit -/

lemma isEmpty_eq_false_of_step {r : Step} (hr : s.step = .ok r) :
    s.unprocessed.isEmpty = false := by
  rw [← Bool.not_eq_true, ← Queue.extractBest_eq_none_iff]
  intro hnone
  rw [State.step, hnone] at hr
  cases hr

/-- A run without a limit goes through quiet steps without stopping. -/
lemma runFrom_of_makes {n : ℕ} (h : Makes QuietlyTo n s) (start : Seconds) (clock : Clock)
    (past : List Event) :
    ∃ past', ∀ steps, State.runFrom none start (n + steps) clock past s =
      State.runFrom none start steps clock past' (s.after n) := by
  induction n with
  | zero => exact ⟨past, fun steps => by rw [Nat.zero_add]; rfl⟩
  | succ n ih =>
      obtain ⟨past', hrun⟩ := ih fun i hi => h i (by omega)
      obtain ⟨r, hr, hquiet, hstate⟩ := h n (Nat.lt_succ_self n)
      refine ⟨r.events.reverse ++ past', fun steps => ?_⟩
      rw [show n + 1 + steps = n + (steps + 1) by omega, hrun, State.runFrom,
        if_neg (by simp [isEmpty_eq_false_of_step hr])]
      simp only [hr, hquiet, State.expired]
      rw [hstate]

/-- Quiet steps and an ending make a run without a limit. -/
lemma exists_saturate_of_makes {n : ℕ} {last : State} {found : Option Clause}
    (h : Makes QuietlyTo n s) (hend : Ending none (s.after n) last found) (clock : Clock) :
    ∃ bound run, (∀ steps, bound ≤ steps → s.saturate none clock steps = .ok run) ∧
      run.state.work = last.work ∧ run.state.status = last.status ∧ run.refutation = found := by
  obtain ⟨past, hrun⟩ := runFrom_of_makes h clock.read.1 clock.read.2 []
  cases hend with
  | saturated empty =>
      refine ⟨n, _, fun steps hsteps => @saturate_eq_ok none s clock steps
        ⟨{ s.after n with status := .saturated }, none, past.reverse, clock.read.2⟩ ?_, rfl, rfl, rfl⟩
      obtain ⟨more, rfl⟩ := Nat.exists_eq_add_of_le hsteps
      rw [hrun]
      cases more <;> rw [State.runFrom, if_pos empty]
  | @refuted r c elapsed hr hfound =>
      refine ⟨n + 1, _, fun steps hsteps => @saturate_eq_ok none s clock steps
        ⟨r.state, some c, (r.events.reverse ++ past).reverse, clock.read.2⟩ ?_, rfl, rfl, rfl⟩
      obtain ⟨more, rfl⟩ := Nat.exists_eq_add_of_le hsteps
      rw [show n + 1 + more = n + (more + 1) by omega, hrun, State.runFrom,
        if_neg (by simp [isEmpty_eq_false_of_step hr])]
      simp only [hr, hfound]
  | timedOut limited => exact absurd rfl limited

/-- An ending that is a verdict is also one without a limit, of any search of the same work. -/
lemma Ending.exists_of_work_eq {limit : Option TimeLimit} {last : State} {found : Option Clause}
    (hend : Ending limit s last found) (h : s.work = t.work) (hverdict : last.status ≠ .timedOut) :
    ∃ last', Ending none t last' found ∧ last'.work = last.work ∧ last'.status = last.status := by
  cases hend with
  | saturated empty =>
      have hempty : t.work.unprocessed.isEmpty = true := h ▸ empty
      exact ⟨_, @Ending.saturated none t t.elapsed hempty, h.symm, rfl⟩
  | @refuted r c elapsed hr hfound =>
      obtain ⟨r', hr', hsame, hwork⟩ := exists_step_of_work_eq h hr
      have htransition : Transition s r.state (some c) := hfound ▸ step_transition hr
      have htransition' : Transition t r'.state (some c) :=
        hsame.trans hfound ▸ step_transition hr'
      exact ⟨_, @Ending.refuted none t r' c t.elapsed hr' (hsame.trans hfound), hwork,
        htransition'.status_refuted.trans htransition.status_refuted.symm⟩
  | timedOut => exact absurd rfl hverdict

/-! ## All legs -/

/-- The legs of an interrupted search.  Each takes up the search and the clock where the one before
has left them, and none but the last has returned a contradiction. -/
inductive Resumed (s : State) (clock : Clock) : List Leg → State → Clock → Prop
  | start : Resumed s clock [] s clock
  | leg {legs : List Leg} {t : State} {now : Clock} {limit : Option TimeLimit} {steps : ℕ} {run : Run}
      (before : Resumed s clock legs t now) (quiet : ∀ leg ∈ legs, leg.run.refutation = none)
      (call : t.saturate limit now steps = .ok run) :
      Resumed s clock (legs ++ [⟨t, run⟩]) run.state run.clock

variable {clock now : Clock} {legs : List Leg}

/-- **The legs add up**: together they have done the work of the steps that each has done. -/
theorem Resumed.exists_counts (h : Resumed s clock legs t now) :
    ∃ counts : List ℕ, List.Forall₂ Leg.Performs legs counts ∧ Makes StepsTo counts.sum s ∧
      t.work = (s.after counts.sum).work ∧
      ((∀ leg ∈ legs, leg.run.refutation = none) → Makes QuietlyTo counts.sum s) := by
  induction h with
  | start => exact ⟨[], .nil, fun i hi => absurd hi (Nat.not_lt_zero i), rfl, by simp [Makes]⟩
  | @leg legs u now limit steps run before quiet call ih =>
      obtain ⟨counts, hall, hsteps, hwork, hquiet⟩ := ih
      obtain ⟨k, hperforms, hk⟩ := exists_performs call
      refine ⟨counts ++ [k], List.rel_append hall (.cons hperforms .nil), ?_, ?_, fun hnone => ?_⟩
      · rw [List.sum_append, List.sum_singleton]
        exact hsteps.add (makes_steps_of_work_eq hwork hperforms.steps)
      · rw [List.sum_append, List.sum_singleton, after_add, ← work_after hwork]
        exact hperforms.work
      · rw [List.sum_append, List.sum_singleton]
        exact (hquiet quiet).add (makes_quietly_of_work_eq hwork (hk (hnone ⟨u, run⟩ (by simp))))

/-- **Legs that come to a verdict are one run.** -/
theorem Resumed.exists_run (h : Resumed s clock legs t now) {leg : Leg} (hlast : leg ∈ legs.getLast?)
    (hverdict : t.status = .refuted ∨ t.status = .saturated) (clock' : Clock) :
    ∃ bound run, (∀ steps, bound ≤ steps → s.saturate none clock' steps = .ok run) ∧
      run.state.work = t.work ∧ run.state.status = t.status ∧
      run.refutation = leg.run.refutation := by
  cases h with
  | start => simp at hlast
  | @leg legs u now limit steps run before quiet call =>
      obtain rfl : ⟨u, run⟩ = leg := by simpa using hlast
      obtain ⟨counts, -, -, hwork, hquiet⟩ := before.exists_counts
      obtain ⟨v, hrest, hend⟩ := saturate_cases call
      obtain ⟨n, hmakes, rfl⟩ := exists_makes_of_quiet hrest
      have hwork' : (u.after n).work = (s.after (counts.sum + n)).work := by
        rw [after_add]
        exact work_after hwork n
      obtain ⟨last, hend', hlastwork, hstatus⟩ := hend.exists_of_work_eq hwork'
        (by rcases hverdict with hstatus | hstatus <;> simp [hstatus])
      obtain ⟨bound, run', hrun', hsame, hstatus', hfound⟩ := exists_saturate_of_makes
        ((hquiet quiet).add (makes_quietly_of_work_eq hwork hmakes)) hend' clock'
      exact ⟨bound, run', hrun', hsame.trans hlastwork, hstatus'.trans hstatus, hfound⟩

/-- **Interrupting and resuming changes nothing.**  An interrupted search has done the work of as many
steps of a search that is never interrupted as its legs have made, and every leg that found a clause
waiting has made at least one.  If the last leg came to a verdict, a single run without a limit comes
to its end with the same work, the same verdict and the same contradiction. -/
theorem interruptions_change_nothing (schedule : Schedule) (settings : Settings) (names : NameSupply)
    (clauses : List Clause)
    (resumed : Resumed (State.start schedule settings names clauses) clock legs t now) :
    (∃ counts : List ℕ, List.Forall₂ Leg.Performs legs counts ∧
      Makes StepsTo counts.sum (State.start schedule settings names clauses) ∧
      t.work = ((State.start schedule settings names clauses).after counts.sum).work) ∧
    ∀ leg ∈ legs.getLast?, t.status = .refuted ∨ t.status = .saturated → ∀ clock' : Clock,
      ∃ bound run, (∀ steps, bound ≤ steps →
          (State.start schedule settings names clauses).saturate none clock' steps = .ok run) ∧
        run.state.work = t.work ∧ run.state.status = t.status ∧
        run.refutation = leg.run.refutation := by
  obtain ⟨counts, hall, hsteps, hwork, -⟩ := resumed.exists_counts
  exact ⟨⟨counts, hall, hsteps, hwork⟩, fun leg hlast hverdict clock' =>
    resumed.exists_run hlast hverdict clock'⟩

/-- A refutation that climbs two steps. -/
def climb : List Clause :=
  [{ literals := [⟨true, "p", [.app "a" []]⟩] },
   { literals := [⟨false, "p", [.var "X"]⟩, ⟨true, "p", [.app "f" [.var "X"]]⟩] },
   { literals := [⟨false, "p", [.app "f" [.app "f" [.app "a" []]]]⟩] }]

/-- The climb is stopped at once, then after two seconds, and then goes on to the refutation that it
comes to without a stop. -/
theorem climb_resumed :
    ∃ legs t now counts bound run,
      Resumed (State.start .standard {} {} climb) (.steady (.finite 1)) legs t now ∧
      legs.map (·.run.state.status) = [.timedOut, .timedOut, .refuted] ∧
      List.Forall₂ Leg.Performs legs counts ∧
      t.work = ((State.start .standard {} {} climb).after counts.sum).work ∧
      (∀ steps, bound ≤ steps → (State.start .standard {} {} climb).saturate none
        (.steady (.finite 0)) steps = .ok run) ∧
      run.state.work = t.work ∧ run.state.status = .refuted := by
  have hcalls : ((State.start .standard {} {} climb).saturate (some .atOnce) (.steady (.finite 1))
      20).toOption.any (fun first =>
        decide (first.refutation = none ∧ first.state.status = .timedOut) &&
        (first.state.saturate (some (.after (.finite 2))) first.clock 20).toOption.any fun second =>
          decide (second.refutation = none ∧ second.state.status = .timedOut) &&
          (second.state.saturate none second.clock 20).toOption.any fun third =>
            decide (third.state.status = .refuted)) = true := by decide +kernel
  obtain ⟨first, hfirst, hcalls⟩ := exists_ok_of_any hcalls
  obtain ⟨hstop, hcalls⟩ := Bool.and_eq_true_iff.1 hcalls
  obtain ⟨second, hsecond, hcalls⟩ := exists_ok_of_any hcalls
  obtain ⟨hstop', hcalls⟩ := Bool.and_eq_true_iff.1 hcalls
  obtain ⟨third, hthird, hrefuted⟩ := exists_ok_of_any hcalls
  obtain ⟨hquiet, htimedOut⟩ := of_decide_eq_true hstop
  obtain ⟨hquiet', htimedOut'⟩ := of_decide_eq_true hstop'
  have hresumed := ((Resumed.start.leg (by simp) hfirst).leg (by simpa using hquiet) hsecond).leg
    (by simp [hquiet, hquiet']) hthird
  have hstatus : third.state.status = .refuted := of_decide_eq_true hrefuted
  obtain ⟨⟨counts, hperforms, -, hwork⟩, hone⟩ :=
    interruptions_change_nothing _ _ _ _ hresumed
  obtain ⟨bound, run, hrun, hsame, hverdict, -⟩ :=
    hone ⟨second.state, third⟩ (by simp) (Or.inl hstatus) (.steady (.finite 0))
  exact ⟨_, _, _, counts, bound, run, hresumed, by simp [htimedOut, htimedOut', hstatus], hperforms,
    hwork, hrun, hsame, hverdict.trans hstatus⟩

end GivenClause.Search
