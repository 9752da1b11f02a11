import Mathlib
import GivenClause.Proofs.Conclusions
import GivenClause.Proofs.Queues
import GivenClause.Proofs.Removal
import GivenClause.Proofs.RenamingApart
import GivenClause.Proofs.SubsumptionOrder
import GivenClause.Search.Step

/-!
# What a step can do

Every invariant of the search is an argument about one step.  This file says once what a step is, so
that the arguments do not have to open its definition again: a `Transition` selects a clause and
takes a fresh copy of it, and then the copy refutes, is dropped as a tautology, is dropped as
subsumed, or is used for inferences.  The conditions are stated in terms of `Tautological` and
`Subsumes`, not of the tests that decide them.

`step_transition` is the inversion.  The queue is only seen through its `items`, by `items_insertAll`
and `extractBest_perm`; which clause is best plays no role in what the search can conclude.  Of the loop
that takes out the subsumed clauses, only its result is seen, by `clear_eq`.

`step_under` says what a step does not look at.  Two searches that differ in their verdict, their time
and in settings that lead to the same inferences take the same steps.
-/

namespace GivenClause

namespace Search

open Unification

/-! ## Transitions -/

/-- `s'` is the search `s` with the best waiting clause `chosen` taken out, and `given` is the fresh
copy of it. -/
def Selects (s : State) (chosen given : Clause) (s' : State) : Prop :=
  ∃ queue names, s.unprocessed.extractBest = some (chosen, queue) ∧
    chosen.freshCopy s.names = (given, names) ∧ s' = { s with unprocessed := queue, names := names }

/-- The processed clauses that stay when `given` is about to be used. -/
def State.kept (s : State) (given : Clause) : List Clause :=
  if s.settings.backwardSubsumption then unsubsumed given s.processed else s.processed

/-- How many processed clauses go when `given` is about to be used. -/
def State.gone (s : State) (given : Clause) : ℕ :=
  if s.settings.backwardSubsumption then subsumedCount given s.processed else 0

/-- What goes and what stays are all processed clauses. -/
lemma length_kept_add_gone (s : State) (given : Clause) :
    (s.kept given).length + s.gone given = s.processed.length := by
  rw [State.kept, State.gone]
  split_ifs
  · exact length_unsubsumed_add given s.processed
  · exact Nat.add_zero _

/-- What one step of the search `s` may lead to, with the contradiction if one was selected. -/
inductive Transition (s : State) : State → Option Clause → Prop
  | refuted {chosen given : Clause} {s' : State} (select : Selects s chosen given s')
      (empty : given.literals = []) :
      Transition s { s' with status := .refuted, witness := some given } (some given)
  | tautology {chosen given : Clause} {s' : State} (select : Selects s chosen given s')
      (nonempty : given.literals ≠ []) (switch : s'.settings.deleteTautologies = true)
      (tautological : Tautological given.literals) :
      Transition s
        { s' with counts := { s'.counts with tautologies := s'.counts.tautologies + 1 } } none
  | subsumed {chosen given subsumer : Clause} {s' : State} (select : Selects s chosen given s')
      (nonempty : given.literals ≠ []) (switch : s'.settings.forwardSubsumption = true)
      (member : subsumer ∈ s'.processed) (subsumes : Subsumes subsumer.literals given.literals) :
      Transition s
        { s' with counts := { s'.counts with forwardSubsumed := s'.counts.forwardSubsumed + 1 } }
        none
  | inferred {chosen given : Clause} {s' : State} {factors resolvents : List Clause}
      {names names' : NameSupply} (select : Selects s chosen given s')
      (nonempty : given.literals ≠ [])
      (fresh : s'.settings.deleteTautologies = true → ¬ Tautological given.literals)
      (new : s'.settings.forwardSubsumption = true →
        ∀ d ∈ s'.processed, ¬ Subsumes d.literals given.literals)
      (factored : allFactors s'.settings.cycles s'.names given = .ok (factors, names))
      (resolved : allResolvents s'.settings.cycles names given (s'.kept given)
        = .ok (resolvents, names')) :
      Transition s
        { s' with
          names := names'
          unprocessed := s'.unprocessed.insertAll (factors ++ resolvents)
          processed := s'.kept given ++ [given]
          archive := s'.archive.record given
          counts := { s'.counts with
            processed := s'.counts.processed + 1
            factors := s'.counts.factors + factors.length
            resolvents := s'.counts.resolvents + resolvents.length
            backwardSubsumed := s'.counts.backwardSubsumed + s'.gone given } } none

lemma anySubsumes_iff (members : List Clause) (c : Clause) :
    anySubsumes members c = true ↔ ∃ d ∈ members, Subsumes d.literals c.literals := by
  simp only [anySubsumes, List.any_eq_true, clause_self, subsumes_iff]

lemma infer_eq_ok {s t : State} {given : Clause} (h : s.infer given = .ok t) :
    ∃ factors resolvents names names',
      allFactors s.settings.cycles s.names given = .ok (factors, names) ∧
      allResolvents s.settings.cycles names given s.processed = .ok (resolvents, names') ∧
      t = { s with
        names := names'
        unprocessed := s.unprocessed.insertAll (factors ++ resolvents)
        processed := s.processed ++ [given]
        archive := s.archive.record given
        counts := { s.counts with
          processed := s.counts.processed + 1
          factors := s.counts.factors + factors.length
          resolvents := s.counts.resolvents + resolvents.length } } := by
  rw [State.infer] at h
  cases hf : allFactors s.settings.cycles s.names given with
  | error e => simp [hf, bind, Except.bind] at h
  | ok p =>
      obtain ⟨factors, names⟩ := p
      cases hr : allResolvents s.settings.cycles names given s.processed with
      | error e => simp [hf, hr, bind, Except.bind] at h
      | ok q =>
          obtain ⟨resolvents, names'⟩ := q
          simp only [hf, hr, bind, Except.bind, pure, Except.pure, Except.ok.injEq] at h
          exact ⟨factors, resolvents, names, names', rfl, hr, h.symm⟩

/-- The search `s` after the subsumed clauses have been dropped, if it was asked to. -/
def State.cleared (s : State) (given : Clause) : State :=
  { s with
    processed := s.kept given
    counts := { s.counts with backwardSubsumed := s.counts.backwardSubsumed + s.gone given } }

/-- Dropping the subsumed clauses never fails, and those that go are counted. -/
lemma clear_eq (s : State) (given : Clause) :
    s.clear given = .ok (s.gone given, s.cleared given) := by
  rw [State.clear, State.cleared, State.kept, State.gone]
  split_ifs
  · obtain ⟨kept, hremoved, hkept⟩ := ClauseSet.removeSubsumed_labelled given s.processed
    rw [State.dropSubsumed, hremoved, ← hkept]
    rfl
  · rfl

lemma process_transition {s s' : State} {chosen given : Clause} {r : Step}
    (select : Selects s chosen given s') (h : s'.process given = .ok r) :
    Transition s r.state r.refutation := by
  rw [State.process, clear_eq s' given] at h
  split_ifs at h with hempty htaut hsub
  · cases h
    exact .refuted select (List.isEmpty_iff.1 hempty)
  · cases h
    rw [Bool.and_eq_true] at htaut
    exact .tautology select (fun e => hempty (List.isEmpty_iff.2 e)) htaut.1
      ((hasOpposites_iff _).1 htaut.2)
  · cases h
    rw [Bool.and_eq_true, anySubsumes_iff] at hsub
    obtain ⟨hswitch, d, hd, hsubsumes⟩ := hsub
    exact .subsumed select (fun e => hempty (List.isEmpty_iff.2 e)) hswitch hd hsubsumes
  · simp only at h
    split at h
    · cases h
    · rename_i t hinfer
      cases h
      obtain ⟨factors, resolvents, names₁, names₂, hf, hr, rfl⟩ := infer_eq_ok hinfer
      refine .inferred select (fun e => hempty (List.isEmpty_iff.2 e))
        (fun hswitch ht => htaut ?_) (fun hswitch d hd hsubsumes => hsub ?_) hf hr
      · rw [Bool.and_eq_true]
        exact ⟨hswitch, (hasOpposites_iff _).2 ht⟩
      · rw [Bool.and_eq_true, anySubsumes_iff]
        exact ⟨hswitch, d, hd, hsubsumes⟩

/-- **A step is a transition.** -/
theorem step_transition {s : State} {r : Step} (h : s.step = .ok r) :
    Transition s r.state r.refutation := by
  rw [State.step] at h
  split at h
  · cases h
  · rename_i chosen queue hqueue
    exact process_transition ⟨queue, _, hqueue, rfl, rfl⟩ h

/-! ## What a step does not look at -/

/-- The search `s` under other settings, with another verdict and another time. -/
def State.under (s : State) (settings : Settings) (status : Status) (elapsed : Seconds) : State :=
  { s with settings := settings, status := status, elapsed := elapsed }

/-- The step under other settings, with another verdict and another time; but a contradiction sets the
verdict. -/
def Step.under (r : Step) (settings : Settings) (status : Status) (elapsed : Seconds) : Step :=
  { r with state := r.state.under settings (if r.refutation = none then status else .refuted) elapsed }

/-- Settings that drop the same clauses and lead to the same inferences from a clause. -/
structure SameUse (s : State) (given : Clause) (settings : Settings) : Prop where
  tautologies : settings.deleteTautologies = s.settings.deleteTautologies
  forward : settings.forwardSubsumption = s.settings.forwardSubsumption
  backward : settings.backwardSubsumption = s.settings.backwardSubsumption
  factors : ∀ names, allFactors settings.cycles names given = allFactors s.settings.cycles names given
  resolvents : ∀ names, allResolvents settings.cycles names given (s.kept given) =
    allResolvents s.settings.cycles names given (s.kept given)

section Frame

variable {s : State} {given : Clause} {settings : Settings}

lemma sameUse_self (s : State) (given : Clause) : SameUse s given s.settings :=
  ⟨rfl, rfl, rfl, fun _ => rfl, fun _ => rfl⟩

lemma kept_under (h : SameUse s given settings) (status : Status) (elapsed : Seconds) :
    (s.under settings status elapsed).kept given = s.kept given := by
  show (if settings.backwardSubsumption then _ else _) = _
  rw [h.backward]
  rfl

lemma gone_under (h : SameUse s given settings) (status : Status) (elapsed : Seconds) :
    (s.under settings status elapsed).gone given = s.gone given := by
  show (if settings.backwardSubsumption then _ else _) = _
  rw [h.backward]
  rfl

lemma cleared_under (h : SameUse s given settings) (status : Status) (elapsed : Seconds) :
    (s.under settings status elapsed).cleared given =
      (s.cleared given).under settings status elapsed := by
  rw [State.cleared, kept_under h, gone_under h]
  rfl

lemma infer_under (status : Status) (elapsed : Seconds)
    (hfactors : ∀ names,
      allFactors settings.cycles names given = allFactors s.settings.cycles names given)
    (hresolvents : ∀ names, allResolvents settings.cycles names given s.processed =
      allResolvents s.settings.cycles names given s.processed) :
    (s.under settings status elapsed).infer given =
      (s.infer given).map fun t => t.under settings status elapsed := by
  rw [State.infer, State.infer]
  show (allFactors settings.cycles s.names given >>= fun p =>
    allResolvents settings.cycles p.2 given s.processed >>= fun _ => _) = _
  simp only [hfactors, hresolvents]
  cases allFactors s.settings.cycles s.names given with
  | error e => rfl
  | ok p =>
      obtain ⟨factors, names⟩ := p
      simp only [bind, Except.bind]
      cases allResolvents s.settings.cycles names given s.processed with
      | error e => rfl
      | ok q => rfl

lemma process_under (h : SameUse s given settings) (status : Status) (elapsed : Seconds) :
    (s.under settings status elapsed).process given =
      (s.process given).map fun r => r.under settings status elapsed := by
  rw [State.process, State.process, clear_eq, clear_eq, cleared_under h, gone_under h]
  show (if given.isEmpty then _ else if settings.deleteTautologies && given.isTautology then _ else
    if settings.forwardSubsumption && anySubsumes s.processed given then _ else _) = _
  rw [h.tautologies, h.forward]
  split_ifs
  · rfl
  · rfl
  · rfl
  · dsimp only
    rw [infer_under (s := s.cleared given) status elapsed h.factors h.resolvents]
    cases (s.cleared given).infer given with
    | error e => rfl
    | ok t => rfl

/-- **A step looks neither at the verdict nor at the time**, and at the settings only to see which
clauses to drop and which inferences to make from the selected clause. -/
theorem step_under (h : ∀ {chosen given s'}, Selects s chosen given s' → SameUse s' given settings)
    (status : Status) (elapsed : Seconds) :
    (s.under settings status elapsed).step =
      s.step.map fun r => r.under settings status elapsed := by
  have hunprocessed : (s.under settings status elapsed).unprocessed = s.unprocessed := rfl
  rw [State.step, State.step, hunprocessed]
  cases hqueue : s.unprocessed.extractBest with
  | none => rfl
  | some selection =>
      obtain ⟨chosen, queue⟩ := selection
      exact process_under (h ⟨queue, _, hqueue, rfl, rfl⟩) status elapsed

lemma step_under_settings (s : State) (status : Status) (elapsed : Seconds) :
    (s.under s.settings status elapsed).step =
      s.step.map fun r => r.under s.settings status elapsed := by
  refine step_under (fun select => ?_) status elapsed
  obtain ⟨-, -, -, -, rfl⟩ := select
  exact sameUse_self _ _

end Frame

end Search

end GivenClause
