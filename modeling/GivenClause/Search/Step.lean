import GivenClause.Search.State
import GivenClause.Subsumption

/-!
# One step of the search

A step takes the best waiting clause, gives it fresh variables, and

* ends the search if it is empty;
* drops it if it is a tautology or subsumed by a processed clause, where the settings say so;
* otherwise, after dropping the processed clauses that it subsumes, adds all its factors and all its
  resolvents with processed clauses to the queue, and puts it among the processed clauses.
-/

namespace GivenClause.Search

/-- What a step did, for those who want to follow the search. -/
inductive Event where
  | selected (c : Clause)
  | tautology (name : String)
  | subsumed (name : String)
  | removed (count : Nat) (by_ : String)
  deriving Repr, DecidableEq

/-- The line that reports an event. -/
def Event.render : Event → String
  | .selected c => "# " ++ c.render
  | .tautology name => "#  [tautology] " ++ name
  | .subsumed name => "#  [subsumed] " ++ name
  | .removed count name => "#  [back-subsumed] " ++ toString count ++ " clause(s) by " ++ name

/-- Why there was no step. -/
inductive StepError where
  | nothingLeft
  /-- A unification without occurs check used up its budget. -/
  | unsettled
  /-- A processed clause was to be taken out and is not there. -/
  | lost (e : ClauseSet.NotAMember)
  deriving Repr, DecidableEq

/-- The wording of the error. -/
def StepError.message : StepError → String
  | .nothingLeft => "process_clause called with no unprocessed clauses"
  | .unsettled => "a unification did not settle"
  | .lost e => e.message

/-- The result of a step: the new state, the contradiction if one was selected, and what happened. -/
structure Step where
  state : State
  refutation : Option Clause := none
  events : List Event
  deriving Repr, DecidableEq

namespace State

/-- Add the factors and resolvents of a clause to the queue, and the clause to those processed. -/
def infer (s : State) (given : Clause) : Except Unification.Unsettled State := do
  let (factors, names) ← allFactors s.settings.cycles s.names given
  let (resolvents, names) ← allResolvents s.settings.cycles names given s.processed
  return { s with
    names
    unprocessed := s.unprocessed.insertAll (factors ++ resolvents)
    processed := s.processed ++ [given]
    archive := s.archive.record given
    counts := { s.counts with
      processed := s.counts.processed + 1
      factors := s.counts.factors + factors.length
      resolvents := s.counts.resolvents + resolvents.length } }

/-- Take the clauses that a clause subsumes out of those processed, and count those found. -/
def dropSubsumed (s : State) (given : Clause) : Except ClauseSet.NotAMember (Nat × State) := do
  let (found, kept) ← ClauseSet.removeSubsumed given (ClauseSet.labelled s.processed)
  return (found, { s with
    processed := kept.map Labelled.clause
    counts := { s.counts with backwardSubsumed := s.counts.backwardSubsumed + found } })

/-- Drop the processed clauses that a clause subsumes, where the settings say so. -/
def clear (s : State) (given : Clause) : Except ClauseSet.NotAMember (Nat × State) :=
  if s.settings.backwardSubsumption then s.dropSubsumed given else .ok (0, s)

/-- Process a selected clause. -/
def process (s : State) (given : Clause) : Except StepError Step :=
  if given.isEmpty then
    .ok {
      state := { s with status := .refuted, witness := some given }
      refutation := some given
      events := [.selected given] }
  else if s.settings.deleteTautologies && given.isTautology then
    .ok {
      state := { s with counts := { s.counts with tautologies := s.counts.tautologies + 1 } }
      events := [.selected given, .tautology given.name] }
  else if s.settings.forwardSubsumption && anySubsumes s.processed given then
    .ok {
      state :=
        { s with counts := { s.counts with forwardSubsumed := s.counts.forwardSubsumed + 1 } }
      events := [.selected given, .subsumed given.name] }
  else
    match s.clear given with
    | .error e => .error (.lost e)
    | .ok (removed, cleared) =>
      match cleared.infer given with
      | .error _ => .error .unsettled
      | .ok state =>
        .ok {
          state
          events :=
            if removed = 0 then [.selected given]
            else [.selected given, .removed removed given.name] }

/-- One step: select the best waiting clause, give it fresh variables, and process it. -/
def step (s : State) : Except StepError Step :=
  match s.unprocessed.extractBest with
  | none => .error .nothingLeft
  | some (chosen, unprocessed) =>
    let (given, names) := chosen.freshCopy s.names
    { s with unprocessed, names }.process given

end State

end GivenClause.Search
