import GivenClause.Search.Run

/-!
# Searching and comparing

Whoever wants a problem searched need not know where the time comes from: a `Searcher` runs a search
in some monad.  `clocked` is the one that reads a clock given as a value; the command line has
another one that reads the clock of the machine.

`compareSchedules` searches the same problem under several schedules, each time from the beginning.
-/

namespace GivenClause.Search

/-- A search that has been run, and what happened on the way. -/
structure Finished where
  state : State
  events : List Event
  deriving Repr, DecidableEq

/-- A way to run a search under a time limit. -/
abbrev Searcher (m : Type → Type) := Option TimeLimit → State → m (Except RunError Finished)

/-- Run searches one after the other on the same clock. -/
def clocked : Searcher (StateM Clock) := fun limit s => do
  match s.saturate limit (← get) State.manySteps with
  | .error e => return .error e
  | .ok run => do
    set run.clock
    return .ok ⟨run.state, run.events⟩

/-- Why a comparison gave no result. -/
inductive CompareError where
  | schedule (e : ScheduleError)
  | run (e : RunError)
  deriving Repr, DecidableEq

/-- The wording of the error. -/
def CompareError.message : CompareError → String
  | .schedule e => e.message
  | .run e => e.message

/-- The outcome under one schedule. -/
structure Row where
  schedule : String
  status : Status
  processed : Nat
  elapsed : Seconds
  deriving Repr, DecidableEq

/-- The row of a search. -/
def Row.ofState (schedule : String) (s : State) : Row :=
  ⟨schedule, s.status, s.counts.processed, s.elapsed⟩

variable {m : Type → Type} [Monad m]

/-- Search with each of the named schedules in turn. -/
def searchWithEach (search : Searcher m) (settings : Settings) (limit : Option TimeLimit)
    (clauses : List Clause) : List String → m (Except CompareError (List Row))
  | [] => return .ok []
  | name :: rest => do
    match Schedule.named name with
    | .error e => return .error (.schedule e)
    | .ok schedule =>
      match ← search limit (State.start schedule settings {} clauses) with
      | .error e => return .error (.run e)
      | .ok finished =>
        match ← searchWithEach search settings limit clauses rest with
        | .error e => return .error e
        | .ok rows => return .ok (Row.ofState name finished.state :: rows)

/-- Compare the named schedules, or all there are if none is named. -/
def compareSchedules (search : Searcher m) (settings : Settings) (limit : Option TimeLimit)
    (clauses : List Clause) (names : List String) : m (Except CompareError (List Row)) :=
  searchWithEach search settings limit clauses (if names.isEmpty then Schedule.names else names)

end GivenClause.Search
