import GivenClause.Search.Step
import GivenClause.Search.TimeLimit

/-!
# Running a search

A run makes steps until a contradiction is selected, nothing is left, or the time limit is reached.
Time comes from a clock, given as the sequence of its readings; the limit is looked at between
steps only.  The clock is read once at the start, once after each step that did not end the run if
there is a limit, and once at the end.

A search need not end, so a run is given a number of steps; using them all up is an error of its
own, never a verdict.
-/

namespace GivenClause.Search

/-- A clock: its readings in seconds, and how many have been taken. -/
structure Clock where
  reading : Nat → Seconds
  taken : Nat := 0

/-- The clock whose readings are `0`, `tick`, `2 * tick`, … -/
def Clock.steady (tick : Seconds) : Clock := { reading := fun k => tick.times k }

/-- Read the clock. -/
def Clock.read (clock : Clock) : Seconds × Clock :=
  (clock.reading clock.taken, { clock with taken := clock.taken + 1 })

/-- Why a run gave no result. -/
inductive RunError where
  | stepsUsedUp
  | step (e : StepError)
  deriving Repr, DecidableEq

/-- The wording of the error. -/
def RunError.message : RunError → String
  | .stepsUsedUp => "the search used up its steps"
  | .step e => e.message

/-- The result of a run: the new state, the contradiction if one was selected, what happened, and
the clock. -/
structure Run where
  state : State
  refutation : Option Clause
  events : List Event
  clock : Clock

namespace State

/-- Whether the limit is reached, reading the clock only if there is one. -/
def expired (limit : Option TimeLimit) (start : Seconds) (clock : Clock) : Bool × Clock :=
  match limit with
  | none => (false, clock)
  | some limit =>
    let (now, clock) := clock.read
    (limit.reached (now - start), clock)

/-- Make steps until the run ends; `past` holds the events so far, the latest first. -/
def runFrom (limit : Option TimeLimit) (start : Seconds) :
    Nat → Clock → List Event → State → Except RunError Run
  | steps, clock, past, s =>
    if s.unprocessed.isEmpty then
      .ok ⟨{ s with status := .saturated }, none, past.reverse, clock⟩
    else
      match steps with
      | 0 => .error .stepsUsedUp
      | steps + 1 =>
        match s.step with
        | .error e => .error (.step e)
        | .ok result =>
          let past := result.events.reverse ++ past
          match result.refutation with
          | some c => .ok ⟨result.state, some c, past.reverse, clock⟩
          | none =>
            match expired limit start clock with
            | (true, clock) => .ok ⟨{ result.state with status := .timedOut }, none, past.reverse, clock⟩
            | (false, clock) => runFrom limit start steps clock past result.state

/-- Run the search and add the time it took. -/
def saturate (s : State) (limit : Option TimeLimit) (clock : Clock) (steps : Nat) :
    Except RunError Run := do
  let (start, clock) := clock.read
  let run ← runFrom limit start steps clock [] s
  let (finish, clock) := run.clock.read
  return { run with
    clock
    state := { run.state with elapsed := run.state.elapsed + (finish - start) } }

/-- More steps than any run has time for. -/
def manySteps : Nat := 1000000000000

end State

end GivenClause.Search
