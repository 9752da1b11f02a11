import GivenClause.Archive
import GivenClause.Inference
import GivenClause.Queue
import GivenClause.Seconds

/-!
# The state of a search

A search for a contradiction keeps the clauses that wait (`unprocessed`), those that have been used
(`processed`) and the archive of all that were ever used.  `State.start` names the input clauses and
queues them.
-/

namespace GivenClause.Search

/-- How a search proceeds. -/
structure Settings where
  /-- Drop selected clauses that are tautologies. -/
  deleteTautologies : Bool := false
  /-- Drop selected clauses that a processed clause subsumes. -/
  forwardSubsumption : Bool := false
  /-- Drop processed clauses that the selected clause subsumes. -/
  backwardSubsumption : Bool := false
  /-- Unify with the occurs check. -/
  occursCheck : Bool := false
  /-- Without the occurs check, how many bindings one unification may make behind a cycle.  The
  default is more than any run has time for. -/
  budget : Nat := 1000000000000
  deriving Repr, DecidableEq, Inhabited

/-- The treatment of cyclic bindings that the settings ask for. -/
def Settings.cycles (s : Settings) : Unification.Cycles :=
  if s.occursCheck then .reject else .follow s.budget

/-- The settings that are switched on or off. -/
inductive Switch where
  | deleteTautologies
  | forwardSubsumption
  | backwardSubsumption
  | occursCheck
  deriving Repr, DecidableEq

namespace Switch

/-- All switches, in the order in which they are listed. -/
def all : List Switch :=
  [.deleteTautologies, .forwardSubsumption, .backwardSubsumption, .occursCheck]

/-- The name of a switch. -/
def name : Switch → String
  | .deleteTautologies => "delete_tautologies"
  | .forwardSubsumption => "forward_subsumption"
  | .backwardSubsumption => "backward_subsumption"
  | .occursCheck => "occurs_check"

end Switch

namespace Settings

/-- Set a switch. -/
def set (s : Settings) (value : Bool) : Switch → Settings
  | .deleteTautologies => { s with deleteTautologies := value }
  | .forwardSubsumption => { s with forwardSubsumption := value }
  | .backwardSubsumption => { s with backwardSubsumption := value }
  | .occursCheck => { s with occursCheck := value }

/-- The position of a switch. -/
def isOn (s : Settings) : Switch → Bool
  | .deleteTautologies => s.deleteTautologies
  | .forwardSubsumption => s.forwardSubsumption
  | .backwardSubsumption => s.backwardSubsumption
  | .occursCheck => s.occursCheck

/-- Turn several switches on. -/
def turnOn (s : Settings) (switches : List Switch) : Settings :=
  switches.foldl (fun s switch => s.set true switch) s

end Settings

/-- What is known about the input. -/
inductive Status where
  | running
  /-- A contradiction was derived. -/
  | refuted
  /-- Nothing is left to do, and no contradiction was derived. -/
  | saturated
  | timedOut
  deriving Repr, DecidableEq, Inhabited

namespace Status

/-- The name of a status. -/
def name : Status → String
  | .running => "running"
  | .refuted => "refuted"
  | .saturated => "saturated"
  | .timedOut => "timed_out"

/-- What the status says about the input, in the words of the SZS ontology. -/
def verdict : Status → String
  | .running => "Unknown"
  | .refuted => "Unsatisfiable"
  | .saturated => "Satisfiable"
  | .timedOut => "Timeout"

end Status

/-- How many clauses went which way. -/
structure Counts where
  initial : Nat := 0
  processed : Nat := 0
  factors : Nat := 0
  resolvents : Nat := 0
  tautologies : Nat := 0
  forwardSubsumed : Nat := 0
  backwardSubsumed : Nat := 0
  deriving Repr, DecidableEq, Inhabited

/-- A search between two steps. -/
structure State where
  settings : Settings
  names : NameSupply
  unprocessed : Queue Clause
  processed : List Clause := []
  archive : Archive := {}
  status : Status := .running
  /-- The contradiction that was derived. -/
  witness : Option Clause := none
  /-- The time spent in runs so far, in seconds. -/
  elapsed : Seconds := .finite 0
  counts : Counts := {}
  deriving Repr, DecidableEq

/-- Give every input clause a name of its own. -/
def nameClauses (names : NameSupply) : List Clause → List Clause × NameSupply
  | [] => ([], names)
  | c :: rest =>
    let (name, names) := names.assign c.name
    let (more, names) := nameClauses names rest
    ({ c with name } :: more, names)

/-- A search that has all its input still before it. -/
def State.start (schedule : Schedule) (settings : Settings) (names : NameSupply)
    (clauses : List Clause) : State :=
  let (named, names) := nameClauses names clauses
  { settings, names,
    unprocessed := Queue.insertAll { schedule } named,
    counts := { initial := clauses.length } }

end GivenClause.Search
