import GivenClause.Problem.Sample
import GivenClause.Schedule

/-!
# The help text

How the program is called, and what its options mean.
-/

namespace GivenClause.CommandLine

open Problem

/-- The name of the program. -/
def programName : String := "saturn"

/-- The values that an option may have. -/
def choices (names : List String) : String := "\x7b" ++ Text.join "," names ++ "\x7d"

/-- The ways to call the program. -/
def usage : List String := [
  "usage: " ++ programName ++ " [-h] [--problem " ++ choices Sample.names ++ "] [-t] [-f]",
  "              [-b] [--occurs-check]",
  "              [-H " ++ choices Schedule.names ++ "]",
  "              [--timeout TIMEOUT] [--include INCLUDE] [--compare] [--dot DOT]",
  "              [--save SAVE] [--list-problems] [-v | --quiet]",
  "              [problem_file]"]

/-- The meaning of the options. -/
def help : List String := usage ++ [
  "",
  "Given-clause resolution prover for first-order CNF (TPTP)",
  "",
  "positional arguments:",
  "  problem_file          TPTP problem file",
  "",
  "options:",
  "  -h, --help            show this help message and exit",
  "  --problem " ++ choices Sample.names,
  "                        Run a built-in sample problem instead of a file",
  "  -t, --delete-tautologies",
  "                        Discard tautological given clauses",
  "  -f, --forward-subsumption",
  "                        Discard given clauses subsumed by processed clauses",
  "  -b, --backward-subsumption",
  "                        Remove processed clauses subsumed by the given clause",
  "  --occurs-check        Use unification with occurs check",
  "  -H " ++ choices Schedule.names ++ ", --heuristic " ++ choices Schedule.names,
  "                        Given-clause selection",
  "  --timeout TIMEOUT     Wall-clock limit in seconds",
  "  --include INCLUDE     Directory for TPTP include() files",
  "  --compare             Run every heuristic and print one row each",
  "  --dot DOT             Export the proof as a DOT graph",
  "  --save SAVE           Save a JSON report",
  "  --list-problems       List the built-in problems and exit",
  "  -v, --verbose         Print every given clause and the final clause sets",
  "  --quiet               Only print the SZS status"]

end GivenClause.CommandLine
