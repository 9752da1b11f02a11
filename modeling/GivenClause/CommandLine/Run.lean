import GivenClause.CommandLine.Help
import GivenClause.CommandLine.Request
import GivenClause.Search.Compare
import GivenClause.Search.Report

/-!
# Running a command line

What the program prints and writes for a command line, as a function of the files it finds.  The
search itself is left to a `Searcher`.

* Exit code 0: the search ended, whatever its verdict, or only information was asked for.
* Exit code 1: the problem could not be loaded.
* Exit code 2: the command line was refused.
* No exit code: the program broke off, for instance because a file could not be written.  What was
  printed and written before stays.
-/

namespace GivenClause.CommandLine

open Files Problem Search

/-- Why the program broke off. -/
inductive Breakdown where
  | file (e : FileError)
  | proof (e : ProofError)
  | schedule (e : ScheduleError)
  | run (e : RunError)
  /-- The name of a sample or of a schedule was needed, and left blank. -/
  | blankName
  /-- The time limit was needed, and left blank. -/
  | blankLimit
  deriving Repr, DecidableEq

/-- The wording of the error. -/
def Breakdown.message : Breakdown → String
  | .file e => e.message
  | .proof e => e.message
  | .schedule e => e.message
  | .run e => e.message
  | .blankName => "a name was left blank"
  | .blankLimit => "the time limit was left blank"

/-- All that a run of the program leaves behind. -/
structure Outcome where
  tree : Tree
  output : String := ""
  errors : String := ""
  exit : Except Breakdown Nat := .ok 0

namespace Outcome

/-- Print some lines. -/
def print (o : Outcome) (block : List String) : Outcome :=
  { o with output := o.output ++ Text.lines block }

/-- Break off. -/
def fail (o : Outcome) (e : Breakdown) : Outcome := { o with exit := .error e }

/-- Write a file and say so, unless no name is given. -/
def writeFile (o : Outcome) (path : Option String) (content note : String) : Outcome :=
  match path with
  | none => o
  | some path =>
    if path = "" then o
    else
      match o.tree.write path content with
      | .error e => o.fail (.file e)
      | .ok tree => { o with tree }.print [note ++ " " ++ path]

/-- Go on, unless the program broke off. -/
def andThen (o : Outcome) (next : Outcome → Outcome) : Outcome :=
  match o.exit with
  | .ok _ => next o
  | .error _ => o

end Outcome

/-- The outcome of a command line that is refused. -/
def refusal (tree : Tree) (e : UsageError) : Outcome :=
  { tree, exit := .ok 2
    errors := Text.lines (usage ++ [programName ++ ": error: " ++ e.message]) }

/-- The sample problems, one to a line. -/
def sampleLines : List String :=
  Sample.all.map fun sample =>
    Text.padRight 12 sample.name ++ " " ++ Text.padRight 14 sample.expected ++ " "
      ++ sample.description

/-- One line of a comparison. -/
def columns (schedule verdict processed seconds : String) : String :=
  Text.padRight 14 schedule ++ " " ++ Text.padRight 14 verdict ++ " "
    ++ Text.padLeft 9 processed ++ " " ++ Text.padLeft 9 seconds

/-- A comparison as a table. -/
def table (rows : List Row) : List String :=
  columns "heuristic" "status" "processed" "seconds" ::
    rows.map fun row =>
      columns row.schedule row.status.verdict (toString row.processed) (row.elapsed.fixed 3)

/-! ## After the search -/

/-- The limit of a run.  A blank one stops the run when it is first looked at. -/
def Request.timeLimit (r : Request) : Option TimeLimit :=
  r.limit.map fun
    | .blank => .atOnce
    | .given s => .after s

/-- Whether a run that ended in this way was stopped by a blank limit. -/
def Request.stoppedByBlank (r : Request) (status : Status) : Bool :=
  r.limit = some .blank && status = .timedOut

/-- Print the derivation and draw its graph. -/
def showProof (r : Request) (s : State) (o : Outcome) : Outcome :=
  if s.status = .refuted then
    match s.derivation with
    | .error e => o.fail (.proof e)
    | .ok d =>
      let listing :=
        ["# SZS output start CNFRefutation", d.listing, "# SZS output end CNFRefutation"]
      (o.print (if r.quiet then [] else listing)).writeFile r.dot d.dot "Graph exported to"
  else o

/-- Save the report. -/
def saveReport (r : Request) (s : State) (o : Outcome) : Outcome :=
  if r.save.all (· = "") then o
  else
    match s.report with
    | .error e => o.fail (.proof e)
    | .ok report => o.writeFile r.save report.render "Report saved to"

/-- Report on a search that has been run. -/
def conclude (r : Request) (tree : Tree) (finished : Finished) : Outcome :=
  let s := finished.state
  let start := Outcome.print { tree } (if r.verbose then finished.events.map Event.render else [])
  if r.stoppedByBlank s.status then start.fail .blankLimit
  else
    let summary := if r.verbose then s.summary else []
    let statistics := if r.quiet then [] else s.statistics
    let verdict := start.print (summary ++ statistics ++ ["# SZS status " ++ s.status.verdict])
    (verdict.andThen (showProof r s)).andThen (saveReport r s)

/-! ## From the beginning -/

/-- The outcome when the problem cannot be loaded. -/
def loadFailure (tree : Tree) (e : LoadError) : Outcome :=
  match e with
  | .file ⟨.nullCharacter, path⟩ => Outcome.fail { tree } (.file ⟨.nullCharacter, path⟩)
  | e => { tree, errors := Text.lines ["Error: " ++ e.message], exit := .ok 1 }

/-- The clauses of the problem that is asked for and the switches it needs, or the outcome if there
are none.  A problem file has precedence over a sample. -/
def Request.problem (r : Request) (tree : Tree) (environment : Option String) :
    Except Outcome (List Clause × List Switch) :=
  let loaded (clauses : Except LoadError (List Clause)) (switches : List Switch) :=
    (clauses.map fun clauses => (clauses, switches)).mapError (loadFailure tree)
  match r.file, r.sample with
  | some file, _ =>
    loaded (load tree { chosen := r.includeDirectory, environment } (Path.ofText file)) []
  | none, some (.given sample) => loaded sample.clauses sample.switches
  | none, some .blank => .error (Outcome.fail { tree } .blankName)
  | none, none => .error (refusal tree .noProblem)

variable {m : Type → Type} [Monad m]

/-- Search a problem, or compare the schedules on it. -/
def searchFor (search : Searcher m) (tree : Tree) (r : Request) (clauses : List Clause)
    (settings : Settings) : m Outcome := do
  if r.compare then
    match ← compareSchedules search settings r.timeLimit clauses [] with
    | .error (.schedule e) => return Outcome.fail { tree } (.schedule e)
    | .error (.run e) => return Outcome.fail { tree } (.run e)
    | .ok rows =>
      if rows.any fun row => r.stoppedByBlank row.status then
        return Outcome.fail { tree } .blankLimit
      else return Outcome.print { tree } (table rows)
  else
    match r.schedule with
    | .blank => return Outcome.fail { tree } .blankName
    | .given schedule =>
      match ← search r.timeLimit (State.start schedule settings {} clauses) with
      | .error e => return Outcome.fail { tree } (.run e)
      | .ok finished => return conclude r tree finished

/-- Run a command line on the files of a tree. -/
def run (search : Searcher m) (tree : Tree) (environment : Option String)
    (words : List String) : m Outcome := do
  match Request.ofWords words with
  | .error .help => return Outcome.print { tree } help
  | .error (.refused e) => return refusal tree e
  | .ok r =>
    if r.listSamples then return Outcome.print { tree } sampleLines
    else
      match r.problem tree environment with
      | .error outcome => return outcome
      | .ok (clauses, switches) =>
        searchFor search tree r clauses (Settings.turnOn {} (r.switches ++ switches))

end GivenClause.CommandLine
