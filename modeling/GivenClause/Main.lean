import GivenClause.CommandLine.Run

/-!
# The program

Runs the command line on the files and on the clock of the machine.
-/

namespace GivenClause.Main

open Files Search

/-- The path of a place. -/
def absolute (place : Location) : String := "/" ++ Text.join "/" place

/-- Note what the machine has at a place.  Files that hold no text are left out. -/
def look (tree : Tree) (place : Location) : IO Tree := do
  try
    let path ← IO.FS.realPath (absolute place)
    match (← path.metadata).type with
    | .dir => return { tree with directories := place :: tree.directories }
    | .file => return { tree with files := (place, ← IO.FS.readFile path) :: tree.files }
    | _ => return tree
  catch _ => return tree

/-- Note what the machine has along a path. -/
def lookAlong (tree : Tree) (path : Path) : IO Tree := do
  let mut tree := tree
  let mut place := if path.root = .here then tree.here else []
  for name in path.names do
    place := if name = ".." then place.dropLast else place ++ [name]
    unless tree.node? place |>.isSome do
      tree ← look tree place
  return tree

/-- Note the files that a problem file may include, directly or not. -/
partial def lookInto (places : Problem.Places) (tree : Tree) (path : Path) : IO Tree := do
  let seen ← lookAlong tree path
  match seen.read path with
  | .ok (.file place text) =>
    if (tree.file? place).isSome then return seen
    let mut seen := seen
    for statement in (Format.readStatements text).toOption.getD [] do
      if let .inclusion name _ := statement then
        for candidate in Problem.candidates places (some path.parent) name do
          seen ← lookInto places seen candidate
    return seen
  | _ => return seen

/-- The part of the file system that a request is about. -/
def survey (environment : Option String) (r : CommandLine.Request) : IO Tree := do
  let here := (Path.ofText (toString (← IO.currentDir))).names
  let mut tree : Tree := { here }
  if let some file := r.file then
    tree ← lookInto { chosen := r.includeDirectory, environment } tree (.ofText file)
  for target in [r.dot, r.save] do
    if let some path := target then
      tree ← lookAlong tree (.ofText path)
  return tree

/-- The time since `start`, in seconds. -/
def secondsSince (start : Nat) : IO Seconds :=
  return .ofRat (mkRat ((← IO.monoMsNow) - start) 1000)

/-- Run a search step by step, and look at the clock of the machine after each.  A run whose limit is
reached at once makes one step, and can be resumed.  `past` holds the events so far, the latest
first. -/
partial def saturate (limit : Option TimeLimit) (start : Nat) (past : List Event) (s : State) :
    IO (Except RunError Finished) := do
  match s.saturate (some .atOnce) (.steady (.finite 0)) 1 with
  | .error e => return .error e
  | .ok run =>
    let past := run.events.reverse ++ past
    let elapsed ← secondsSince start
    if run.state.status = .timedOut && !limit.any (·.reached elapsed) then
      saturate limit start past run.state
    else return .ok ⟨{ run.state with elapsed }, past.reverse⟩

/-- Run searches on the clock of the machine. -/
def timed : Searcher IO := fun limit s => do saturate limit (← IO.monoMsNow) [] s

end GivenClause.Main

open GivenClause in
/-- The command line program. -/
def main (words : List String) : IO UInt32 := do
  let environment ← IO.getEnv "TPTP"
  let tree ←
    match CommandLine.Request.ofWords words with
    | .ok r => Main.survey environment r
    | .error _ => pure {}
  let outcome ← CommandLine.run Main.timed tree environment words
  for (place, content) in tree.changes outcome.tree do
    IO.FS.writeFile (Main.absolute place) content
  IO.print outcome.output
  IO.eprint outcome.errors
  match outcome.exit with
  | .ok code => return code.toUInt32
  | .error e =>
    IO.eprintln e.message
    return 1
