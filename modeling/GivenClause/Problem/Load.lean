import GivenClause.Files.Tree
import GivenClause.Filter
import GivenClause.Format.Read

/-!
# Loading problems

The clauses of a problem file, with every inclusion replaced by the clauses of the file it names.
An included file is looked for in a directory of the caller's choice, in the directory of the
environment, in the directory of the including file, and at its own path, in this order.

A file that is still being read cannot be included again; since a tree has finitely many files,
loading always ends.
-/

namespace GivenClause.Problem

open Files Format

/-- Why a problem cannot be loaded. -/
inductive LoadError where
  | text (e : ReadError)
  | file (e : FileError)
  /-- No file of this name is found. -/
  | includeMissing (name : String)
  /-- An inclusion leads back into a file that is being read. -/
  | includeCycle (path : String)
  deriving Repr, DecidableEq

/-- The wording of an error. -/
def LoadError.message : LoadError → String
  | .text e => e.message
  | .file e => e.message
  | .includeMissing name => "included file " ++ Text.quoted name ++ " not found"
  | .includeCycle path => "include cycle through " ++ path

/-- Where included files are looked for, the files themselves apart. -/
structure Places where
  /-- The directory of the caller's choice. -/
  chosen : Option String := none
  /-- The directory of the environment. -/
  environment : Option String := none
  deriving Repr, DecidableEq

/-- The paths an included file may have, in the order in which they are tried.  Directories with an
empty name do not count. -/
def candidates (places : Places) (base : Option Path) (name : String) : List Path :=
  let directories :=
    (places.chosen.bind Path.directory?).toList
      ++ (places.environment.bind Path.directory?).toList ++ base.toList
  directories.map (·.append (Path.ofText name)) ++ [Path.ofText name]

/-- The first candidate that is a file. -/
def firstFile (tree : Tree) (name : String) : List Path → Except LoadError Path
  | [] => .error (.includeMissing name)
  | path :: rest =>
    match tree.isFile path with
    | .error e => .error (.file e)
    | .ok true => .ok path
    | .ok false => firstFile tree name rest

/-- The path of an included file. -/
def locate (tree : Tree) (places : Places) (base : Option Path) (name : String) :
    Except LoadError Path :=
  firstFile tree name (candidates places base name)

/-- The clauses that a selection of names keeps. -/
def select (selection : Option (List String)) (clauses : List Clause) : List Clause :=
  match selection with
  | none => clauses
  | some names => clauses.filter fun c => names.contains c.name

/-- The files of a tree that are not being read. -/
def unopened (tree : Tree) (reading : List Location) : List (Location × String) :=
  tree.files.filter fun (place, _) => !reading.contains place

/-- Opening a file leaves fewer to open. -/
theorem length_unopened_lt {tree : Tree} {path : Path} {place : Location} {text : String}
    {reading : List Location} (h : tree.read path = .ok (.file place text))
    (hnew : ¬ reading.contains place = true) :
    (unopened tree (place :: reading)).length < (unopened tree reading).length := by
  obtain ⟨content, hmem⟩ := Tree.mem_files_of_read h
  refine length_filter_lt (fun file _ hfile => ?_) hmem ?_ ?_
  · simp only [List.contains_cons, Bool.not_or, Bool.and_eq_true] at hfile
    exact hfile.2
  · simpa using hnew
  · simp

/-- Replace the inclusions among statements by the clauses they stand for. -/
def expand (tree : Tree) (places : Places) (base : Option Path)
    (load : Path → Except LoadError (List Clause)) : List Statement → Except LoadError (List Clause)
  | [] => .ok []
  | .clause c :: rest => do
    let more ← expand tree places base load rest
    return c :: more
  | .inclusion name selection :: rest => do
    let path ← locate tree places base name
    let included ← load path
    let more ← expand tree places base load rest
    return select selection included ++ more

/-- The clauses of the file that a path leads to, while the files `reading` are being read. -/
def loadFile (tree : Tree) (places : Places) (reading : List Location) (path : Path) :
    Except LoadError (List Clause) :=
  match _found : tree.read path with
  | .error e => .error (.file e)
  | .ok .nothing => .ok []
  | .ok (.file place text) =>
    if _open : reading.contains place then .error (.includeCycle path.render)
    else
      match readStatements text with
      | .error e => .error (.text e)
      | .ok statements =>
        expand tree places (some path.parent)
          (fun path => loadFile tree places (place :: reading) path) statements
termination_by (unopened tree reading).length
decreasing_by exact length_unopened_lt _found _open

/-- The clauses of a problem file. -/
def load (tree : Tree) (places : Places) (path : Path) : Except LoadError (List Clause) :=
  loadFile tree places [] path

/-- The clauses of a text, whose inclusions are looked for from `base`. -/
def loadText (tree : Tree) (places : Places) (base : Option Path) (text : String) :
    Except LoadError (List Clause) :=
  match readStatements text with
  | .error e => .error (.text e)
  | .ok statements => expand tree places base (load tree places) statements

end GivenClause.Problem
