import GivenClause.Text.Layout

/-!
# Paths

A path is a sequence of names, from the working directory or from a root.  Empty names and `.` do
not count; `..` is kept, since what it leads to depends on the files.
-/

namespace GivenClause.Files

/-- The pieces of a text between slashes. -/
def pieces : List Char → List (List Char)
  | [] => [[]]
  | c :: rest =>
    if c = '/' then [] :: pieces rest
    else
      match pieces rest with
      | [] => [[c]]
      | piece :: more => (c :: piece) :: more

/-- Where a path starts. -/
inductive Root where
  /-- The working directory. -/
  | here
  /-- The root of the file system. -/
  | top
  /-- A root written with two slashes. -/
  | network
  deriving Repr, DecidableEq

/-- A start and the names to follow from there. -/
structure Path where
  root : Root := .here
  names : List String := []
  deriving Repr, DecidableEq

namespace Path

/-- The root that a text begins with; three slashes or more count as one. -/
def rootOf : List Char → Root
  | '/' :: '/' :: '/' :: _ => .top
  | '/' :: '/' :: _ => .network
  | '/' :: _ => .top
  | _ => .here

/-- Read a path. -/
def ofText (text : String) : Path where
  root := rootOf text.toList
  names := ((pieces text.toList).map String.ofList).filter fun name => name ≠ "" && name ≠ "."

/-- The directory of a name, where the empty name stands for none. -/
def directory? (text : String) : Option Path := if text = "" then none else some (ofText text)

/-- The text of a path; the working directory is a single point. -/
def render (p : Path) : String :=
  let names := Text.join "/" p.names
  match p.root with
  | .here => if p.names.isEmpty then "." else names
  | .top => "/" ++ names
  | .network => "//" ++ names

/-- A path followed by another one; one that starts at a root replaces the first. -/
def append (p q : Path) : Path :=
  if q.root = .here then { p with names := p.names ++ q.names } else q

/-- The path without its last name. -/
def parent (p : Path) : Path := { p with names := p.names.dropLast }

end Path

end GivenClause.Files
