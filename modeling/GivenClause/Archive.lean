import GivenClause.ClauseSet

/-!
# Archives

The record of every clause that was ever used for inferences, by name and in the order of use.
Support links are names; they are looked up here, so a clause stays explainable after it has been
dropped from the search.
-/

namespace GivenClause

/-- Clauses with different names, in the order in which the names were first recorded. -/
structure Archive where
  entries : List Clause := []
  deriving Repr, DecidableEq, Inhabited

namespace Archive

/-- Replace the clause of the same name, or append a new one. -/
def recordIn (c : Clause) : List Clause → List Clause
  | [] => [c]
  | d :: rest => if d.name = c.name then c :: rest else d :: recordIn c rest

/-- Record a clause under its name. -/
def record (archive : Archive) (c : Clause) : Archive := ⟨recordIn c archive.entries⟩

/-- The archive of a list of clauses.  Of several with one name the last counts, at the place of
the first. -/
def ofList (clauses : List Clause) : Archive := clauses.foldl record {}

/-- The clause of a name. -/
def find? (archive : Archive) (name : String) : Option Clause :=
  archive.entries.find? fun c => c.name = name

/-- The names, in order. -/
def names (archive : Archive) : List String := archive.entries.map Clause.name

/-- How early a name was recorded; names that are not there come after all others. -/
def rank (archive : Archive) (name : String) : Nat :=
  archive.entries.findIdx fun c => c.name = name

/-- The clause recorded last. -/
def last? (archive : Archive) : Option Clause := archive.entries.getLast?

theorem find?_mem {archive : Archive} {name : String} {c : Clause}
    (h : archive.find? name = some c) : c ∈ archive.entries := List.mem_of_find?_eq_some h

theorem name_of_find? {archive : Archive} {name : String} {c : Clause}
    (h : archive.find? name = some c) : c.name = name := by
  simpa using List.find?_some h

end Archive

end GivenClause
