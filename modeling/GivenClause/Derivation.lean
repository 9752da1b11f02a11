import GivenClause.Derivation.Ancestry
import GivenClause.Derivation.Graph

/-!
# Derivations

A derivation is the list of the clauses a clause was derived from and the clause itself, premises
first, numbered `1`, `2`, … with the support links renumbered to match.  Ready clauses come in the
order in which the archive recorded them.

A derivation is written as a listing with one justified line per step, or as a DOT graph.
-/

namespace GivenClause

/-- Why a derivation cannot be given. -/
inductive DerivationError where
  | missing (e : MissingPremise)
  | cyclic (e : Cyclic)
  deriving Repr, DecidableEq

/-- The wording of the error. -/
def DerivationError.message : DerivationError → String
  | .missing e => e.message
  | .cyclic e => e.message

/-- Numbered steps, premises first. -/
structure Derivation where
  steps : List Clause
  deriving Repr, DecidableEq

namespace Derivation

/-- The number of a name in an order, counted from one. -/
def number (order : List String) (name : String) : String := toString (order.idxOf name + 1)

/-- A clause under its number, with its support renumbered. -/
def renumber (order : List String) (c : Clause) : Clause :=
  { c with name := number order c.name, support := c.support.map (number order) }

/-- The steps of an order, taken from the clauses found. -/
def stepsOf (found : List Clause) (order : List String) : List Clause :=
  order.filterMap fun name => (found.find? fun c => c.name = name).map (renumber order)

/-- The derivation of a clause from an archive. -/
def ofWitness (archive : Archive) (witness : Clause) : Except DerivationError Derivation :=
  match archive.ancestry witness with
  | .error e => .error (.missing e)
  | .ok found =>
    match (Graph.ofClauses found).order archive.rank with
    | .error e => .error (.cyclic e)
    | .ok order => .ok ⟨stepsOf found order⟩

/-! ## Text -/

/-- One line per step: its number, the clause, and its justification. -/
def listing (d : Derivation) : String :=
  Text.join "\n" <| d.steps.map fun c =>
    Text.padRight 5 (c.name ++ ".") ++ " " ++ c.render ++ "  " ++ c.justification

/-- A text inside a quoted label of a DOT graph. -/
def label (text : String) : String :=
  String.ofList <| text.toList.flatMap fun c => if c = '"' then ['\\', '"'] else [c]

/-- A contradiction, an input clause and a derived clause have different colours. -/
def colour (c : Clause) : String :=
  if c.isEmpty then "salmon" else if c.support.isEmpty then "lightblue" else "lightgray"

/-- The node of a step and the arrows from its premises. -/
def dotLines (c : Clause) : List String :=
  ("  \"" ++ c.name ++ "\" [label=\"" ++ label (c.name ++ ": " ++ c.renderLiterals)
      ++ "\", fillcolor=" ++ colour c ++ ", style=filled];")
    :: c.support.map fun premise => "  \"" ++ premise ++ "\" -> \"" ++ c.name ++ "\";"

/-- The derivation as a DOT graph. -/
def dot (d : Derivation) : String :=
  Text.lines <|
    ["digraph proof \x7b", "  rankdir=TB;", "  node [shape=box, style=rounded];"]
      ++ d.steps.flatMap dotLines ++ ["\x7d"]

end Derivation

end GivenClause
