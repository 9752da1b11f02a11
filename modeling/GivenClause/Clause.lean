import GivenClause.Index
import GivenClause.Literal
import GivenClause.NameSupply

/-!
# Clauses

A clause is a disjunction of literals together with its history: a name, a role, the names of the
clauses it was derived from (its support), the rule that derived it (its rationale), and the
unifier that was applied.  The empty clause is a contradiction and prints as `$false`.
-/

namespace GivenClause

/-- The roles a clause is read with. -/
def Role.assumption : String := "axiom"

/-- The role of the negated goal. -/
def Role.negatedGoal : String := "negated_conjecture"

/-- The role of everything else, derived clauses included. -/
def Role.plain : String := "plain"

/-- Only axioms and negated goals keep their role; every other role is read as plain. -/
def Role.normalize (role : String) : String :=
  if role = Role.assumption ∨ role = Role.negatedGoal then role else Role.plain

/-- A disjunction of literals with its history. -/
structure Clause where
  literals : List Literal := []
  name : String := ""
  role : String := Role.plain
  support : List String := []
  rationale : String := "input"
  unifier : Option Substitution := none
  deriving Repr, DecidableEq, Inhabited

namespace Clause

/-! ## Shape -/

/-- No literals: a contradiction. -/
def isEmpty (c : Clause) : Bool := c.literals.isEmpty

/-- Exactly one literal. -/
def isUnit (c : Clause) : Bool := c.literals.length == 1

/-- At most one positive literal. -/
def isHorn (c : Clause) : Bool := c.literals.countP (·.positive) ≤ 1

/-- The distinct variables, in ascending order. -/
def sortedVars (c : Clause) : List String := Text.sortedNames (c.literals.flatMap Literal.vars)

/-- The symbol counts of some literals, added up. -/
def literalsWeight (perSymbol perVariable : Int) : List Literal → Int
  | [] => 0
  | l :: rest => l.weight perSymbol perVariable + literalsWeight perSymbol perVariable rest

/-- The symbol counts of the literals of a clause, added up. -/
def weight (perSymbol perVariable : Int) (c : Clause) : Int :=
  literalsWeight perSymbol perVariable c.literals

/-- The literal at an index; negative indices count from the end. -/
def literalAt (c : Clause) (i : Int) : Except IndexError Literal := Index.get c.literals i

/-! ## Simplification -/

/-- Drop repeated literals, keeping first occurrences: `seen` holds the literals kept so far. -/
def dropRepeated (seen : List Literal) : List Literal → List Literal
  | [] => []
  | l :: rest => if l ∈ seen then dropRepeated seen rest else l :: dropRepeated (l :: seen) rest

/-- The clause without repeated literals. -/
def removeRepeated (c : Clause) : Clause := { c with literals := dropRepeated [] c.literals }

/-- Whether some literal is followed by its opposite. -/
def hasOpposites : List Literal → Bool
  | [] => false
  | l :: rest => rest.any l.isOpposite || hasOpposites rest

/-- A clause with an atom under both signs: true in every interpretation. -/
def isTautology (c : Clause) : Bool := hasOpposites c.literals

/-! ## Renaming -/

/-- The clause under a substitution; its history is kept. -/
def instantiate (s : Substitution) (c : Clause) : Clause :=
  { c with literals := c.literals.map (Literal.instantiate s) }

/-- Give a variable a fresh name, unless it has one.  A variable whose fresh name is its own is not
recorded, so it gets another one when it is met again. -/
def freshen (state : NameSupply × Substitution) (x : String) : NameSupply × Substitution :=
  if state.2.binds x then state
  else
    let (y, names) := state.1.freshVariable
    (names, state.2.add x (.var y))

/-- The renaming that gives the variables of a clause fresh names, literal by literal and within a
literal in ascending order. -/
def freshRenaming (names : NameSupply) (c : Clause) : NameSupply × Substitution :=
  (c.literals.flatMap Literal.sortedVars).foldl freshen (names, .empty)

/-- A copy of the clause with fresh variables. -/
def freshCopy (names : NameSupply) (c : Clause) : Clause × NameSupply :=
  let (names, σ) := freshRenaming names c
  (c.instantiate σ, names)

/-! ## Text -/

/-- The literals in the clause format. -/
def renderLiterals (c : Clause) : String :=
  if c.isEmpty then "$false" else Text.join "|" (c.literals.map Literal.render)

/-- Where the clause comes from: `[input]`, or the rule with its premises. -/
def justification (c : Clause) : String :=
  if c.support.isEmpty then "[" ++ c.rationale ++ "]"
  else "[" ++ c.rationale ++ ": " ++ Text.join ", " c.support ++ "]"

/-- The clause as a statement of the clause format. -/
def render (c : Clause) : String :=
  "cnf(" ++ c.name ++ "," ++ c.role ++ "," ++ c.renderLiterals ++ ")."

/-- The clause labelled as one, for diagnostics. -/
def inspect (c : Clause) : String := "Clause(" ++ c.render ++ ")"

/-- The clause with its justification, on one line. -/
def line (c : Clause) : String := c.render ++ " " ++ c.justification

end Clause

end GivenClause
