import GivenClause.Matching
import GivenClause.Text.Sorted

/-!
# Literals

A literal is an atom with a sign, and an atom is a predicate symbol over its arguments.  An equation
is an atom of the binary predicate `=`; it prints between its two sides, `a=b` or `a!=b`.
-/

namespace GivenClause

/-- An atom, affirmed or denied. -/
structure Literal where
  positive : Bool
  predicate : String
  args : List Term
  deriving Repr, DecidableEq, Inhabited

namespace Literal

/-- The predicate symbol of equations. -/
def equality : String := "="

/-- The atom as a term. -/
def atom (l : Literal) : Term := .app l.predicate l.args

/-- The sign is minus. -/
def negative (l : Literal) : Bool := !l.positive

/-- The predicate with its number of arguments; only literals that agree in it can unify. -/
def signature (l : Literal) : String × Nat := (l.predicate, l.args.length)

/-- An atom of the binary predicate `=`. -/
def isEquation (l : Literal) : Bool := l.predicate = equality && l.args.length = 2

/-- The same atom under the other sign. -/
def negate (l : Literal) : Literal := { l with positive := !l.positive }

/-- The same atom under different signs. -/
def isOpposite (l l' : Literal) : Bool := l.positive != l'.positive && l.atom = l'.atom

/-- The literal under a substitution. -/
def instantiate (s : Substitution) (l : Literal) : Literal :=
  { l with args := l.args.map s.apply }

/-- The variable occurrences, from left to right. -/
def vars (l : Literal) : List String := l.atom.vars

/-- The distinct variables, in ascending order. -/
def sortedVars (l : Literal) : List String := Text.sortedNames l.vars

/-- The symbol count of the atom; the predicate counts as one symbol. -/
def weight (perSymbol perVariable : Int) (l : Literal) : Int := l.atom.weight perSymbol perVariable

/-- Extend a substitution so that the first literal becomes the second.  The signs have to agree;
on failure the substitution is returned as it was. -/
def matchWith (s : Substitution) (pattern target : Literal) : Bool × Substitution :=
  if pattern.positive = target.positive then s.matchTerm pattern.atom target.atom else (false, s)

/-- A literal in the clause format. -/
def render (l : Literal) : String :=
  match l.isEquation, l.args with
  | true, [lhs, rhs] => lhs.render ++ (if l.positive then "=" else "!=") ++ rhs.render
  | _, _ => (if l.positive then "" else "~") ++ l.atom.render

/-- A variable was used where an atom is wanted. -/
structure VariableAtom where
  name : String
  deriving Repr, DecidableEq

/-- The wording of the refusal. -/
def VariableAtom.message (e : VariableAtom) : String :=
  "variable " ++ e.name ++ " cannot be used as an atom"

/-- Read a term as an atom and give it a sign.  A variable is not an atom. -/
def ofTerm (positive : Bool) : Term → Except VariableAtom Literal
  | .var x => .error ⟨x⟩
  | .app p args => .ok ⟨positive, p, args⟩

end Literal

end GivenClause
