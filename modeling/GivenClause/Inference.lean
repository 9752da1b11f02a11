import GivenClause.ClauseSet
import GivenClause.Unification

/-!
# Resolution and factoring

The two generating rules.  Resolution takes a literal from each of two clauses, of opposite signs
and with unifiable atoms, and keeps all other literals under the unifier.  Factoring unifies two
literals of the same sign in one clause and drops the second.  Repeated literals of a conclusion are
removed.

`allFactors` and `allResolvents` try every pair of positions in order and name what they find.
Without the occurs check a unification may not settle; the whole computation is then `Unsettled`.
-/

namespace GivenClause

open Unification

/-- The conclusion of a rule: the remaining literals under the unifier, without repetitions. -/
def conclusion (rule : String) (σ : Substitution) (rest : List Literal) : Clause :=
  Clause.removeRepeated
    { literals := rest.map (Literal.instantiate σ), rationale := rule, unifier := some σ }

/-- Resolve two literals upon each other, `rest` being the other literals of both clauses.  `none`
if their signs agree or their atoms do not unify. -/
def resolveOn (cycles : Cycles) (l m : Literal) (rest : List Literal) :
    Except Unsettled (Option Clause) :=
  if l.positive = m.positive then .ok none
  else do
    let σ ← unify cycles l.atom m.atom
    return σ.map fun σ => conclusion "resolution" σ rest

/-- Factor two literals of a clause, `rest` being the clause without the second.  `none` if their
signs differ or their atoms do not unify. -/
def factorOn (cycles : Cycles) (l m : Literal) (rest : List Literal) :
    Except Unsettled (Option Clause) :=
  if l.positive = m.positive then do
    let σ ← unify cycles l.atom m.atom
    return σ.map fun σ => conclusion "factor" σ rest
  else .ok none

/-! ## At given positions -/

/-- Resolve literal `i` of one clause against literal `j` of another.  The clauses must not share
variables. -/
def resolve (cycles : Cycles) (c : Clause) (i : Nat) (d : Clause) (j : Nat) :
    Except Unsettled (Option Clause) :=
  match c.literals[i]?, d.literals[j]? with
  | some l, some m => resolveOn cycles l m (c.literals.eraseIdx i ++ d.literals.eraseIdx j)
  | _, _ => .ok none

/-- Factor literals `i` and `j` of a clause, dropping the second. -/
def factor (cycles : Cycles) (c : Clause) (i j : Nat) : Except Unsettled (Option Clause) :=
  match c.literals[i]?, c.literals[j]? with
  | some l, some m => factorOn cycles l m (c.literals.eraseIdx j)
  | _, _ => .ok none

/-- Why a rule could not be tried. -/
inductive InferenceError where
  | index (e : IndexError)
  | unsettled
  deriving Repr, DecidableEq

/-- The literals that stay behind when index `i` is used.  An index counted from the end names a
literal but removes none. -/
def remaining (literals : List Literal) (i : Int) : List Literal :=
  if i < 0 then literals else literals.eraseIdx i.toNat

/-- The literal that a rule is to use. -/
def selected (c : Clause) (i : Int) : Except InferenceError Literal :=
  (c.literalAt i).mapError .index

/-- Resolution at any indices. -/
def resolveAt (cycles : Cycles) (c : Clause) (i : Int) (d : Clause) (j : Int) :
    Except InferenceError (Option Clause) := do
  let l ← selected c i
  let m ← selected d j
  (resolveOn cycles l m (remaining c.literals i ++ remaining d.literals j)).mapError
    fun _ => .unsettled

/-- Factoring at any indices. -/
def factorAt (cycles : Cycles) (c : Clause) (i j : Int) : Except InferenceError (Option Clause) := do
  let l ← selected c i
  let m ← selected c j
  (factorOn cycles l m (remaining c.literals j)).mapError fun _ => .unsettled

/-! ## All conclusions -/

/-- Name the conclusions that were found and note the clauses they come from. -/
def nameConclusions (names : NameSupply) :
    List (List String × Option Clause) → List Clause × NameSupply
  | [] => ([], names)
  | (_, none) :: rest => nameConclusions names rest
  | (support, some c) :: rest =>
    let (name, names) := names.freshClause
    let (more, names) := nameConclusions names rest
    ({ c with name, support } :: more, names)

/-- All pairs of positions below `n`, the first before the second. -/
def positionPairs (n : Nat) : List (Nat × Nat) :=
  (List.range n).flatMap fun i => (List.range' (i + 1) (n - (i + 1))).map fun j => (i, j)

/-- Every factor of a clause. -/
def allFactors (cycles : Cycles) (names : NameSupply) (c : Clause) :
    Except Unsettled (List Clause × NameSupply) := do
  let found ← (positionPairs c.literals.length).mapM fun (i, j) => do
    return ([c.name], ← factor cycles c i j)
  return nameConclusions names found

/-- Every resolvent of a clause with the members of a set. -/
def allResolvents (cycles : Cycles) (names : NameSupply) (c : Clause) (members : List Clause) :
    Except Unsettled (List Clause × NameSupply) := do
  let candidates := c.literals.zipIdx.flatMap fun (l, i) =>
    (ClauseSet.resolutionCandidates l members).map fun (d, j) => (i, d, j)
  let found ← candidates.mapM fun (i, d, j) => do
    return ([c.name, d.name], ← resolve cycles c i d j)
  return nameConclusions names found

end GivenClause
