import GivenClause.Clause

/-!
# Clause sets

A clause set is an ordered multiset: a list of clauses, oldest first.  Two clauses with the same
literals are two members, and what tells members apart is not their content.  The functions here
work for any members that stand for a clause (`HasClause`): clauses themselves, and clauses under a
label, where a particular member is taken out again.
-/

namespace GivenClause

/-- Things that stand for a clause. -/
class HasClause (α : Type) where
  clause : α → Clause

/-- A clause stands for itself. -/
instance : HasClause Clause := ⟨id⟩

@[simp] theorem clause_self (c : Clause) : HasClause.clause c = c := rfl

/-- A clause with a label that tells it apart from other members with the same content. -/
structure Labelled where
  label : Nat
  clause : Clause
  deriving Repr, DecidableEq

instance : HasClause Labelled := ⟨Labelled.clause⟩

@[simp] theorem clause_labelled (c : Labelled) : HasClause.clause c = c.clause := rfl

namespace ClauseSet

variable {α : Type}

/-- The set with one more member, at the end. -/
def add (members : List α) (x : α) : List α := members ++ [x]

/-- The set with several more members, put in one after the other. -/
def addAll (members : List α) (xs : List α) : List α := xs.foldl add members

/-- The oldest member, if there is one, and the set without it. -/
def extractFirst : List α → Option α × List α
  | [] => (none, [])
  | x :: rest => (some x, rest)

/-- Take the first member with a property out of a list. -/
def takeFirst (p : α → Bool) : List α → Option (List α)
  | [] => none
  | x :: rest => if p x then some rest else (takeFirst p rest).map (x :: ·)

/-- A clause was asked for that is not a member. -/
structure NotAMember where
  name : String
  deriving Repr, DecidableEq

/-- The wording of the refusal. -/
def NotAMember.message (e : NotAMember) : String := e.name ++ " is not in this clause set"

/-- The rows of a table without the first one for the member of a given label. -/
def extractBy (item : α → Labelled) (c : Labelled) (rows : List α) : Except NotAMember (List α) :=
  match takeFirst (fun x => (item x).label == c.label) rows with
  | some rest => .ok rest
  | none => .error ⟨c.clause.name⟩

/-- The set without the member of a given label; of several, the oldest goes. -/
def extract (c : Labelled) (members : List Labelled) : Except NotAMember (List Labelled) :=
  extractBy id c members

/-- The clauses of a list as members in their own right, each with its place for a label. -/
def labelled (clauses : List Clause) : List Labelled :=
  clauses.zipIdx.map fun (c, i) => ⟨i, c⟩

/-- The member at an index; negative indices count from the end. -/
def memberAt (members : List α) (i : Int) : Except IndexError α := Index.get members i

variable [HasClause α]

/-- The literals of the members that could resolve with `l`: the other sign, the same predicate and
the same number of arguments.  Each is given by its member and its position there. -/
def resolutionCandidates (l : Literal) (members : List α) : List (α × Nat) :=
  members.flatMap fun x =>
    ((HasClause.clause x).literals.zipIdx.filter fun (m, _) =>
        m.positive != l.positive && m.signature = l.signature).map fun (_, j) => (x, j)

/-- Set the member of a name: in place if the name is there, at the end if it is new. -/
def assignName (x : α) : List (String × α) → List (String × α)
  | [] => [((HasClause.clause x).name, x)]
  | (name, y) :: rest =>
    if name = (HasClause.clause x).name then (name, x) :: rest else (name, y) :: assignName x rest

/-- The members by name.  Of several with one name the last counts, at the place of the first. -/
def byName (members : List α) : List (String × α) :=
  members.foldl (fun found x => assignName x found) []

/-- The members as statements, one to a line. -/
def render (members : List α) : String :=
  Text.join "\n" (members.map fun x => (HasClause.clause x).render)

end ClauseSet

end GivenClause
