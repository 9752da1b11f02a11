import GivenClause.Schedule
import GivenClause.Subsumption

/-!
# Scored sets

A scored set is a clause set that remembers the scores of its members and hands out the best one under
the weight that is due.  Members and scores stand in two lists: the scores at a place are those of the
member at the same place.  Nothing but its operations keeps the two lists in step, so every operation
that moves a member has to move its scores, and one that finds no scores where it needs them fails.
-/

namespace GivenClause

/-- The members in the order in which they came, their scores in the same order, and the schedule that
selects among them. -/
structure ScoredSet (α : Type) where
  schedule : Schedule
  members : List α := []
  scores : List (List Int) := []
  deriving Repr, DecidableEq

namespace ScoredSet

/-- Why an operation fails. -/
inductive Failure where
  | notAMember (e : ClauseSet.NotAMember)
  /-- One of the lists has no such place. -/
  | index (e : IndexError)
  deriving Repr, DecidableEq

variable {α : Type}

/-- Score a member and put it at the end. -/
def add [HasClause α] (set : ScoredSet α) (x : α) : ScoredSet α :=
  let (values, schedule) := set.schedule.evaluate (HasClause.clause x)
  let set := { set with schedule, scores := set.scores ++ [values] }
  { set with members := ClauseSet.add set.members x }

/-- Put in several members, one after the other. -/
def addAll [HasClause α] (set : ScoredSet α) (xs : List α) : ScoredSet α := xs.foldl add set

/-- The score at a place under the weight at position `due`. -/
def scoreAt (set : ScoredSet α) (due place : Nat) : Except IndexError Int := do
  Index.get (← Index.get set.scores place) due

/-- The first place of least score: `best` is the best of those before, with the score `least`. -/
def leastFrom (score : Nat → Except IndexError Int) (best : Nat) (least : Int) :
    List Nat → Except IndexError Nat
  | [] => .ok best
  | place :: rest => do
    let value ← score place
    if value < least then leastFrom score place value rest else leastFrom score best least rest

/-- Take out the best member under the weight that is due.  From an empty set nothing is taken, and the
schedule does not move. -/
def extractBest (set : ScoredSet α) : Except IndexError (Option α × ScoredSet α) :=
  match List.range set.members.length with
  | [] => .ok (none, set)
  | first :: rest => do
    let (due, schedule) := set.schedule.next
    let best ← leastFrom (set.scoreAt due) first (← set.scoreAt due first) rest
    let scores ← Index.delete set.scores best
    let (x, members) ← Index.pop set.members best
    return (some x, { schedule, members, scores })

/-- Take out the oldest member. -/
def extractFirst (set : ScoredSet α) : Except IndexError (Option α × ScoredSet α) :=
  if set.members.isEmpty then .ok (none, set)
  else do
    let scores ← Index.delete set.scores 0
    let (x, members) ← Index.pop set.members 0
    return (some x, { set with members, scores })

/-- Take out the member of a given label; of several, the oldest goes. -/
def extract (c : Labelled) (set : ScoredSet Labelled) : Except Failure (ScoredSet Labelled) :=
  match set.members.findIdx? fun x => x.label == c.label with
  | none => .error (.notAMember ⟨c.clause.name⟩)
  | some place => do
    let scores ← (Index.delete set.scores place).mapError .index
    let members ← (Index.delete set.members place).mapError .index
    return { set with members, scores }

/-- Take out every member that a clause subsumes, and tell how many these are. -/
def removeSubsumed (c : Clause) (set : ScoredSet Labelled) :
    Except Failure (Nat × ScoredSet Labelled) :=
  GivenClause.removeSubsumed extract c set.members set

/-- Advance the schedule without selecting. -/
def skipTurn (set : ScoredSet α) : Nat × ScoredSet α :=
  let (due, schedule) := set.schedule.next
  (due, { set with schedule })

/-- Score a clause without putting it in. -/
def evaluate (set : ScoredSet α) (c : Clause) : List Int × ScoredSet α :=
  let (values, schedule) := set.schedule.evaluate c
  (values, { set with schedule })

end ScoredSet

end GivenClause
