import GivenClause.ClauseSet
import GivenClause.Schedule

/-!
# Queues

A queue holds clauses that wait to be selected, oldest first, each with the scores it got when it
came in.  `extractBest` asks the schedule which weight is due and takes out the entry of least score
under it, the oldest if there are several.

A queue is what a scored set comes to whose two lists are in step: each member is in one entry with its
scores.
-/

namespace GivenClause

/-- A member of a queue and its scores. -/
structure Entry (α : Type) where
  item : α
  scores : List Int
  deriving Repr, DecidableEq

/-- Entries in the order in which they came, and the schedule that selects among them. -/
structure Queue (α : Type) where
  schedule : Schedule
  entries : List (Entry α) := []
  deriving Repr, DecidableEq

namespace Queue

variable {α : Type}

/-- The members, oldest first. -/
def items (q : Queue α) : List α := q.entries.map Entry.item

/-- No entries. -/
def isEmpty (q : Queue α) : Bool := q.entries.isEmpty

/-- The number of entries. -/
def size (q : Queue α) : Nat := q.entries.length

/-- Put a member at the end, scored by the schedule. -/
def insert [HasClause α] (q : Queue α) (x : α) : Queue α :=
  let (scores, schedule) := q.schedule.evaluate (HasClause.clause x)
  { schedule, entries := q.entries ++ [⟨x, scores⟩] }

/-- Put several members at the end, one after the other. -/
def insertAll [HasClause α] (q : Queue α) (xs : List α) : Queue α := xs.foldl insert q

/-- An entry's score under the weight at position `i`. -/
def scoreAt (i : Nat) (e : Entry α) : Int := e.scores.getD i 0

/-- The first entry of least score: `best` is the best of those before. -/
def leastFrom (i : Nat) (best : Entry α) : List (Entry α) → Entry α
  | [] => best
  | e :: rest => leastFrom i (if scoreAt i e < scoreAt i best then e else best) rest

/-- Take out the first entry whose score is `score`. -/
def removeScored (i : Nat) (score : Int) : List (Entry α) → List (Entry α)
  | [] => []
  | e :: rest => if scoreAt i e = score then rest else e :: removeScored i score rest

/-- Take out the best entry under the weight that is due; `none` from an empty queue, whose schedule
does not move. -/
def extractBest (q : Queue α) : Option (α × Queue α) :=
  match q.entries with
  | [] => none
  | e :: rest =>
    let (i, schedule) := q.schedule.next
    let best := leastFrom i e rest
    some (best.item, { schedule, entries := removeScored i (scoreAt i best) (e :: rest) })

end Queue

end GivenClause
