import GivenClause.ClauseSet

/-!
# Subsumption

A clause subsumes another if it has no more literals and one substitution takes each of its
literals to a literal of the other.  The other clause then says nothing new.

The substitution is searched for literal by literal: each literal of the first clause is matched
against the literals of the second in turn, under the bindings made so far.  The whole search works
on one substitution, and takes back over the trail what a failed attempt has bound.
-/

namespace GivenClause

/-- Make an attempt with one literal after the other until one succeeds.  The bindings of an attempt
that fails are undone before the next. -/
def tryEach (attempt : Literal → Substitution → Bool × Substitution) :
    List Literal → Substitution → Bool × Substitution
  | [], s => (false, s)
  | m :: rest, s =>
    match attempt m s with
    | (true, s') => (true, s')
    | (false, s') => tryEach attempt rest (s'.backtrack s.mark)

/-- Go on with the substitution of an attempt that has succeeded. -/
def andThen (attempt : Bool × Substitution) (next : Substitution → Bool × Substitution) :
    Bool × Substitution :=
  if attempt.1 then next attempt.2 else attempt

/-- Match the literals of one list, one after the other, onto literals of another. -/
def matchOnto (targets : List Literal) : List Literal → Substitution → Bool × Substitution
  | [], s => (true, s)
  | l :: rest, s =>
    tryEach (fun m s => andThen (l.matchWith s m) fun s => matchOnto targets rest s) targets s

/-- Whether the first clause subsumes the second. -/
def subsumes (c d : Clause) : Bool :=
  c.literals.length ≤ d.literals.length && (matchOnto d.literals c.literals .empty).1

/-- Whether some member of a set subsumes a clause. -/
def anySubsumes {α : Type} [HasClause α] (members : List α) (c : Clause) : Bool :=
  members.any fun x => subsumes (HasClause.clause x) c

/-! ## Removal

What a clause subsumes is looked for first and then taken out, member by member.  This works for every
kind of set from which a member can be taken out. -/

section Removal

variable {σ ε : Type}

/-- Take out several members, one after the other. -/
def extractEach (extract : Labelled → σ → Except ε σ) : List Labelled → σ → Except ε σ
  | [], set => .ok set
  | c :: rest, set => do extractEach extract rest (← extract c set)

/-- Take out every one of the members of a set that a clause subsumes, and tell how many were found. -/
def removeSubsumed (extract : Labelled → σ → Except ε σ) (c : Clause) (members : List Labelled)
    (set : σ) : Except ε (Nat × σ) := do
  let found := members.filter fun x => subsumes c x.clause
  return (found.length, ← extractEach extract found set)

end Removal

/-- Removal from a plain set. -/
def ClauseSet.removeSubsumed (c : Clause) (members : List Labelled) :
    Except NotAMember (Nat × List Labelled) :=
  GivenClause.removeSubsumed extract c members members

end GivenClause
