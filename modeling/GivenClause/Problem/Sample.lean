import GivenClause.Problem.Load
import GivenClause.Search.State

/-!
# Sample problems

Four small problems to try the search on, each with the verdict that a complete search comes to and
the switches that it needs to get there.
-/

namespace GivenClause.Problem

/-- A problem with what is known about it. -/
structure Sample where
  name : String
  text : String
  /-- The verdict of a complete search. -/
  expected : String
  /-- The switches that the search needs. -/
  switches : List Search.Switch := []
  description : String
  deriving Repr, DecidableEq

namespace Sample

/-- A syllogism. -/
def socrates : Sample where
  name := "socrates"
  text := "
% All humans are mortal, Socrates is human. Is Socrates mortal?
cnf(all_humans_are_mortal, axiom, mortal(X)|~human(X)).
cnf(socrates_is_human, axiom, human(socrates)).
cnf(socrates_not_mortal, negated_conjecture, ~mortal(socrates)).
"
  expected := Search.Status.refuted.verdict
  description := "Socrates syllogism: prove mortal(socrates)"

/-- A chain of implications. -/
def chain : Sample where
  name := "chain"
  text := "
% knows -> trusts -> cooperates -> builds_with
cnf(alice_knows_bob, axiom, knows(alice,bob)).
cnf(knowing_implies_trusting, axiom, ~knows(X,Y)|trusts(X,Y)).
cnf(trusting_implies_cooperating, axiom, ~trusts(X,Y)|cooperates(X,Y)).
cnf(cooperating_implies_building, axiom, ~cooperates(X,Y)|builds_with(X,Y)).
cnf(goal, negated_conjecture, ~builds_with(alice,bob)).
"
  expected := Search.Status.refuted.verdict
  description := "Multi-step resolution: prove a chain of implications"

/-- Two clauses whose resolvents always have two literals. -/
def factoring : Sample where
  name := "factoring"
  text := "
% Every resolvent of the two clauses has two literals: only a factor
% of each gets down to units.
cnf(someone_is_p, axiom, p(X)|p(Y)).
cnf(nobody_is_p, negated_conjecture, ~p(X)|~p(Y)).
"
  expected := Search.Status.refuted.verdict
  description := "Refutation that needs factoring"

/-- Clauses that have a model. -/
def noProof : Sample where
  name := "no_proof"
  text := "
% ~p(a) leaves q(a) open: there is a model, so no refutation exists.
cnf(p_or_q, axiom, p(X)|q(a)).
cnf(excluded_middle, axiom, p(X)|~p(X)).
cnf(not_p_a, negated_conjecture, ~p(a)).
"
  expected := Search.Status.saturated.verdict
  switches := [.deleteTautologies]
  description := "Satisfiable clause set: the search saturates"

/-- All samples, in the order in which they are listed. -/
def all : List Sample := [socrates, chain, factoring, noProof]

/-- The names of the samples. -/
def names : List String := all.map Sample.name

/-- There is no sample of this name. -/
structure Unknown where
  name : String
  deriving Repr, DecidableEq

/-- The wording of the error. -/
def Unknown.message (e : Unknown) : String :=
  "Unknown problem " ++ Text.quoted e.name ++ ". Available: " ++ Text.join ", " names

/-- The sample of a name. -/
def named (name : String) : Except Unknown Sample :=
  match all.find? fun sample => sample.name = name with
  | some sample => .ok sample
  | none => .error ⟨name⟩

/-- The clauses of a sample. -/
def clauses (sample : Sample) : Except LoadError (List Clause) :=
  loadText {} {} none sample.text

end Sample

end GivenClause.Problem
