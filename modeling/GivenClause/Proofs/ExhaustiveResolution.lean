import Mathlib
import GivenClause.Proofs.Conclusions

/-!
# Filtering candidates loses nothing

`allResolvents` asks the set for candidates, the literals of the other sign with the same predicate and
arity, collects what resolves, and names it in the end.  This file compares it with the plain procedure
that knows nothing of candidates (`exhaustiveResolvents`): three nested loops over the literals of the
clause, the members, and their literals, where a conclusion takes a name in the moment it is found.

Both give the same clauses in the same order, with the same names and supports, and leave the same name
supply (`filtering_loses_nothing`), for two reasons.  A pair of literals that is filtered out has no
resolvent and takes no name (`tryPair_of_not_candidate`).  And since names play no role in resolution, it
does not matter whether they are given at once or in the end (`foldlM_tryPair`).
-/

namespace GivenClause

open Unification

/-! ## Trying every pair -/

/-- Resolve upon one pair of literals.  What is found is named at once, and comes behind what was found
before. -/
def tryPair (cycles : Cycles) (c : Clause) (i : ℕ) (d : Clause) (found : List Clause × NameSupply)
    (j : ℕ) : Except Unsettled (List Clause × NameSupply) := do
  match ← resolve cycles c i d j with
  | none => return found
  | some r =>
    let (name, names) := found.2.freshClause
    return (found.1 ++ [{ r with name, support := [c.name, d.name] }], names)

/-- The resolvents of a clause with the members of a set: every literal of the clause is tried with every
literal of every member. -/
def exhaustiveResolvents (cycles : Cycles) (names : NameSupply) (c : Clause)
    (members : List Clause) : Except Unsettled (List Clause × NameSupply) :=
  (List.range c.literals.length).foldlM (fun found i =>
    members.foldlM (fun found d =>
      (List.range d.literals.length).foldlM (tryPair cycles c i d) found) found) ([], names)

section TryPair

variable {cycles : Cycles} {c d : Clause} {i j : ℕ} {found : List Clause × NameSupply}

lemma tryPair_of_error {e : Unsettled} (h : resolve cycles c i d j = .error e) :
    tryPair cycles c i d found j = .error e := by
  rw [tryPair, h]
  rfl

lemma tryPair_of_none (h : resolve cycles c i d j = .ok none) :
    tryPair cycles c i d found j = .ok found := by
  rw [tryPair, h]
  rfl

lemma tryPair_of_some {r : Clause} (h : resolve cycles c i d j = .ok (some r)) :
    tryPair cycles c i d found j = .ok (found.1 ++
      [{ r with name := found.2.freshClause.1, support := [c.name, d.name] }],
      found.2.freshClause.2) := by
  rw [tryPair, h]
  rfl

/-- **Literals that are no candidates have no resolvent.** -/
lemma tryPair_of_not_candidate {l m : Literal} (hl : c.literals[i]? = some l)
    (hm : d.literals[j]? = some m)
    (h : ¬ (m.positive != l.positive && m.signature = l.signature) = true) :
    tryPair cycles c i d found j = .ok found := by
  refine tryPair_of_none ?_
  simp only [resolve, hl, hm, resolveOn]
  split_ifs with hsign
  · rfl
  · have hdiffer : ¬ (l.predicate = m.predicate ∧ l.args.length = m.args.length) := by
      rintro ⟨hpredicate, harity⟩
      refine h ?_
      simp [Literal.signature, hpredicate, harity, Ne.symm hsign]
    rw [Literal.atom, Literal.atom, unify_of_different_symbols cycles hdiffer]
    rfl

end TryPair

/-! ## Loops -/

/-- What a pair of literals gives before it is named: the support, and the conclusion if there is one. -/
def tried (cycles : Cycles) (c : Clause) (p : ℕ × Clause × ℕ) :
    Except Unsettled (List String × Option Clause) := do
  return ([c.name, p.2.1.name], ← resolve cycles c p.1 p.2.1 p.2.2)

/-- **Names may be given at once or in the end.** -/
theorem foldlM_tryPair (cycles : Cycles) (c : Clause) (pairs : List (ℕ × Clause × ℕ))
    (done : List Clause) (names : NameSupply) :
    pairs.foldlM (fun found p => tryPair cycles c p.1 p.2.1 found p.2.2) (done, names)
      = pairs.mapM (tried cycles c) >>= fun found =>
          .ok (done ++ (nameConclusions names found).1, (nameConclusions names found).2) := by
  induction pairs generalizing done names with
  | nil => simp [nameConclusions, pure, Except.pure, bind, Except.bind]
  | cons p pairs ih =>
      rw [List.foldlM_cons, List.mapM_cons, tried]
      cases hr : resolve cycles c p.1 p.2.1 p.2.2 with
      | error e =>
          rw [tryPair_of_error hr]
          rfl
      | ok r =>
          cases r with
          | none =>
              rw [tryPair_of_none hr]
              refine (ih done names).trans ?_
              cases pairs.mapM (tried cycles c) <;> rfl
          | some r =>
              rw [tryPair_of_some hr]
              refine (ih _ _).trans ?_
              cases pairs.mapM (tried cycles c) with
              | error e => rfl
              | ok found => simp [nameConclusions, bind, Except.bind, pure, Except.pure]

/-- **Filtering loses nothing.**  Whatever the clause, the set, the name supply and the treatment of
cycles, the filtered procedure has the same outcome as the exhaustive one: the same resolvents in the
same order, with the same names and supports, and the same name supply afterwards; and if a unification
does not settle, it does not in either. -/
theorem filtering_loses_nothing (cycles : Cycles) (names : NameSupply) (c : Clause)
    (members : List Clause) :
    allResolvents cycles names c members = exhaustiveResolvents cycles names c members := by
  have hloop : allResolvents cycles names c members
      = (c.literals.zipIdx.flatMap fun p => (ClauseSet.resolutionCandidates p.1 members).map fun q =>
          (p.2, q.1, q.2)).foldlM (fun found p => tryPair cycles c p.1 p.2.1 found p.2.2)
            ([], names) := by
    rw [foldlM_tryPair]
    rfl
  rw [hloop, foldlM_flatMap, exhaustiveResolvents, ← foldlM_zipIdx]
  refine foldlM_congr (fun p hp found => ?_) _
  rw [List.foldlM_map, ClauseSet.resolutionCandidates, foldlM_flatMap]
  refine foldlM_congr (fun d hd found => ?_) _
  rw [List.foldlM_map, List.foldlM_filter, ← foldlM_zipIdx]
  refine foldlM_congr (fun q hq found => ?_) _
  split_ifs with hcandidate
  · rfl
  · exact (tryPair_of_not_candidate (List.mem_zipIdx_iff_getElem?.1 hp)
      (List.mem_zipIdx_iff_getElem?.1 hq) hcandidate).symm

end GivenClause
