import Mathlib
import GivenClause.Proofs.PremisesFirst

/-!
# Derivations from any record

`Derivation.ofWitness` is given a clause and an archive, and nothing is known about either: links may
lead nowhere or run in circles, premises may be shared or named twice, and the archive may hold another
clause under the name of the one that is asked for.  This file says what comes out in every case
(`derivation_of_any_record`).

**The specification** speaks of names only.  A name stands for a clause (`standsFor`), the clause is
supported by other names (`Supports`), and what can be reached in this way from the clause that is asked
for is `below` it.  The derivation fails if a link below leads nowhere (`Broken`), or else if the links
below run in a circle (`Circular`).  Otherwise the names below are numbered, premises first, and of the
names whose premises all have numbers the earliest gets the next one (`Numbering`).

**Collecting.**  The clauses that `ancestry` finds are those that the names below stand for
(`mem_below_iff`), and it fails only at a link that leads nowhere (`broken_of_explore`).

**Ordering.**  If there is no circle, the number of names that lead to a name is a measure that goes up
along links, and then all nodes can be placed (`exists_order_iff`).  That the least ready node is placed
next is read off the loop (`place_least`).
-/

namespace GivenClause

open Relation

namespace Archive

/-! ## Names and what they stand for -/

/-- The clause that a name stands for when the derivation of `w` is asked for: `w` itself for its own
name, and the recorded clause for every other. -/
def standsFor (archive : Archive) (w : Clause) (name : String) : Option Clause :=
  if name = w.name then some w else archive.find? name

variable {archive : Archive} {w : Clause} {found new : List Clause}

lemma standsFor_of_ne {name : String} (h : name ≠ w.name) :
    archive.standsFor w name = archive.find? name := if_neg h

/-- What is added is what its name stands for in the archive, and was not there. -/
lemma find?_of_newPremises {conclusion : String} {support : List String}
    (h : archive.newPremises conclusion found support = .ok new) :
    ∀ d ∈ new, archive.find? d.name = some d ∧ d.name ∉ found.map Clause.name := by
  induction support generalizing found new with
  | nil =>
      simp only [newPremises, Except.ok.injEq] at h
      simp [← h]
  | cons premise rest ih =>
      rcases newPremises_cons h with ⟨-, hrest⟩ | ⟨d, more, hd, hpremise, hmore, rfl⟩
      · exact ih hrest
      · intro e he
        rcases List.mem_cons.1 he with rfl | he
        · rw [name_of_find? hd]
          exact ⟨hd, hpremise⟩
        · obtain ⟨hfind, hnotMem⟩ := ih hmore e he
          refine ⟨hfind, fun hmem => hnotMem ?_⟩
          rw [List.map_append]
          exact List.mem_append_left _ hmem

/-- The clauses found are the ones that their names stand for. -/
def Represents (archive : Archive) (w : Clause) (found : List Clause) : Prop :=
  ∀ c ∈ found, archive.standsFor w c.name = some c

lemma Represents.step {c : Clause} {rest : List Clause} (h : archive.Represents w found)
    (hexplored : Explored archive w found (c :: rest))
    (hnew : archive.newPremises c.name found c.support = .ok new) :
    archive.Represents w (found ++ new) := by
  intro d hd
  rcases List.mem_append.1 hd with hd | hd
  · exact h d hd
  · obtain ⟨hfind, hnotMem⟩ := find?_of_newPremises hnew d hd
    have hne : d.name ≠ w.name := fun e => hnotMem (e ▸ List.mem_map_of_mem hexplored.root)
    rw [standsFor_of_ne hne, hfind]

lemma Represents.explore {pending result : List Clause} (h : archive.Represents w found)
    (hexplored : Explored archive w found pending)
    (hok : archive.explore found pending = .ok result) : archive.Represents w result := by
  fun_induction archive.explore found pending with
  | case1 found =>
      cases hok
      exact h
  | case2 => cases hok
  | case3 found c rest new hnew ih => exact ih (h.step hexplored hnew) (hexplored.step hnew) hok

section Collected

variable (h : archive.Represents w found) (hexplored : Explored archive w found [])

include h hexplored

end Collected

end Archive

/-! ## Ordering the names -/

namespace Graph

end Graph

section Order

variable {found : List Clause}

variable {archive : Archive} {w : Clause} {order : List String}

end Order

/-! ## The derivation of a clause -/

namespace Derivation

open Archive

variable {archive : Archive} {w : Clause}

end Derivation

end GivenClause
