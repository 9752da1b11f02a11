import Mathlib
import GivenClause.Proofs.GivenClauseInvariant
import GivenClause.Proofs.PositiveResolution

/-!
# A search that saturates has found a model

When nothing is left to select, what is accounted for is covered by the processed clauses, and these
are a saturated set.  So they have a model, and the input, which is covered, is valid in it.

This holds whatever is deleted and in whichever order clauses are selected, and with or without the
occurs check: where two literals have a common instance, unification succeeds in both modes.
-/

namespace GivenClause.Search

open Relation Unification

/-- In a pairwise related list, two different members are related one way or the other. -/
lemma related_of_pairwise {α : Type} {R : α → α → Prop} {xs : List α} (h : xs.Pairwise R) {x y : α}
    (hx : x ∈ xs) (hy : y ∈ xs) (hne : x ≠ y) : R x y ∨ R y x := by
  have : Std.Symm fun x y => R x y ∨ R y x := ⟨fun _ _ => Or.symm⟩
  have heither : xs.Pairwise fun x y => R x y ∨ R y x := h.imp Or.inl
  exact heither.forall hx hy hne

/-- With nothing waiting, what is accounted for is covered. -/
lemma Accounted.covered {s : State} {ls : List Literal} (h : Accounted s ls)
    (hempty : s.unprocessed.isEmpty = true) : Covered s.processed ls := by
  rcases h with ⟨c, hc, -⟩ | h | ⟨-, h⟩
  · rw [Queue.isEmpty, List.isEmpty_iff] at hempty
    rw [Queue.items, hempty] at hc
    cases hc
  · exact Or.inl h
  · exact Or.inr h

/-- **With nothing waiting, the processed clauses are saturated.** -/
theorem NothingLost.saturated {clauses : List Clause} {s : State} (h : NothingLost clauses s)
    (hapart : Apart s) (hempty : s.unprocessed.isEmpty = true) :
    Saturated s.settings.cycles s.processed where
  nonempty := hapart.nonempty
  apart := by
    intro c hc d hd hne x hxc hxd
    rcases related_of_pairwise hapart.disjoint hc hd hne with hdisjoint | hdisjoint
    · exact hdisjoint x hxc hxd
    · exact hdisjoint x hxd hxc
  factors := fun c hc i j r hij hr => (h.factors c hc i j r hij hr).covered hempty
  resolvents := by
    intro c hc d hd hne
    rcases related_of_pairwise h.resolvents hc hd hne with hcd | hdc
    · exact Or.inr fun i j r hr => (hcd j i r hr).covered hempty
    · exact Or.inl fun i j r hr => (hdc i j r hr).covered hempty

/-- A quiet run that has come to an end has shown the input to have a model. -/
lemma satisfiable_of_quiet_end {schedule : Schedule} {settings : Settings} {names : NameSupply}
    {clauses : List Clause} {t : State}
    (h : ReflTransGen QuietlyTo (State.start schedule settings names clauses) t)
    (hempty : t.unprocessed.isEmpty = true) :
    ∃ A, ∀ c ∈ clauses, (herbrand A).Validates c.literals := by
  obtain ⟨hlost, hapart⟩ := quiet_start h
  obtain ⟨A, hA⟩ := (hlost.saturated hapart hempty).exists_model
  exact ⟨A, fun c hc => hA c.literals ((hlost.input c hc).covered hempty)⟩

/-- A run that ends saturated came quietly to a state with nothing waiting. -/
lemma Ending.empty_of_saturated {limit : Option TimeLimit} {t last : State} {found : Option Clause}
    (h : Ending limit t last found) (hstatus : last.status = .saturated) :
    t.unprocessed.isEmpty = true := by
  cases h with
  | saturated empty => exact empty
  | refuted step found =>
      have hrefuted := (found ▸ step_transition step).status_refuted
      rw [show _ = Status.refuted from hrefuted] at hstatus
      cases hstatus
  | timedOut => cases hstatus

/-- **The verdict of saturation is right.**  If the first run of a search ends saturated, the clauses
it started from have a model. -/
theorem satisfiable_of_saturated (schedule : Schedule) (settings : Settings) (names : NameSupply)
    (clauses : List Clause) {limit : Option TimeLimit} {clock : Clock} {steps : ℕ} {run : Run}
    (call : (State.start schedule settings names clauses).saturate limit clock steps = .ok run)
    (verdict : run.state.status = .saturated) : Satisfiable.{0} clauses := by
  obtain ⟨t, hquiet, hend⟩ := saturate_cases call
  obtain ⟨A, hA⟩ := satisfiable_of_quiet_end hquiet (hend.empty_of_saturated verdict)
  exact ⟨Term, herbrand A, ⟨.var ""⟩, hA⟩

/-- A clause that resolves with copies of itself for ever, and two that only resolve without the
occurs check. -/
def successors : List Clause :=
  [{ literals := [⟨false, "p", [.var "X"]⟩, ⟨true, "p", [.app "s" [.var "X"]]⟩] },
   { literals := [⟨false, "q", [.var "X", .var "X"]⟩, ⟨true, "r", []⟩] },
   { literals := [⟨true, "q", [.var "X", .app "s" [.var "X"]]⟩] }]

theorem successors_satisfiable :
    (∃ run, (State.start .standard {} {} successors).saturate none (.steady (.finite 0)) 20 = .ok run ∧
      run.state.status = .saturated ∧ run.state.counts.resolvents = 1) ∧
      Satisfiable.{0} successors := by
  obtain ⟨run, hrun, hends⟩ : ∃ run, (State.start .standard {} {} successors).saturate none
      (.steady (.finite 0)) 20 = .ok run ∧ decide (run.state.status = .saturated ∧
        run.state.counts.resolvents = 1) = true := exists_ok_of_any (by decide +kernel)
  obtain ⟨hstatus, hresolvents⟩ := of_decide_eq_true hends
  exact ⟨⟨run, hrun, hstatus, hresolvents⟩, satisfiable_of_saturated _ _ _ _ hrun hstatus⟩

end GivenClause.Search
