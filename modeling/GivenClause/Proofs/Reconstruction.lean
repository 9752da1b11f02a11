import Mathlib
import GivenClause.Proofs.PremisesFirst
import GivenClause.Proofs.SearchHistory
import GivenClause.Search.Report

/-!
# Refutations can be reconstructed

When a step has selected a contradiction, its derivation can be given, and can be checked: the steps
are numbered from one, the last one is the contradiction, and each step is derived from earlier steps
in the way that its support says (`refutation_reconstructed`).

The archive with the contradiction at its end is a chronicle.  In a chronicle every support link goes
back, so links are found, they do not run in circles, and an order with premises first exists.  A
clause and its premises keep their literals when they are numbered, so what was derived stays
derived.

Whether the premises are still processed when the contradiction is found plays no role.
-/

namespace GivenClause

open Relation Unification

section Chronicle

variable {cycles : Cycles} {inputs entries : List Clause}

/-- In a chronicle support links go back. -/
lemma Chronicle.idxOf_lt (h : Chronicle cycles inputs entries)
    (hnodup : (entries.map Clause.name).Nodup) {c : Clause} (hc : c ∈ entries) {name : String}
    (hname : name ∈ c.support) :
    (entries.map Clause.name).idxOf name < (entries.map Clause.name).idxOf c.name := by
  obtain ⟨k, hk⟩ := List.getElem?_of_mem hc
  obtain ⟨p, hp, rfl⟩ := (h.derived_take hk).exists_premise hname
  have hlt : k < (entries.map Clause.name).length := by
    rw [List.length_map]
    exact (List.getElem?_eq_some_iff.1 hk).1
  have hget : (entries.map Clause.name)[k] = c.name := by
    rw [List.getElem_map, (List.getElem?_eq_some_iff.1 hk).2]
  have hmem : p.name ∈ (entries.map Clause.name).take k := by
    rw [← List.map_take]
    exact List.mem_map_of_mem hp
  have hidx : (entries.map Clause.name).idxOf c.name = k := by
    rw [← hget, hnodup.idxOf_getElem]
  rw [hidx]
  nth_rewrite 1 [← List.take_append_drop k (entries.map Clause.name)]
  rw [List.idxOf_append_of_mem hmem]
  exact (List.idxOf_lt_length_of_mem hmem).trans_le (List.length_take_le _ _)

/-- In a chronicle support links are found. -/
lemma Chronicle.mem_names (h : Chronicle cycles inputs entries) {c : Clause} (hc : c ∈ entries)
    {name : String} (hname : name ∈ c.support) : name ∈ entries.map Clause.name := by
  obtain ⟨k, hk⟩ := List.getElem?_of_mem hc
  obtain ⟨p, hp, rfl⟩ := (h.derived_take hk).exists_premise hname
  exact List.mem_map_of_mem (List.mem_of_mem_take hp)

/-- Numbering does not touch literals: what was derived stays derived if the premises are there under
their numbers. -/
lemma Derived.renumber {earlier later : List Clause} {c : Clause} {order : List String}
    (h : Derived cycles inputs earlier c)
    (hpremises : ∀ p ∈ earlier, p.name ∈ c.support → Derivation.renumber order p ∈ later) :
    Derived cycles inputs later (Derivation.renumber order c) := by
  cases h with
  | input member support copy =>
      refine .input member ?_ copy
      simp [Derivation.renumber, support]
  | @factored p r k l premise support order' rule copy =>
      refine .factored (hpremises p premise (by simp [support])) ?_ order' rule copy
      simp [Derivation.renumber, support]
  | @resolved p q r k l first second support rule copy =>
      refine .resolved (hpremises p first (by simp [support]))
        (hpremises q second (by simp [support])) ?_ rule copy
      simp [Derivation.renumber, support]

end Chronicle

/-! ## Numbered steps -/

/-- What it takes to check a derivation: the steps are numbered from one, premises have smaller
numbers, and each step is derived from those before it. -/
def Checked (cycles : Cycles) (inputs steps : List Clause) : Prop :=
  ∀ n step, steps[n]? = some step → step.name = toString (n + 1) ∧
    (∀ premise ∈ step.support, ∃ m < n, premise = toString (m + 1)) ∧
    Derived cycles inputs (steps.take n) step

/-- The steps of a closed part of a chronicle can be checked. -/
lemma PremisesFirst.checked {cycles : Cycles} {inputs entries found : List Clause}
    {order : List String} (h : PremisesFirst found order)
    (hchronicle : Chronicle cycles inputs entries) (hnodup : (entries.map Clause.name).Nodup)
    (hsub : found ⊆ entries) (hdistinct : (found.map Clause.name).Nodup)
    (hclosed : ∀ c ∈ found, ∀ name ∈ c.support, name ∈ found.map Clause.name) :
    Checked cycles inputs (Derivation.stepsOf found order) := by
  intro n step hstep
  obtain ⟨c, hc, rfl, rfl⟩ := h.exists_of_getElem? hstep
  refine ⟨rfl, fun premise hpremise => ?_, ?_⟩
  · obtain ⟨a, ha, rfl⟩ := List.mem_map.1 hpremise
    exact ⟨order.idxOf a, h.idxOf_lt a c.name ⟨c, hc, rfl, ha⟩, rfl⟩
  · obtain ⟨k, hk⟩ := List.getElem?_of_mem (hsub hc)
    refine (hchronicle.derived_take hk).renumber fun p hp hname => ?_
    -- a premise is among the clauses found, since these are closed and names are unique
    obtain ⟨p', hp', hp'name⟩ := List.mem_map.1 (hclosed c hc p.name hname)
    have hpp' : p' = p :=
      eq_of_name_eq hnodup (hsub hp') (List.mem_of_mem_take hp) hp'name
    subst hpp'
    refine List.mem_of_getElem? (i := order.idxOf p'.name) ?_
    rw [List.getElem?_take_of_lt (h.idxOf_lt _ _ ⟨c, hc, rfl, hname⟩)]
    exact h.getElem?_stepsOf hdistinct hp'

/-- **The end of a chronicle has a derivation that can be checked.** -/
theorem exists_derivation {cycles : Cycles} {inputs : List Clause} {archive : Archive} {w : Clause}
    (hchronicle : Chronicle cycles inputs archive.entries)
    (hw : Derived cycles inputs archive.entries w)
    (hnodup : ((archive.entries ++ [w]).map Clause.name).Nodup) :
    ∃ d, Derivation.ofWitness archive w = .ok d ∧ Checked cycles inputs d.steps ∧
      ∃ step, d.steps.getLast? = some step ∧
        step = { w with name := step.name, support := step.support } := by
  have hall : Chronicle cycles inputs (archive.entries ++ [w]) := .snoc hchronicle hw
  have hlinks : ∀ c, c = w ∨ c ∈ archive.entries → ∀ name ∈ c.support, name ∈ archive.names := by
    rintro c (rfl | hc) name hname
    · obtain ⟨p, hp, rfl⟩ := hw.exists_premise hname
      exact List.mem_map_of_mem hp
    · exact hchronicle.mem_names hc hname
  have hstart := Archive.explored_start archive w
  obtain ⟨found, hfound⟩ := hstart.exists_explore hlinks
  have hexplored := hstart.explore hfound
  have hsub : found ⊆ archive.entries ++ [w] := by
    intro c hc
    rcases hexplored.known c hc with rfl | hc
    · simp
    · exact List.mem_append_left _ hc
  have hclosed := hexplored.complete
  obtain ⟨order, horder⟩ := exists_order archive.rank hclosed
    (r := fun name => ((archive.entries ++ [w]).map Clause.name).idxOf name) (by
      rintro a b ⟨c, hc, rfl, ha⟩
      exact hall.idxOf_lt hnodup (hsub hc) ha)
  have hfirst := premisesFirst_of_order hclosed horder
  refine ⟨⟨Derivation.stepsOf found order⟩, ?_,
    hfirst.checked hall hnodup hsub hexplored.distinct hclosed, Derivation.renumber order w, ?_, rfl⟩
  · have hancestry : archive.ancestry w = .ok found := hfound
    simp only [Derivation.ofWitness, hancestry, horder]
  · have hroot := hfirst.idxOf_root hexplored.root hexplored.reached
    have hlast : order.idxOf w.name = (Derivation.stepsOf found order).length - 1 := by
      rw [hfirst.length_stepsOf]
      omega
    rw [List.getLast?_eq_getElem?, ← hlast]
    exact hfirst.getElem?_stepsOf hexplored.distinct hexplored.root

namespace Search

/-! ## Refutations -/

/-- **Every refutation can be reconstructed and checked.**  After any number of steps, if the next one
selects a contradiction, the derivation of the contradiction can be given; its steps can be checked
against the input, and the last one is the contradiction. -/
theorem refutation_reconstructed (schedule : Schedule) (settings : Settings) (names : NameSupply)
    (clauses : List Clause) (unsupported : ∀ c ∈ clauses, c.support = []) {s : State}
    (run : ReflTransGen StepsTo (State.start schedule settings names clauses) s) {r : Step}
    (last : s.step = .ok r) {w : Clause} (found : r.refutation = some w) :
    ∃ d, r.state.derivation = .ok d ∧ Checked settings.cycles clauses d.steps ∧
      w.literals = [] ∧ ∃ step, d.steps.getLast? = some step ∧
        step = { w with name := step.name, support := step.support } := by
  obtain ⟨hsettings, hhistory⟩ := steps_invariant
    (P := fun s => s.settings = settings ∧ History clauses s)
    (fun hs ht => ⟨ht.settings_eq.trans hs.1, hs.2.transition ht⟩)
    ⟨rfl, history_start schedule settings names unsupported⟩ run
  have htransition := step_transition last
  rw [found] at htransition
  generalize r.state = t at htransition ⊢
  cases htransition with
  | @refuted chosen _ s' select empty =>
      obtain ⟨hs', hderived, hnodup, -⟩ := hhistory.select select
      have hchronicle := hs'.archived
      rw [select.settings_eq, hsettings] at hchronicle hderived
      obtain ⟨d, hd, hchecked, hlast⟩ := exists_derivation hchronicle hderived
        (hnodup.sublist ((List.sublist_append_left _ _).map _))
      refine ⟨d, ?_, hchecked, empty, hlast⟩
      show (Derivation.ofWitness s'.archive w).mapError ProofError.derivation = .ok d
      rw [hd]
      rfl

/-- The first two clauses give a third one that subsumes them both. -/
def subsumedParents : List Clause :=
  [{ literals := [⟨true, "p", [.var "X"]⟩, ⟨true, "q", []⟩] },
   { literals := [⟨true, "p", [.var "X"]⟩, ⟨false, "q", []⟩] },
   { literals := [⟨false, "p", [.var "X"]⟩] }]

theorem subsumedParents_reconstructed :
    ∃ s r w d, ReflTransGen StepsTo (State.start (.start "fifo" [⟨1, .freshAge⟩])
        { backwardSubsumption := true } {} subsumedParents) s ∧ s.step = .ok r ∧
      r.refutation = some w ∧ 2 ≤ r.state.counts.backwardSubsumed ∧ r.state.derivation = .ok d ∧
      Checked (.follow 1000000000000) subsumedParents d.steps := by
  obtain ⟨run, hrun, hends⟩ : ∃ run, (State.start (.start "fifo" [⟨1, .freshAge⟩])
      { backwardSubsumption := true } {} subsumedParents).saturate none (.steady (.finite 0)) 20
        = .ok run ∧ decide (run.refutation.isSome = true ∧
          2 ≤ run.state.counts.backwardSubsumed) = true := exists_ok_of_any (by decide +kernel)
  obtain ⟨hfound, hremoved⟩ := of_decide_eq_true hends
  obtain ⟨t, hquiet, hend⟩ := saturate_cases hrun
  generalize run.state = final at hend hremoved
  generalize run.refutation = found at hend hfound
  have hsteps : ReflTransGen StepsTo _ t := hquiet.lift id fun _ _ hstep => hstep.stepsTo
  cases hend with
  | saturated => cases hfound
  | @refuted r w elapsed step found =>
      obtain ⟨d, hd, hchecked, -⟩ := refutation_reconstructed _ _ _ subsumedParents
        (by decide +kernel) hsteps step found
      exact ⟨t, r, w, d, hsteps, step, found, hremoved, hd, hchecked⟩
  | timedOut => cases hfound

end Search

end GivenClause
