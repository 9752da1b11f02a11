import Mathlib
import GivenClause.Proofs.Sessions

/-!
# How long a verdict stands

A search may be called again after it has returned a contradiction.  The contradiction is kept as its
witness for good, but the status is not: a run that comes to its end without a contradiction overwrites
it, whatever was found before (`refutation_overwritten`).

**What decides the status.**  Quiet steps leave the status alone, and every other reply sets it.  So
the verdict of a contradiction stands exactly as long as all replies since the last contradiction are
those of quiet steps (`refuted_iff_standing`).
-/

namespace GivenClause.Search

open Relation

/-! ## Quiet replies -/

/-- A contradiction was returned, and since then there were quiet steps only. -/
def Standing (replies : List Reply) : Prop :=
  ∃ before reply after, replies = before ++ reply :: after ∧ reply.found ≠ none ∧
    ∀ later ∈ after, later = .step none

lemma not_standing_nil : ¬ Standing [] := by
  rintro ⟨before, reply, after, h, -, -⟩
  simp at h

lemma standing_append_singleton {replies : List Reply} {reply : Reply} :
    Standing (replies ++ [reply]) ↔ reply.found ≠ none ∨ reply = .step none ∧ Standing replies := by
  constructor
  · rintro ⟨before, last, after, h, hfound, hafter⟩
    rcases List.eq_nil_or_concat after with rfl | ⟨quiet, latest, rfl⟩
    · obtain ⟨-, hlast⟩ := List.append_inj' h rfl
      rw [List.singleton_inj] at hlast
      exact Or.inl (hlast ▸ hfound)
    · rw [List.concat_eq_append, ← List.cons_append, ← List.append_assoc] at h
      obtain ⟨hreplies, hlatest⟩ := List.append_inj' h rfl
      rw [List.singleton_inj] at hlatest
      refine Or.inr ⟨?_, before, last, quiet, hreplies, hfound, fun later hlater => ?_⟩
      · rw [hlatest]
        exact hafter latest (by simp)
      · exact hafter later (by simp [hlater])
  · rintro (hfound | ⟨rfl, before, last, after, rfl, hfound, hafter⟩)
    · exact ⟨replies, reply, [], rfl, hfound, by simp⟩
    · refine ⟨before, last, after ++ [.step none], by simp, hfound, fun later hlater => ?_⟩
      rcases List.mem_append.1 hlater with hlater | hlater
      · exact hafter later hlater
      · exact List.mem_singleton.1 hlater

/-! ## What a reply does to status and witness -/

/-- A contradiction sets status and witness. -/
def Refutes (w : Clause) (t : State) : Prop :=
  t.status = .refuted ∧ t.witness = some w ∧ w.literals = []

lemma Transition.refutes {s t : State} {w : Clause} (h : Transition s t (some w)) : Refutes w t := by
  cases h with
  | refuted select empty => exact ⟨rfl, rfl, empty⟩

/-- Quiet transitions leave status and witness alone. -/
lemma Transition.quiet_frame {s t : State} (h : Transition s t none) :
    t.status = s.status ∧ t.witness = s.witness := by
  cases h with
  | tautology select | subsumed select | inferred select =>
      obtain ⟨-, -, -, -, rfl⟩ := select
      exact ⟨rfl, rfl⟩

lemma witness_of_quiet {s t : State} (h : ReflTransGen QuietlyTo s t) : t.witness = s.witness :=
  quiet_invariant (P := fun u => u.witness = s.witness) (fun hs ht => ht.quiet_frame.2.trans hs) rfl h

/-- **What a call leaves behind.**  A reply with a contradiction sets status and witness.  One without
keeps the witness; a step keeps the status too, but a run has set it to something else. -/
def Reply.Leaves (reply : Reply) (s t : State) : Prop :=
  match reply with
  | .step (some w) | .run (some w) => Refutes w t
  | .step none => t.status = s.status ∧ t.witness = s.witness
  | .run none => t.status ∈ [Status.saturated, Status.timedOut] ∧ t.witness = s.witness

lemma leaves_of_step {s : State} {r : Step} (h : s.step = .ok r) :
    (Reply.step r.refutation).Leaves s r.state := by
  have htransition := step_transition h
  cases hfound : r.refutation with
  | none => exact (hfound ▸ htransition).quiet_frame
  | some w => exact (hfound ▸ htransition).refutes

lemma leaves_of_saturate {s : State} {limit : Option TimeLimit} {clock : Clock} {steps : ℕ} {run : Run}
    (h : s.saturate limit clock steps = .ok run) : (Reply.run run.refutation).Leaves s run.state := by
  obtain ⟨t, hquiet, hend⟩ := saturate_cases h
  have hwitness := witness_of_quiet hquiet
  generalize run.state = last at hend ⊢
  generalize run.refutation = found at hend ⊢
  cases hend with
  | saturated empty => exact ⟨by simp, hwitness⟩
  | refuted step found => exact (found ▸ step_transition step).refutes
  | timedOut limited step quiet =>
      exact ⟨by simp, (quiet ▸ step_transition step).quiet_frame.2.trans hwitness⟩

/-! ## Whole dialogues -/

/-- What is true of a search after these replies. -/
structure Reported (t : State) (replies : List Reply) : Prop where
  witness : t.witness = (returned replies).getLast?
  empty : ∀ w ∈ returned replies, w.literals = []
  status : t.status = .refuted ↔ Standing replies

lemma Reported.next {s t : State} {replies : List Reply} {reply : Reply} (h : Reported s replies)
    (hleaves : reply.Leaves s t) : Reported t (replies ++ [reply]) := by
  have hreturned := returned_append_singleton replies reply
  cases hfound : reply.found with
  | some w =>
      have hrefutes : Refutes w t := by
        cases reply <;> cases hfound <;> exact hleaves
      obtain ⟨hstatus, hwitness, hempty⟩ := hrefutes
      refine ⟨?_, fun v hv => ?_, ?_⟩
      · simp [hreturned, hfound, hwitness]
      · rw [hreturned, hfound, List.mem_append] at hv
        rcases hv with hv | hv
        · exact h.empty v hv
        · simp only [Option.toList_some, List.mem_singleton] at hv
          exact hv ▸ hempty
      · simp [standing_append_singleton, hfound, hstatus]
  | none =>
      have hsame : returned (replies ++ [reply]) = returned replies := by simp [hreturned, hfound]
      cases reply with
      | step found =>
          cases hfound
          obtain ⟨hstatus, hwitness⟩ := hleaves
          refine ⟨?_, hsame ▸ h.empty, ?_⟩
          · rw [hsame, hwitness, h.witness]
          · simp [standing_append_singleton, Reply.found, hstatus, h.status]
      | run found =>
          cases hfound
          obtain ⟨hstatus, hwitness⟩ := hleaves
          have hne : t.status ≠ .refuted := by
            rintro hrefuted
            simp [hrefuted] at hstatus
          refine ⟨?_, hsame ▸ h.empty, ?_⟩
          · rw [hsame, hwitness, h.witness]
          · simp [standing_append_singleton, Reply.found, hne]

/-- **How long a refutation is reported.**  After any calls, the witness is the contradiction that was
returned last, so it is never lost.  The status is `refuted` exactly if a contradiction was returned
and no run has ended without one since. -/
theorem refuted_iff_standing (schedule : Schedule) (settings : Settings) (names : NameSupply)
    (clauses : List Clause) {t : State} {replies : List Reply}
    (dialogue : Dialogue (State.start schedule settings names clauses) t replies) :
    (∀ w ∈ returned replies, w.literals = []) ∧ t.witness = (returned replies).getLast? ∧
      (t.status = .refuted ↔ Standing replies) := by
  suffices hreported : Reported t replies from
    ⟨hreported.empty, hreported.witness, hreported.status⟩
  induction dialogue with
  | start => exact ⟨rfl, by simp [returned], by simp [State.start, not_standing_nil]⟩
  | step _ call ih => exact ih.next (leaves_of_step call)
  | refused _ _ ih => exact ih
  | saturate _ call ih => exact ih.next (leaves_of_saturate call)

/-- Two contradictions and a clause between them. -/
def twoContradictions : List Clause :=
  [{ name := "first" }, { name := "between", literals := [⟨true, "p", []⟩] }, { name := "second" }]

/-- Selection by age alone. -/
def oldestFirst : Schedule := .start "fifo" [⟨1, .freshAge⟩]

/-- A run without result takes the verdict back, and a second contradiction renews it. -/
theorem renewed_refutation_stands :
    ∃ t v w, Dialogue (State.start oldestFirst {} {} twoContradictions) t
        [.step (some v), .run none, .step (some w)] ∧
      t.status = .refuted ∧ t.witness = some w ∧ w.name = "second" := by
  have hcalls : ((State.start oldestFirst {} {} twoContradictions).step.toOption.any fun r =>
      r.refutation.isSome && (r.state.saturate (some (.after (.finite 0))) (.steady (.finite 0))
        5).toOption.any fun run => run.refutation.isNone && run.state.step.toOption.any fun r' =>
          r'.refutation.any (·.name = "second")) = true := by decide +kernel
  obtain ⟨r, hr, hcalls⟩ := exists_ok_of_any hcalls
  obtain ⟨hfirst, hcalls⟩ := Bool.and_eq_true_iff.1 hcalls
  obtain ⟨run, hrun, hcalls⟩ := exists_ok_of_any hcalls
  obtain ⟨hquiet, hcalls⟩ := Bool.and_eq_true_iff.1 hcalls
  obtain ⟨r', hr', hsecond⟩ := exists_ok_of_any hcalls
  obtain ⟨v, hv⟩ := Option.isSome_iff_exists.1 hfirst
  obtain ⟨w, hw, hname⟩ := (Option.any_eq_true _ _).1 hsecond
  have hdialogue := ((Dialogue.start.step hr).saturate hrun).step hr'
  rw [hv, Option.isNone_iff_eq_none.1 hquiet, hw] at hdialogue
  obtain ⟨-, hwitness, hstatus⟩ := refuted_iff_standing _ _ _ _ hdialogue
  refine ⟨r'.state, v, w, hdialogue, hstatus.2 ?_, hwitness, of_decide_eq_true hname⟩
  exact ⟨[.step (some v), .run none], .step (some w), [], rfl, by simp [Reply.found], by simp⟩

/-- The clause without literals, as an input. -/
def falsumInput : List Clause := [{ name := "falsum" }]

/-- **A refutation is overwritten** by a run that ends for lack of clauses, and by one that ends for lack
of time.  After the first, the search reports that its input can be satisfied. -/
theorem refutation_overwritten :
    (∃ t w, Dialogue (State.start .standard {} {} falsumInput) t [.step (some w), .run none] ∧
      w.literals = [] ∧ w.name = "falsum" ∧ t.status = .saturated) ∧
    ∃ t w, Dialogue (State.start oldestFirst {} {} (twoContradictions.take 2)) t
        [.step (some w), .run none] ∧
      w.literals = [] ∧ t.status = .timedOut := by
  constructor
  · have hcalls : ((State.start .standard {} {} falsumInput).step.toOption.any fun r =>
        r.refutation.any (fun w => w.isEmpty && w.name = "falsum") &&
          (r.state.saturate none (.steady (.finite 0)) 0).toOption.any fun run =>
            decide (run.refutation = none ∧ run.state.status = .saturated)) = true := by
      decide +kernel
    obtain ⟨r, hr, hcalls⟩ := exists_ok_of_any hcalls
    obtain ⟨hfound, hcalls⟩ := Bool.and_eq_true_iff.1 hcalls
    obtain ⟨run, hrun, hend⟩ := exists_ok_of_any hcalls
    obtain ⟨w, hw, hfalsum⟩ := (Option.any_eq_true _ _).1 hfound
    obtain ⟨hliterals, hname⟩ := Bool.and_eq_true_iff.1 hfalsum
    obtain ⟨hnone, hsaturated⟩ := of_decide_eq_true hend
    have hdialogue := (Dialogue.start.step hr).saturate hrun
    rw [hw, hnone] at hdialogue
    exact ⟨run.state, w, hdialogue, List.isEmpty_iff.1 hliterals, of_decide_eq_true hname, hsaturated⟩
  · have hcalls : ((State.start oldestFirst {} {} (twoContradictions.take 2)).step.toOption.any fun r =>
        r.refutation.any (·.isEmpty) && (r.state.saturate (some (.after (.finite 0)))
          (.steady (.finite 0)) 5).toOption.any fun run =>
            decide (run.refutation = none ∧ run.state.status = .timedOut)) = true := by
      decide +kernel
    obtain ⟨r, hr, hcalls⟩ := exists_ok_of_any hcalls
    obtain ⟨hfound, hcalls⟩ := Bool.and_eq_true_iff.1 hcalls
    obtain ⟨run, hrun, hend⟩ := exists_ok_of_any hcalls
    obtain ⟨w, hw, hliterals⟩ := (Option.any_eq_true _ _).1 hfound
    obtain ⟨hnone, htimedOut⟩ := of_decide_eq_true hend
    have hdialogue := (Dialogue.start.step hr).saturate hrun
    rw [hw, hnone] at hdialogue
    exact ⟨run.state, w, hdialogue, List.isEmpty_iff.1 hliterals, htimedOut⟩

end GivenClause.Search
