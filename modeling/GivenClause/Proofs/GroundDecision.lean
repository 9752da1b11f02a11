import Mathlib
import GivenClause.Proofs.Completeness
import GivenClause.Proofs.GroundClauses

/-!
# Ground problems are decided

With forward subsumption the search decides ground problems: it ends, refuted if the clauses are
propositionally unsatisfiable and saturated if they are not.

**It ends.**  All clauses are made of the literals of the input and are not longer than their number,
so what a clause can subsume is one of finitely many pairs of a set of literals and a length.  A
clause that is used was not subsumed, so a new pair is subsumed from then on, and none is given up:
a processed clause only goes if another one subsumes it.  Steps that drop the selected clause leave
the pairs alone and shorten the queue (`distance_lt`).

**It is right.**  That a refutation is a proof is the soundness of the rules, which among ground
clauses does not need the occurs check.  That saturation means a model is `satisfiable_of_quiet_end`.
-/

namespace GivenClause

/-- Some assignment of truth values to atoms makes a literal of every clause true. -/
def PropositionallySatisfiable (clauses : List Clause) : Prop :=
  ∃ v : Term → Bool, ∀ c ∈ clauses, ∃ l ∈ c.literals, v l.atom = l.positive

/-- A ground clause is valid over terms if one of its literals is true. -/
lemma validates_herbrand_of_ground {v : Term → Bool} {ls : List Literal} (h : Ground ls) :
    (herbrand {a | v a = true}).Validates ls ↔ ∃ l ∈ ls, v l.atom = l.positive := by
  have hliteral : ∀ l : Literal,
      ¬ (l.atom ∈ {a | v a = true} ↔ l.positive = false) ↔ v l.atom = l.positive := by
    intro l
    rw [Set.mem_ofPred_eq]
    cases v l.atom <;> cases l.positive <;> simp
  simp only [validates_herbrand, h.bindAll_eq, Falsified, not_forall, exists_prop, hliteral,
    forall_const]

/-- Among ground clauses, truth values are all that matters about a model over terms. -/
lemma propositionallySatisfiable_iff {clauses : List Clause}
    (ground : ∀ c ∈ clauses, Ground c.literals) :
    PropositionallySatisfiable clauses ↔
      ∃ A, ∀ c ∈ clauses, (herbrand A).Validates c.literals := by
  classical
  constructor
  · rintro ⟨v, hv⟩
    exact ⟨{a | v a = true}, fun c hc => (validates_herbrand_of_ground (ground c hc)).2 (hv c hc)⟩
  · rintro ⟨A, hA⟩
    refine ⟨fun a => decide (a ∈ A), fun c hc => ?_⟩
    refine (validates_herbrand_of_ground (v := fun a => decide (a ∈ A)) (ground c hc)).1 ?_
    simpa using hA c hc

namespace Search

open Relation

/-! ## Termination -/

section Termination

variable {given : List Literal}

/-- The sets of literals and lengths that no processed clause accounts for. -/
def unclaimed (given : List Literal) (processed : List Clause) : Finset (Finset Literal × ℕ) :=
  (given.toFinset.powerset ×ˢ Finset.range (given.length + 1)).filter fun p =>
    ∀ d ∈ processed, ¬ (d.literals.toFinset ⊆ p.1 ∧ d.literals.length ≤ p.2)

lemma mem_unclaimed {processed : List Clause} {p : Finset Literal × ℕ} :
    p ∈ unclaimed given processed ↔ (p.1 ⊆ given.toFinset ∧ p.2 ≤ given.length) ∧
      ∀ d ∈ processed, ¬ (d.literals.toFinset ⊆ p.1 ∧ d.literals.length ≤ p.2) := by
  rw [unclaimed, Finset.mem_filter, Finset.mem_product, Finset.mem_powerset, Finset.mem_range,
    Nat.lt_succ_iff]

/-- If the processed clauses are replaced by ones that subsume them and another that none of them
subsumes, less is unclaimed. -/
lemma unclaimed_ssubset {before after : List Clause} {c : Clause} (hc : Within given c.literals)
    (hground : Ground given) (hbefore : ∀ d ∈ before, Within given d.literals)
    (hafter : ∀ d ∈ after, Within given d.literals) (hcafter : c ∈ after)
    (hold : ∀ d ∈ before, ∃ e ∈ after, Subsumes e.literals d.literals)
    (hnew : ∀ d ∈ before, ¬ Subsumes d.literals c.literals) :
    unclaimed given after ⊂ unclaimed given before := by
  refine (Finset.ssubset_iff_of_subset fun p hp => ?_).2
    ⟨(c.literals.toFinset, c.literals.length), ?_, fun hp => ?_⟩
  · obtain ⟨hbounds, hp⟩ := mem_unclaimed.1 hp
    refine mem_unclaimed.2 ⟨hbounds, fun d hd hclaims => ?_⟩
    obtain ⟨e, he, hsub⟩ := hold d hd
    rw [subsumes_iff_of_ground (hground.mono (hafter e he).1)] at hsub
    refine hp e he ⟨fun l hl => hclaims.1 ?_, hsub.1.trans hclaims.2⟩
    exact List.mem_toFinset.2 (hsub.2 (List.mem_toFinset.1 hl))
  · refine mem_unclaimed.2 ⟨⟨fun l hl => ?_, hc.2⟩, fun d hd hclaims => hnew d hd ?_⟩
    · exact List.mem_toFinset.2 (hc.1 (List.mem_toFinset.1 hl))
    · rw [subsumes_iff_of_ground (hground.mono (hbefore d hd).1)]
      refine ⟨hclaims.2, fun l hl => ?_⟩
      exact List.mem_toFinset.1 (hclaims.1 (List.mem_toFinset.2 hl))
  · exact (mem_unclaimed.1 hp).2 c hcafter ⟨Finset.Subset.refl _, le_refl _⟩

/-- How far a search is from its end: first what is unclaimed, then what waits. -/
def distance (given : List Literal) (s : State) : ℕ ×ₗ ℕ :=
  toLex ((unclaimed given s.processed).card, s.unprocessed.items.length)

/-- Dropping the selected clause shortens the queue. -/
lemma distance_lt_of_dropped {s s' : State} {chosen copy : Clause}
    (select : Selects s chosen copy s') : distance given s' < distance given s := by
  rw [distance, distance, select.processed_eq, Prod.Lex.toLex_lt_toLex]
  refine Or.inr ⟨rfl, ?_⟩
  have hlength := select.items_perm.length_eq
  rw [List.length_cons] at hlength
  show s'.unprocessed.items.length < s.unprocessed.items.length
  omega

/-- **Every quiet step comes closer to the end.** -/
theorem distance_lt {s t : State} (hground : Ground given) (h : Everywhere (Within given) s)
    (switch : s.settings.forwardSubsumption = true) (ht : Transition s t none) :
    distance given t < distance given s := by
  cases ht with
  | @tautology chosen copy s' select =>
      have hlt : distance given s' < distance given s := distance_lt_of_dropped select
      exact hlt
  | @subsumed chosen copy subsumer s' select =>
      have hlt : distance given s' < distance given s := distance_lt_of_dropped select
      exact hlt
  | @inferred chosen copy s' factors resolvents names names' select _ _ new _ _ =>
      obtain ⟨hs', hcopy⟩ := h.select (inherited_within s.settings.cycles hground).copy select
      rw [distance, distance, Prod.Lex.toLex_lt_toLex, ← select.processed_eq]
      refine Or.inl (Finset.card_lt_card ?_)
      have hmem : copy ∈ s'.kept copy ++ [copy] := by simp
      refine unclaimed_ssubset hcopy hground hs'.2 (fun d hd => ?_) hmem
        (fun d hd => exists_subsumer s' copy hd) (new (select.settings_eq ▸ switch))
      rcases List.mem_append.1 hd with hd | hd
      · exact hs'.2 d (kept_subset s' copy hd)
      · rw [List.mem_singleton.1 hd]
        exact hcopy

/-- A run over ground clauses with forward subsumption ends. -/
theorem ground_run_ends (hground : Ground given) {s : State} (h : Everywhere (Within given) s)
    (switch : s.settings.forwardSubsumption = true) (clock : Clock) :
    ∃ bound run, ∀ steps, bound ≤ steps → s.saturate none clock steps = .ok run := by
  obtain ⟨bound, run, hrun⟩ := runFrom_ends (distance given)
    (P := fun s => s.settings.forwardSubsumption = true ∧ Everywhere (Within given) s)
    (fun {s} hs => exists_step_of_ground
      ⟨fun c hc => hground.mono (hs.2.1 c hc).1, fun c hc => hground.mono (hs.2.2 c hc).1⟩)
    (fun {s t} hs ht => ⟨⟨ht.settings_eq ▸ hs.1,
      (hs.2.transition (inherited_within _ hground) ht).1⟩, distance_lt hground hs.2 hs.1 ht⟩)
    clock.read.1 clock.read.2 [] ⟨switch, h⟩
  exact ⟨bound, saturate_of_runFrom hrun⟩

end Termination

/-! ## The verdict -/

/-- All literals of the input bound each of its clauses. -/
lemma within_input {clauses : List Clause} {c : Clause} (hc : c ∈ clauses) :
    Within (clauses.flatMap Clause.literals) c.literals := by
  have hsub : c.literals.Sublist (clauses.flatMap Clause.literals) := by
    have h := (List.singleton_sublist.2 hc).map Clause.literals
    simpa [List.flatMap] using h.flatten
  exact ⟨hsub.subset, hsub.length_le⟩

lemma ground_input {clauses : List Clause} (ground : ∀ c ∈ clauses, Ground c.literals) :
    Ground (clauses.flatMap Clause.literals) := by
  rw [Ground, varsOf, List.flatMap_assoc]
  exact List.flatMap_eq_nil_iff.2 ground

/-- A ground search that has come quietly to a refutation had no model to begin with. -/
lemma unsatisfiable_of_quiet_refutation {schedule : Schedule} {settings : Settings}
    {names : NameSupply} {clauses : List Clause} (ground : ∀ c ∈ clauses, Ground c.literals)
    {t u : State} {w : Clause}
    (h : ReflTransGen QuietlyTo (State.start schedule settings names clauses) t)
    (ht : Transition t u (some w)) : ¬ PropositionallySatisfiable clauses := by
  rw [propositionallySatisfiable_iff ground]
  rintro ⟨A, hA⟩
  have hinput := ground_input ground
  have hvalid := quiet_invariant
    (P := Everywhere fun ls =>
      Within (clauses.flatMap Clause.literals) ls ∧ (herbrand A).Validates ls)
    (fun hs ht => (hs.transition (inherited_valid_within _ hinput _) ht).1)
    (everywhere_start schedule settings names fun c hc => ⟨within_input hc, hA c hc⟩) h
  have hw := ((hvalid.transition (inherited_valid_within _ hinput _) ht).2 w rfl).2
  have : Nonempty Term := ⟨.var ""⟩
  cases ht with
  | refuted select empty => exact hw.ne_nil empty

/-- **Ground problems are decided.**  With forward subsumption, a run without a time limit over ground
clauses ends after finitely many steps, refuted just if the clauses are propositionally
unsatisfiable, and saturated just if they are satisfiable. -/
theorem ground_decided (schedule : Schedule) (settings : Settings) (names : NameSupply)
    (clauses : List Clause) (clock : Clock) (ground : ∀ c ∈ clauses, Ground c.literals)
    (switch : settings.forwardSubsumption = true) :
    ∃ bound run,
      (∀ steps, bound ≤ steps →
        (State.start schedule settings names clauses).saturate none clock steps = .ok run) ∧
      (run.state.status = .refuted ↔ ¬ PropositionallySatisfiable clauses) ∧
      (run.state.status = .saturated ↔ PropositionallySatisfiable clauses) := by
  have hinput := ground_input ground
  obtain ⟨bound, run, hrun⟩ := ground_run_ends hinput
    (everywhere_start schedule settings names fun c hc => within_input hc) switch clock
  refine ⟨bound, run, hrun, ?_⟩
  obtain ⟨t, hquiet, hend⟩ := saturate_cases (hrun bound le_rfl)
  generalize run.state = last at hend ⊢
  generalize run.refutation = found at hend
  cases hend with
  | saturated empty =>
      have hsat := (propositionallySatisfiable_iff ground).2 (satisfiable_of_quiet_end hquiet empty)
      simp [hsat]
  | refuted step found =>
      have htransition := step_transition step
      rw [found] at htransition
      have hunsat := unsatisfiable_of_quiet_refutation ground hquiet htransition
      have hstatus := htransition.status_refuted
      simp [hunsat, hstatus]
  | timedOut limited => exact absurd rfl limited

/-- A contradictory chain of implications, written with repeated literals. -/
def repeatedChain : List Clause :=
  [{ literals := [⟨true, "p", []⟩, ⟨true, "p", []⟩] },
   { literals := [⟨false, "p", []⟩, ⟨true, "q", []⟩, ⟨true, "q", []⟩] },
   { literals := [⟨false, "q", []⟩, ⟨false, "p", []⟩, ⟨false, "q", []⟩] }]

theorem repeatedChain_refuted :
    (∀ c ∈ repeatedChain, Ground c.literals) ∧ ∃ bound run, (∀ steps, bound ≤ steps →
      (State.start .standard { forwardSubsumption := true } {} repeatedChain).saturate none
        (.steady (.finite 0)) steps = .ok run) ∧ run.state.status = .refuted := by
  have hground : ∀ c ∈ repeatedChain, Ground c.literals := by decide +kernel
  have hunsat : ¬ PropositionallySatisfiable repeatedChain := by
    rintro ⟨v, hv⟩
    simp only [repeatedChain, List.forall_mem_cons] at hv
    simp [Literal.atom] at hv
    grind
  obtain ⟨bound, run, hrun, hrefuted, -⟩ :=
    ground_decided .standard { forwardSubsumption := true } {} repeatedChain
      (.steady (.finite 0)) hground rfl
  exact ⟨hground, bound, run, hrun, hrefuted.2 hunsat⟩

end Search

end GivenClause
