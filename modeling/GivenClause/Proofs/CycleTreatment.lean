import Mathlib
import GivenClause.Proofs.RefutationSoundness

/-!
# What the treatment of cycles can change

**The two loops.**  Without the occurs check, `pursue` binds a variable without looking at the term it
meets; with it, `solve` looks first.  Up to the first cycle they make the same bindings, and there are
at most as many of them as there are variables (`exists_pursue_eq`).  So whatever the checked loop
finds, the other one finds too, with the same bindings in the same order (`pursue_of_unified`).

**Indifference.**  Where no cycle can come up between the clauses of a search, all treatments of cycles
lead to the same conclusions, hence to the same steps (`Indifferent.step_checking`).  With the check
every unification settles, so such a search never fails for want of an answer
(`Indifferent.exists_step`), and its refutations are sound (`Indifferent.unsatisfiable`).
-/

universe u

namespace GivenClause

namespace Unification

/-! ## The two loops -/

/-- What an outcome comes to if cycles are followed. -/
def Outcome.follow (budget : ℕ) : Outcome → Except Unsettled (Option Substitution)
  | .unified s => .ok (some s)
  | .clash => .ok none
  | .cyclic s x t rest => pursue budget (s.compose x t) (eliminate x t rest)

lemma unifyEquations_follow (budget : ℕ) (eqs : List Equation) :
    unifyEquations (.follow budget) eqs = (solve .empty eqs).follow budget := by
  rw [unifyEquations]
  cases solve .empty eqs <;> rfl

lemma pursue_of_solved {eqs : List Equation} (h : reduce eqs = .solved) (budget : ℕ)
    (s : Substitution) : pursue budget s eqs = .ok (some s) := by
  cases budget <;> rw [pursue, h]

lemma pursue_of_clash {eqs : List Equation} (h : reduce eqs = .clash) (budget : ℕ)
    (s : Substitution) : pursue budget s eqs = .ok none := by
  cases budget <;> rw [pursue, h]

lemma pursue_of_bind {eqs rest : List Equation} {x : String} {t : Term}
    (h : reduce eqs = .bind x t rest) (budget : ℕ) (s : Substitution) :
    pursue (budget + 1) s eqs = pursue budget (s.compose x t) (eliminate x t rest) := by
  rw [pursue, h]

/-- **The two loops keep step** up to the first cycle, for at most as many rounds as there are
variables. -/
theorem exists_pursue_eq (s : Substitution) (eqs : List Equation) :
    ∃ rounds ≤ (vars eqs).eraseDups.length, ∀ budget,
      pursue (rounds + budget) s eqs = (solve s eqs).follow budget := by
  fun_induction solve s eqs with
  | case1 s eqs hreduce => exact ⟨0, Nat.zero_le _, fun budget => pursue_of_solved hreduce _ s⟩
  | case2 s eqs hreduce => exact ⟨0, Nat.zero_le _, fun budget => pursue_of_clash hreduce _ s⟩
  | case3 s eqs x t rest hreduce hoccurs =>
      -- the binding that closes the cycle is the last one in common
      have hx : x ∈ (vars eqs).eraseDups := List.mem_eraseDups.2 (vars_of_reduce hreduce).1
      refine ⟨1, List.length_pos_of_mem hx, fun budget => ?_⟩
      rw [Nat.add_comm, pursue_of_bind hreduce]
      rfl
  | case4 s eqs x t rest hreduce hoccurs ih =>
      -- one round more, for a variable that is gone afterwards
      obtain ⟨rounds, hrounds, hpursue⟩ := ih
      obtain ⟨hx, ht, hrest⟩ := vars_of_reduce hreduce
      have hlt := length_eraseDups_lt hx fun y hy =>
        (vars_eliminate hoccurs hy).imp_right (Or.elim · (fun h => ht h) fun h => hrest h)
      refine ⟨rounds + 1, by omega, fun budget => ?_⟩
      rw [Nat.add_right_comm, pursue_of_bind hreduce, hpursue]

lemma solve_of_unifyEquations {eqs : List Equation} {σ : Substitution}
    (h : unifyEquations .reject eqs = .ok (some σ)) : solve .empty eqs = .unified σ := by
  rw [unifyEquations] at h
  cases hsolve : solve .empty eqs <;> simp_all

lemma unifyEquations_follow_of_reject {eqs : List Equation} {σ : Substitution}
    (h : unifyEquations .reject eqs = .ok (some σ)) (budget : ℕ) :
    unifyEquations (.follow budget) eqs = .ok (some σ) := by
  rw [unifyEquations_follow, solve_of_unifyEquations h]
  rfl

/-- **What the checked loop finds, the unchecked loop finds**, within as many bindings as there are
variables. -/
theorem pursue_of_unified {eqs : List Equation} {σ : Substitution} {budget : ℕ}
    (h : unifyEquations .reject eqs = .ok (some σ))
    (hbudget : (vars eqs).eraseDups.length ≤ budget) :
    pursue budget .empty eqs = .ok (some σ) := by
  obtain ⟨rounds, hrounds, hpursue⟩ := exists_pursue_eq .empty eqs
  obtain ⟨more, rfl⟩ := Nat.exists_eq_add_of_le (hrounds.trans hbudget)
  rw [hpursue, solve_of_unifyEquations h]
  rfl

end Unification

open Unification

lemma unifyLists_eq_some {cycles : Cycles} {ss ts : List Term} {σ : Substitution}
    (h : unifyLists cycles ss ts = .ok (some σ)) :
    ss.length = ts.length ∧ unifyEquations cycles (argumentEquations ss ts) = .ok (some σ) := by
  rw [unifyLists] at h
  split_ifs at h with hlength
  · exact ⟨hlength, h⟩
  · cases h

/-- Lists with a unifier are unified, in the same way however cycles are treated. -/
lemma unifyLists_of_unifier {ss ts : List Term} (hlength : ss.length = ts.length)
    {u : String → Term} (hu : ss.map (Term.bind u) = ts.map (Term.bind u)) :
    ∃ σ, ∀ cycles, unifyLists cycles ss ts = .ok (some σ) := by
  obtain ⟨σ, hσ⟩ := unifyEquations_of_unifies ((unifies_argumentEquations u hlength).2 hu)
  exact ⟨σ, fun cycles => by rw [unifyLists, if_pos hlength, hσ]⟩

/-! ## With the check every rule settles -/

lemma exists_unifyEquations_reject (eqs : List Equation) :
    ∃ o, unifyEquations .reject eqs = .ok o := by
  rw [unifyEquations]
  cases solve .empty eqs <;> exact ⟨_, rfl⟩

lemma exists_unify_reject (a b : Term) : ∃ o, unify .reject a b = .ok o :=
  exists_unifyEquations_reject [(a, b)]

lemma exists_factor_reject (c : Clause) (i j : ℕ) : ∃ o, factor .reject c i j = .ok o := by
  rw [factor]
  split
  · rename_i l m hl hm
    obtain ⟨o, ho⟩ := exists_unify_reject l.atom m.atom
    rw [factorOn, ho]
    split_ifs <;> exact ⟨_, rfl⟩
  · exact ⟨none, rfl⟩

lemma exists_resolve_reject (c d : Clause) (i j : ℕ) : ∃ o, resolve .reject c i d j = .ok o := by
  rw [resolve]
  split
  · rename_i l m hl hm
    obtain ⟨o, ho⟩ := exists_unify_reject l.atom m.atom
    rw [resolveOn, ho]
    split_ifs <;> exact ⟨_, rfl⟩
  · exact ⟨none, rfl⟩

lemma exists_allFactors_reject (names : NameSupply) (c : Clause) :
    ∃ result, allFactors .reject names c = .ok result := by
  obtain ⟨found, hfound⟩ := @exists_mapM_ok _ _ _
    (fun p : ℕ × ℕ => factor .reject c p.1 p.2 >>= fun r => pure ([c.name], r))
    (positionPairs c.literals.length) fun p => by
      obtain ⟨o, ho⟩ := exists_factor_reject c p.1 p.2
      exact ⟨_, by rw [ho]; rfl⟩
  refine ⟨nameConclusions names found, ?_⟩
  rw [allFactors]
  erw [hfound]
  rfl

lemma exists_allResolvents_reject (names : NameSupply) (c : Clause) (members : List Clause) :
    ∃ result, allResolvents .reject names c members = .ok result := by
  obtain ⟨found, hfound⟩ := @exists_mapM_ok _ _ _
    (fun p : ℕ × Clause × ℕ =>
      resolve .reject c p.1 p.2.1 p.2.2 >>= fun r => pure ([c.name, p.2.1.name], r))
    (c.literals.zipIdx.flatMap fun p =>
      (ClauseSet.resolutionCandidates p.1 members).map fun q => (p.2, q.1, q.2)) fun p => by
      obtain ⟨o, ho⟩ := exists_resolve_reject c p.2.1 p.1 p.2.2
      exact ⟨_, by rw [ho]; rfl⟩
  refine ⟨nameConclusions names found, ?_⟩
  rw [allResolvents]
  erw [hfound]
  rfl

/-! ## Indifference -/

/-- Between clauses with the property `Q`, unification does not depend on the treatment of cycles. -/
def Indifferent (Q : List Literal → Prop) : Prop :=
  ∀ ⦃ls ms : List Literal⦄, Q ls → Q ms → ∀ l ∈ ls, ∀ m ∈ ms, ∀ cycles,
    unify cycles l.atom m.atom = unify .reject l.atom m.atom

namespace Indifferent

variable {P Q : List Literal → Prop} {c d : Clause} {members : List Clause}

lemma mono (h : Indifferent Q) (hle : ∀ {ls}, P ls → Q ls) : Indifferent P :=
  fun _ _ hls hms => h (hle hls) (hle hms)

lemma factor_eq (h : Indifferent Q) (hc : Q c.literals) (cycles : Cycles) (i j : ℕ) :
    factor cycles c i j = factor .reject c i j := by
  rw [factor, factor]
  split
  · rename_i l m hl hm
    rw [factorOn, factorOn, h hc hc l (List.mem_of_getElem? hl) m (List.mem_of_getElem? hm) cycles]
  · rfl

lemma resolve_eq (h : Indifferent Q) (hc : Q c.literals) (hd : Q d.literals) (cycles : Cycles)
    (i j : ℕ) : resolve cycles c i d j = resolve .reject c i d j := by
  rw [resolve, resolve]
  split
  · rename_i l m hl hm
    rw [resolveOn, resolveOn, h hc hd l (List.mem_of_getElem? hl) m (List.mem_of_getElem? hm) cycles]
  · rfl

lemma allFactors_eq (h : Indifferent Q) (hc : Q c.literals) (cycles : Cycles)
    (names : NameSupply) : allFactors cycles names c = allFactors .reject names c := by
  rw [allFactors, allFactors]
  simp only [h.factor_eq hc cycles]

lemma allResolvents_eq (h : Indifferent Q) (hc : Q c.literals)
    (hmembers : ∀ d ∈ members, Q d.literals) (cycles : Cycles) (names : NameSupply) :
    allResolvents cycles names c members = allResolvents .reject names c members := by
  rw [allResolvents, allResolvents]
  refine congrArg (· >>= _) (mapM_congr fun p hp => ?_)
  simp only [List.mem_flatMap, List.mem_map] at hp
  obtain ⟨q, -, ⟨d, k⟩, hd, rfl⟩ := hp
  show (resolve cycles c q.2 d k >>= _) = _
  rw [h.resolve_eq hc (hmembers d (mem_resolutionCandidates.1 hd).1)]

end Indifferent

namespace Search

/-! ## Steps -/

/-- The search with the occurs check switched on or off. -/
def State.checking (s : State) (check : Bool) : State :=
  { s with settings := s.settings.set check .occursCheck }

/-- The step with the occurs check switched on or off behind it. -/
def Step.checking (r : Step) (check : Bool) : Step := { r with state := r.state.checking check }

/-- Without the occurs check the search is always where it would be with it, the switch aside, and
does not get stuck. -/
structure Lockstep (unchecked checked : State) : Prop where
  states : ∀ n, unchecked.after n = (checked.after n).checking false
  steps : ∀ n, (unchecked.after n).step = (checked.after n).step.map fun r => r.checking false
  progress : ∀ n, (unchecked.after n).unprocessed.isEmpty = false →
    ∃ r, (unchecked.after n).step = .ok r

/-- A step leaves settings and time as they are, and the verdict unless it refutes. -/
lemma under_of_step {s : State} {r : Step} (h : s.step = .ok r) :
    r.under s.settings s.status s.elapsed = r := by
  have hunder := step_under_settings s s.status s.elapsed
  have hself : s.under s.settings s.status s.elapsed = s := rfl
  rw [hself, h] at hunder
  exact (Except.ok.inj hunder).symm

lemma exists_process_of_check {s : State} (check : s.settings.occursCheck = true) (given : Clause) :
    ∃ r, s.process given = .ok r := by
  rw [State.process, clear_eq s given]
  split_ifs
  · exact ⟨_, rfl⟩
  · exact ⟨_, rfl⟩
  · exact ⟨_, rfl⟩
  · obtain ⟨⟨factors, names⟩, hfactors⟩ := exists_allFactors_reject s.names given
    obtain ⟨⟨resolvents, names'⟩, hresolvents⟩ :=
      exists_allResolvents_reject names given (s.kept given)
    simp only [State.infer, State.cleared, Settings.cycles_of_occursCheck check, hfactors,
      hresolvents, bind, Except.bind, pure, Except.pure]
    exact ⟨_, rfl⟩

/-- **With the check a step succeeds** if there is a clause to select. -/
theorem exists_step_of_check {s : State} (check : s.settings.occursCheck = true)
    (hne : s.unprocessed.isEmpty = false) : ∃ r, s.step = .ok r := by
  rw [State.step]
  cases hqueue : s.unprocessed.extractBest with
  | none =>
      rw [Queue.extractBest_eq_none_iff.1 hqueue] at hne
      cases hne
  | some selection =>
      obtain ⟨chosen, queue⟩ := selection
      exact exists_process_of_check (s := { s with
        unprocessed := queue, names := (chosen.freshCopy s.names).2 }) check _

end Search

namespace Indifferent

open Search

variable {Q : List Literal → Prop} {s : State}

lemma sameUse (h : Indifferent Q) {given : Clause} (hgiven : Q given.literals)
    (hprocessed : ∀ c ∈ s.processed, Q c.literals) (check : Bool) :
    SameUse s given (s.settings.set check .occursCheck) where
  tautologies := rfl
  forward := rfl
  backward := rfl
  factors := fun names => (h.allFactors_eq hgiven _ names).trans (h.allFactors_eq hgiven _ names).symm
  resolvents := fun names =>
    have hkept : ∀ d ∈ s.kept given, Q d.literals := fun d hd => hprocessed d (kept_subset s given hd)
    (h.allResolvents_eq hgiven hkept _ names).trans (h.allResolvents_eq hgiven hkept _ names).symm

/-- **Indifferent clauses make the same step** with the occurs check and without. -/
theorem step_checking (h : Indifferent Q) (hs : Everywhere Q s)
    (copy : ∀ {ls ms : List Literal}, Variant ls ms → Q ls → Q ms) (check : Bool) :
    (s.checking check).step = s.step.map fun r => r.checking check := by
  have huse : ∀ {chosen given s'}, Selects s chosen given s' →
      SameUse s' given (s.settings.set check .occursCheck) := by
    intro chosen given s' hselect
    obtain ⟨hs', hgiven⟩ := hs.select copy hselect
    rw [← hselect.settings_eq]
    exact h.sameUse hgiven hs'.2 check
  have hunder := step_under huse s.status s.elapsed
  have hself : s.under (s.settings.set check .occursCheck) s.status s.elapsed = s.checking check := rfl
  rw [hself] at hunder
  rw [hunder]
  cases hstep : s.step with
  | error e => rfl
  | ok r =>
      have hr := under_of_step hstep
      refine congrArg Except.ok ?_
      rw [← hr]
      rfl

/-- Among indifferent clauses a step succeeds if there is a clause to select. -/
theorem exists_step (h : Indifferent Q) (hs : Everywhere Q s)
    (copy : ∀ {ls ms : List Literal}, Variant ls ms → Q ls → Q ms)
    (hne : s.unprocessed.isEmpty = false) : ∃ r, s.step = .ok r := by
  obtain ⟨r, hr⟩ := exists_step_of_check (s := s.checking true) rfl hne
  rw [h.step_checking hs copy] at hr
  cases hstep : s.step with
  | error e =>
      rw [hstep] at hr
      cases hr
  | ok r => exact ⟨r, rfl⟩

/-! ## Runs and sessions -/

/-- **Indifferent clauses make the same run** with the occurs check and without. -/
theorem after_checking (h : Indifferent Q) (hQ : ∀ cycles, Inherited cycles Q)
    (hs : Everywhere Q s) (check : Bool) (n : ℕ) :
    (s.checking check).after n = (s.after n).checking check ∧ Everywhere Q (s.after n) := by
  induction n with
  | zero => exact ⟨rfl, hs⟩
  | succ n ih =>
      obtain ⟨hafter, hn⟩ := ih
      have hstep := h.step_checking hn (hQ .reject).copy check
      rw [← hafter] at hstep
      cases hr : (s.after n).step with
      | error e =>
          rw [hr] at hstep
          rw [after_succ_of_refused hr, after_succ_of_refused hstep]
          exact ⟨hafter, hn⟩
      | ok r =>
          rw [hr] at hstep
          rw [after_succ_of_step hr, after_succ_of_step hstep]
          exact ⟨rfl, (hn.transition (hQ _) (step_transition hr)).1⟩

/-- **Among indifferent clauses the occurs check makes no difference.** -/
theorem lockstep (h : Indifferent Q) (hQ : ∀ cycles, Inherited cycles Q) (hs : Everywhere Q s) :
    Lockstep (s.checking false) s where
  states := fun n => (h.after_checking hQ hs false n).1
  steps := by
    intro n
    obtain ⟨hafter, hn⟩ := h.after_checking hQ hs false n
    rw [hafter]
    exact h.step_checking hn (hQ .reject).copy false
  progress := by
    intro n hne
    obtain ⟨hafter, hn⟩ := h.after_checking hQ hs false n
    rw [hafter] at hne ⊢
    exact h.exists_step hn (hQ .reject).copy hne

/-- Among indifferent clauses validity is inherited however cycles are treated. -/
theorem inherited_validates (h : Indifferent Q) {cycles : Cycles} (hQ : Inherited cycles Q)
    {D : Type u} (I : Interpretation D) :
    Inherited cycles fun ls => Q ls ∧ I.Validates ls where
  copy := fun hvariant hls =>
    ⟨hQ.copy hvariant hls.1, (Search.inherited_validates I).copy hvariant hls.2⟩
  factor := by
    intro c r i j hij hc hr
    refine ⟨hQ.factor hij hc.1 hr, ?_⟩
    rw [h.factor_eq hc.1] at hr
    exact (Search.inherited_validates I).factor hij hc.2 hr
  resolve := by
    intro c d r i j hc hd hr
    refine ⟨hQ.resolve hc.1 hd.1 hr, ?_⟩
    rw [h.resolve_eq hc.1 hd.1] at hr
    exact (Search.inherited_validates I).resolve hc.2 hd.2 hr

/-- **Among indifferent clauses every refutation is sound**, also without the occurs check. -/
theorem unsatisfiable (h : Indifferent Q) (hQ : ∀ cycles, Inherited cycles Q)
    {schedule : Schedule} {settings : Settings} {names : NameSupply} {clauses : List Clause}
    (hclauses : ∀ c ∈ clauses, Q c.literals) {t : State} {returned : List Clause}
    (session : Session (State.start schedule settings names clauses) t returned) {c : Clause}
    (found : c ∈ returned) : ¬ Satisfiable.{u} clauses := by
  rintro ⟨D, I, hD, hmodel⟩
  have hinherited : ∀ cycles, Inherited cycles fun ls => Q ls ∧ I.Validates ls :=
    fun cycles => h.inherited_validates (hQ cycles) I
  have hinvariant := session.invariant (P := Everywhere fun ls => Q ls ∧ I.Validates ls)
    (fun hs ht => (hs.transition (hinherited _) ht).1) (fun _ _ hs => hs)
    (everywhere_start schedule settings names fun c hc => ⟨hclauses c hc, hmodel c hc⟩)
  obtain ⟨u, v, hvalid, htransition⟩ := hinvariant.2 c found
  have hc := ((hvalid.transition (hinherited _) htransition).2 c rfl).2
  cases htransition with
  | refuted select empty => exact hc.ne_nil empty

end Indifferent

end GivenClause
