import Mathlib
import GivenClause.Proofs.CycleTreatment

/-!
# Search among function-free clauses

In a function-free clause every argument of an atom is a variable or a constant, `Term.Flat`.  When
two such atoms are unified, only flat terms are ever compared, so a variable is only ever bound to
another variable or to a constant.  Neither contains it: a cycle cannot come up
(`indifferent_functionFree`).

The bindings being flat, conclusions are function-free again (`inherited_functionFree`).  So the
search goes the same way with the occurs check and without it.
-/

universe u

namespace GivenClause

/-! ## Flat terms -/

/-- A variable or a constant. -/
def Term.Flat (t : Term) : Prop := t.isCompound = false

instance (t : Term) : Decidable t.Flat := inferInstanceAs (Decidable (t.isCompound = false))

namespace Term

@[simp] lemma flat_var (x : String) : (var x).Flat := rfl

@[simp] lemma flat_app_iff {f : String} {args : List Term} : (app f args).Flat ↔ args = [] := by
  simp [Flat, isCompound]

/-- Flat terms stay flat if variables become flat terms. -/
lemma Flat.bind {t : Term} {θ : String → Term} (h : t.Flat) (hθ : ∀ x, (θ x).Flat) :
    (t.bind θ).Flat := by
  cases t with
  | var x => exact hθ x
  | app f args => simp_all

lemma Flat.replace {t u : Term} (h : u.Flat) (ht : t.Flat) (x : String) : (u.replace x t).Flat := by
  refine h.bind fun y => ?_
  split_ifs
  · exact ht
  · rfl

/-- A variable occurs in no flat term but itself. -/
lemma Flat.notMem_vars {t : Term} {x : String} (h : t.Flat) (hne : t ≠ .var x) : x ∉ t.vars := by
  cases t with
  | var y => simpa [eq_comm] using hne
  | app f args => simp_all

end Term

namespace Unification

/-- Equations between flat terms. -/
def FlatEquations (eqs : List Equation) : Prop := ∀ e ∈ eqs, e.1.Flat ∧ e.2.Flat

/-- A variable that has to become a flat term, with flat equations left over; or no variable at
all. -/
def Reduced.Flat : Reduced → Prop
  | .bind _ t rest => t.Flat ∧ FlatEquations rest
  | _ => True

lemma reduce_flat {eqs : List Equation} (h : FlatEquations eqs) : (reduce eqs).Flat := by
  fun_induction reduce eqs with
  | case1 => trivial
  | case2 t rest ih => exact ih fun e he => h e (List.mem_cons_of_mem _ he)
  | case3 rest x t hne =>
      exact ⟨(h _ List.mem_cons_self).2, fun e he => h e (List.mem_cons_of_mem _ he)⟩
  | case4 rest f ss y hne =>
      exact ⟨(h _ List.mem_cons_self).1, fun e he => h e (List.mem_cons_of_mem _ he)⟩
  | case5 rest f ss g ts hne heq ih =>
      -- two constants: they have no arguments to compare
      obtain rfl : ss = [] := Term.flat_app_iff.1 (h _ List.mem_cons_self).1
      exact ih fun e he => h e (List.mem_cons_of_mem _ he)
  | case6 => trivial

/-- Atoms over flat terms come down to equations between flat terms. -/
lemma reduce_atoms_flat {f g : String} {ss ts : List Term} (hss : ∀ s ∈ ss, s.Flat)
    (hts : ∀ t ∈ ts, t.Flat) : (reduce [(.app f ss, .app g ts)]).Flat := by
  rw [reduce]
  split_ifs
  · exact reduce_flat fun e he => by cases he
  · rw [List.append_nil]
    refine reduce_flat fun e he => ?_
    rw [argumentEquations, List.mem_reverse] at he
    obtain ⟨hs, ht⟩ := List.of_mem_zip he
    exact ⟨hss _ hs, hts _ ht⟩
  · trivial

lemma FlatEquations.eliminate {x : String} {t : Term} (ht : t.Flat) {eqs : List Equation}
    (h : FlatEquations eqs) : FlatEquations (eliminate x t eqs) := by
  intro e he
  obtain ⟨e', he', rfl⟩ := List.mem_map.1 he
  exact ⟨(h e' he').1.replace ht x, (h e' he').2.replace ht x⟩

/-- **Flat equations run into no cycle**, and what is bound is bound to flat terms. -/
theorem solve_flat {s : Substitution} {eqs : List Equation} (h : (reduce eqs).Flat)
    (hs : s.Distinct) (hvalue : ∀ y, (s.value y).Flat) :
    solve s eqs = .clash ∨ ∃ σ, solve s eqs = .unified σ ∧ ∀ y, (σ.value y).Flat := by
  fun_induction solve s eqs with
  | case1 s eqs hreduce => exact Or.inr ⟨s, rfl, hvalue⟩
  | case2 s eqs hreduce => exact Or.inl rfl
  | case3 s eqs x t rest hreduce hoccurs =>
      rw [hreduce] at h
      exact absurd hoccurs (h.1.notMem_vars (ne_var_of_reduce hreduce))
  | case4 s eqs x t rest hreduce hoccurs ih =>
      rw [hreduce] at h
      refine ih (reduce_flat (h.2.eliminate h.1)) (hs.compose x t) fun y => ?_
      rw [Substitution.value_compose hs]
      exact (hvalue y).replace h.1 x

end Unification

open Unification

/-! ## Function-free clauses -/

/-- Every argument of an atom is a variable or a constant. -/
def FunctionFree (ls : List Literal) : Prop := ∀ l ∈ ls, ∀ t ∈ l.args, t.Flat

instance (ls : List Literal) : Decidable (FunctionFree ls) :=
  inferInstanceAs (Decidable (∀ l ∈ ls, ∀ t ∈ l.args, t.Flat))

lemma FunctionFree.mono {ls ms : List Literal} (h : FunctionFree ms) (hsub : ls ⊆ ms) :
    FunctionFree ls := fun l hl => h l (hsub hl)

lemma FunctionFree.append {ls ms : List Literal} (hls : FunctionFree ls) (hms : FunctionFree ms) :
    FunctionFree (ls ++ ms) := fun l hl => (List.mem_append.1 hl).elim (hls l) (hms l)

lemma FunctionFree.bindAll {ls : List Literal} {θ : String → Term} (h : FunctionFree ls)
    (hθ : ∀ x, (θ x).Flat) : FunctionFree (bindAll θ ls) := by
  intro m hm t ht
  obtain ⟨l, hl, rfl⟩ := mem_bindAll.1 hm
  obtain ⟨u, hu, rfl⟩ := List.mem_map.1 ht
  exact (h l hl u hu).bind hθ

lemma functionFree_conclusion {rule : String} {σ : Substitution} {rest : List Literal}
    (h : FunctionFree rest) (hσ : ∀ x, (σ.value x).Flat) :
    FunctionFree (conclusion rule σ rest).literals :=
  fun l hl => h.bindAll hσ l (mem_conclusion.1 hl)

section Unifiers

variable {ls ms : List Literal} {l m : Literal}

lemma solve_functionFree (hls : FunctionFree ls) (hms : FunctionFree ms) (hl : l ∈ ls)
    (hm : m ∈ ms) : solve .empty [(l.atom, m.atom)] = .clash ∨
      ∃ σ, solve .empty [(l.atom, m.atom)] = .unified σ ∧ ∀ y, (σ.value y).Flat :=
  solve_flat (reduce_atoms_flat (hls l hl) (hms m hm)) Substitution.distinct_empty Term.flat_var

/-- Between function-free clauses the treatment of cycles plays no role. -/
lemma indifferent_functionFree : Indifferent FunctionFree := by
  intro ls ms hls hms l hl m hm cycles
  show unifyEquations cycles [(l.atom, m.atom)] = unifyEquations .reject [(l.atom, m.atom)]
  rw [unifyEquations, unifyEquations]
  rcases solve_functionFree hls hms hl hm with hsolve | ⟨σ, hsolve, -⟩
  · rw [hsolve]
  · rw [hsolve]

lemma flat_of_unify {cycles : Cycles} {σ : Substitution} (hls : FunctionFree ls)
    (hms : FunctionFree ms) (hl : l ∈ ls) (hm : m ∈ ms)
    (h : unify cycles l.atom m.atom = .ok (some σ)) : ∀ y, (σ.value y).Flat := by
  rw [indifferent_functionFree hls hms l hl m hm] at h
  have hσ : solve .empty [(l.atom, m.atom)] = .unified σ := solve_of_unifyEquations h
  rcases solve_functionFree hls hms hl hm with hsolve | ⟨τ, hsolve, hτ⟩
  · rw [hσ] at hsolve
    cases hsolve
  · rw [hσ] at hsolve
    cases hsolve
    exact hτ

end Unifiers

/-- **Copies and conclusions of function-free clauses are function-free.** -/
theorem inherited_functionFree (cycles : Cycles) : Search.Inherited cycles FunctionFree where
  copy := by
    rintro ls ms ⟨ρ, -, rfl⟩ hls
    exact hls.bindAll fun x => Term.flat_var (ρ x)
  factor := by
    intro c r i j _ hc hr
    obtain ⟨l, m, σ, hl, hm, -, hσ, rfl⟩ := factor_eq_some_iff.1 hr
    exact functionFree_conclusion (hc.mono List.eraseIdx_subset)
      (flat_of_unify hc hc (List.mem_of_getElem? hl) (List.mem_of_getElem? hm) hσ)
  resolve := by
    intro c d r i j hc hd hr
    obtain ⟨l, m, σ, hl, hm, -, hσ, rfl⟩ := resolve_eq_some_iff.1 hr
    exact functionFree_conclusion
      ((hc.mono List.eraseIdx_subset).append (hd.mono List.eraseIdx_subset))
      (flat_of_unify hc hd (List.mem_of_getElem? hl) (List.mem_of_getElem? hm) hσ)

namespace Search

/-- **Without the occurs check the same is found.**  Whenever two lists of terms unify with the
check, the unchecked loop ends too, after at most as many bindings as there are variables, with the
same substitution: the same bindings in the same order, with the same trail.

From function-free clauses the search without the check is at every time in the state of the search
with the check, the switch aside.  So none of its steps fails for want of an answer, however small the
budget, and if it returns a contradiction the clauses are unsatisfiable. -/
theorem unchecked_agrees_with_checked :
    (∀ (ss ts : List Term) (σ : Substitution), unifyLists .reject ss ts = .ok (some σ) →
      (∀ budget, unifyLists (.follow budget) ss ts = .ok (some σ)) ∧
      ∀ budget, (vars (argumentEquations ss ts)).eraseDups.length ≤ budget →
        pursue budget .empty (argumentEquations ss ts) = .ok (some σ)) ∧
    ∀ (schedule : Schedule) (settings : Settings) (names : NameSupply) (clauses : List Clause),
      (∀ c ∈ clauses, FunctionFree c.literals) →
      Lockstep (State.start schedule (settings.set false .occursCheck) names clauses)
        (State.start schedule (settings.set true .occursCheck) names clauses) ∧
      ∀ {t : State} {returned : List Clause},
        Session (State.start schedule (settings.set false .occursCheck) names clauses) t returned →
        ∀ c ∈ returned, ¬ Satisfiable.{u} clauses := by
  refine ⟨fun ss ts σ h => ?_, fun schedule settings names clauses hclauses => ⟨?_, ?_⟩⟩
  · obtain ⟨hlength, hσ⟩ := unifyLists_eq_some h
    refine ⟨fun budget => ?_, fun budget hbudget => pursue_of_unified hσ hbudget⟩
    rw [unifyLists, if_pos hlength]
    exact unifyEquations_follow_of_reject hσ budget
  · exact indifferent_functionFree.lockstep inherited_functionFree
      (everywhere_start schedule (settings.set true .occursCheck) names hclauses)
  · intro t returned session c found
    exact indifferent_functionFree.unsatisfiable inherited_functionFree hclauses session found

/-- Clauses in which each atom stands next to its mirror image.  Unifying the two binds a variable to a
variable, and then meets that variable again. -/
def mirrored : List Clause :=
  [{ literals := [⟨true, "p", [.var "X", .var "Y"]⟩, ⟨true, "p", [.var "Y", .var "X"]⟩] },
   { literals := [⟨false, "p", [.var "X", .var "Y"]⟩, ⟨false, "p", [.var "Y", .var "X"]⟩] }]

theorem mirrored_unsatisfiable :
    pursue 2 .empty (argumentEquations [.var "X", .app "f" [.var "Y"]]
        [.app "g" [.var "Y"], .app "f" [.app "a" []]]) =
      .ok (some ⟨[("Y", .app "a" []), ("X", .app "g" [.app "a" []])], ["X", "Y"]⟩) ∧
    (∀ c ∈ mirrored, FunctionFree c.literals) ∧
    Lockstep (State.start .standard {} {} mirrored)
      (State.start .standard { occursCheck := true } {} mirrored) ∧
    (∃ t c, Session (State.start .standard {} {} mirrored) t [c]) ∧
    ¬ Satisfiable.{0} mirrored := by
  have hfree : ∀ c ∈ mirrored, FunctionFree c.literals := by decide
  obtain ⟨hunify, hsearch⟩ := unchecked_agrees_with_checked.{0}
  obtain ⟨hlockstep, hsound⟩ := hsearch .standard {} {} mirrored hfree
  obtain ⟨run, hrun, hsome⟩ : ∃ run, (State.start .standard {} {} mirrored).saturate none
      (.steady (.finite 0)) 20 = .ok run ∧ run.refutation.isSome = true :=
    exists_ok_of_any (by decide +kernel)
  obtain ⟨c, hc⟩ := Option.isSome_iff_exists.1 hsome
  have hsession := Session.start.saturate hrun
  rw [hc] at hsession
  exact ⟨(hunify _ _ _ (by decide +kernel)).2 2 (by decide +kernel), hfree, hlockstep,
    ⟨run.state, c, hsession⟩, hsound hsession c List.mem_cons_self⟩

end Search

end GivenClause
