import Mathlib
import GivenClause.Proofs.CycleTreatment

/-!
# Unification with the occurs check is exact

What `solve` finds is a unifier that every other unifier absorbs (`solve_unified`), and it finds one
whenever there is one (`solve_of_unifies`).  This file adds where the variables of the answer come
from: a binding composed into a substitution brings in no variables but its own
(`Substitution.mem_vars_compose`), and the loop only binds variables of the equations, to terms over
them (`mem_vars_of_unified`).

A unifier that absorbs itself is idempotent, so that part needs no invariant of its own.
-/

namespace GivenClause

namespace Substitution

/-! ## The variables of a substitution -/

/-- The bound variables, and the variables of the terms they are bound to. -/
def vars (s : Substitution) : List String := s.bindings.flatMap fun b => b.1 :: b.2.vars

lemma mem_vars {s : Substitution} {y : String} :
    y ∈ s.vars ↔ ∃ b ∈ s.bindings, y = b.1 ∨ y ∈ b.2.vars := by
  simp [vars]

lemma notMem_vars_empty {y : String} : y ∉ empty.vars := List.not_mem_nil

lemma mem_assign {x : String} {t : Term} {b : String × Term} {bindings : List (String × Term)}
    (h : b ∈ assign x t bindings) : b = (x, t) ∨ b ∈ bindings := by
  induction bindings with
  | nil => simpa [assign] using h
  | cons c rest ih =>
      obtain ⟨y, u⟩ := c
      rw [assign] at h
      split_ifs at h with hy
      · rcases List.mem_cons.1 h with rfl | h
        · exact Or.inl (by rw [hy])
        · exact Or.inr (List.mem_cons_of_mem _ h)
      · rcases List.mem_cons.1 h with rfl | h
        · exact Or.inr List.mem_cons_self
        · exact (ih h).imp_right (List.mem_cons_of_mem _)

lemma mem_bindings_add {s : Substitution} {x : String} {t : Term} {b : String × Term}
    (h : b ∈ (s.add x t).bindings) : b = (x, t) ∨ b ∈ s.bindings := by
  rw [add] at h
  split_ifs at h
  · exact Or.inr h
  · exact mem_assign h

/-- Composing `x<-t` brings in `x` and the variables of `t`, and no others. -/
lemma mem_vars_compose {s : Substitution} {x y : String} {t : Term}
    (h : y ∈ (s.compose x t).vars) : y ∈ s.vars ∨ y = x ∨ y ∈ t.vars := by
  obtain ⟨s', hs', -, hcompose⟩ := s.compose_eq x t
  have hpushed : ∀ b ∈ s'.bindings, y = b.1 ∨ y ∈ b.2.vars → y ∈ s.vars ∨ y = x ∨ y ∈ t.vars := by
    intro b hb hy
    rw [hs', pushed, List.mem_filter, List.mem_map] at hb
    obtain ⟨⟨c, hc, rfl⟩, -⟩ := hb
    rcases hy with hy | hy
    · exact Or.inl (mem_vars.2 ⟨c, hc, Or.inl hy⟩)
    · rcases Term.mem_vars_replace hy with hy | ⟨-, hy⟩
      · exact Or.inr (Or.inr hy)
      · exact Or.inl (mem_vars.2 ⟨c, hc, Or.inr hy⟩)
  obtain ⟨b, hb, hy⟩ := mem_vars.1 h
  rw [hcompose] at hb
  split_ifs at hb
  · exact hpushed b hb hy
  · rcases mem_bindings_add hb with rfl | hb
    · exact Or.inr hy
    · exact hpushed b hb hy

end Substitution

namespace Unification

/-- **The answer has no variables of its own**: those it binds or puts in were there before, or come
from the equations. -/
theorem mem_vars_of_unified {s s' : Substitution} {eqs : List Equation}
    (h : solve s eqs = .unified s') {y : String} (hy : y ∈ s'.vars) : y ∈ s.vars ∨ y ∈ vars eqs := by
  fun_induction solve s eqs with
  | case1 s eqs hreduce =>
      simp only [Outcome.unified.injEq] at h
      exact Or.inl (h ▸ hy)
  | case2 => simp at h
  | case3 => simp at h
  | case4 s eqs x t rest hreduce hoccurs ih =>
      obtain ⟨hx, ht, hrest⟩ := vars_of_reduce hreduce
      rcases ih h with hy | hy
      · rcases Substitution.mem_vars_compose hy with hy | rfl | hy
        · exact Or.inl hy
        · exact Or.inr hx
        · exact Or.inr (ht hy)
      · exact Or.inr ((vars_eliminate hoccurs hy).2.elim (fun hy => ht hy) fun hy => hrest hy)

end Unification

open Unification

/-! ## Two lists of terms -/

lemma exists_unifyLists_reject (ss ts : List Term) :
    ∃ answer, unifyLists .reject ss ts = .ok answer := by
  rw [unifyLists]
  split_ifs
  · exact exists_unifyEquations_reject (argumentEquations ss ts)
  · exact ⟨none, rfl⟩

section Answer

variable {ss ts : List Term} {s : Substitution}

/-- The answer is a unifier, and every other one absorbs it. -/
lemma unifies_of_unifyLists (h : unifyLists .reject ss ts = .ok (some s)) :
    ss.map s.apply = ts.map s.apply ∧
      ∀ u : String → Term, ss.map (Term.bind u) = ts.map (Term.bind u) →
        ∀ t, (s.apply t).bind u = t.bind u := by
  obtain ⟨hlength, hs⟩ := unifyLists_eq_some h
  obtain ⟨hunifies, habsorb⟩ := unifyEquations_reject hs
  refine ⟨(unifies_argumentEquations s.value hlength).1 hunifies, fun u hu t => ?_⟩
  rw [Substitution.apply, Term.bind_bind]
  exact Term.bind_congr fun y _ => habsorb u ((unifies_argumentEquations u hlength).2 hu) y

lemma mem_vars_of_unifyLists (h : unifyLists .reject ss ts = .ok (some s)) {x : String}
    (hx : x ∈ s.vars) : x ∈ ss.flatMap Term.vars ∨ x ∈ ts.flatMap Term.vars := by
  have hsolve := solve_of_unifyEquations (unifyLists_eq_some h).2
  refine mem_vars_argumentEquations ((mem_vars_of_unified hsolve hx).resolve_left ?_)
  exact Substitution.notMem_vars_empty

end Answer

/-- **Unification with the occurs check is total and exact.**  It answers for every two lists of
terms.  The answer is `none` exactly if the lists differ in length or no substitution makes them equal
term by term.  Otherwise it is a unifier: idempotent, over the variables of the two lists, and most
general in the strong sense that every map that unifies the lists absorbs it. -/
theorem checked_unification_exact (ss ts : List Term) :
    ∃ answer, unifyLists .reject ss ts = .ok answer ∧
      (answer = none ↔
        ss.length ≠ ts.length ∨ ¬ ∃ u : Substitution, ss.map u.apply = ts.map u.apply) ∧
      ∀ s, answer = some s →
        ss.map s.apply = ts.map s.apply ∧
        (∀ t, s.apply (s.apply t) = s.apply t) ∧
        (∀ x ∈ s.vars, x ∈ ss.flatMap Term.vars ∨ x ∈ ts.flatMap Term.vars) ∧
        ∀ u : String → Term, ss.map (Term.bind u) = ts.map (Term.bind u) →
          ∀ t, (s.apply t).bind u = t.bind u := by
  obtain ⟨answer, hanswer⟩ := exists_unifyLists_reject ss ts
  refine ⟨answer, hanswer, ⟨?_, fun h => ?_⟩, ?_⟩
  · rintro rfl
    by_cases hlength : ss.length = ts.length
    · refine Or.inr ?_
      rintro ⟨u, hu⟩
      obtain ⟨s, hs⟩ := unifyLists_of_unifier hlength hu
      rw [hs] at hanswer
      cases hanswer
    · exact Or.inl hlength
  · cases answer with
    | none => rfl
    | some s =>
        have hlength := (unifyLists_eq_some hanswer).1
        have hunifier := (unifies_of_unifyLists hanswer).1
        exact absurd ⟨s, hunifier⟩ (h.resolve_left (not_not.2 hlength))
  · rintro s rfl
    obtain ⟨hunifier, hgeneral⟩ := unifies_of_unifyLists hanswer
    exact ⟨hunifier, hgeneral s.value hunifier, fun x hx => mem_vars_of_unifyLists hanswer hx,
      hgeneral⟩

/-- The last pair binds a variable on the right.  The arguments of `f` bind a variable to a variable,
which is then bound itself.  In the second problem a cycle comes up only after the first binding, and
there is no unifier. -/
theorem crossed_unified :
    (∃ s : Substitution, unifyLists .reject
        [.app "f" [.var "X", .var "Y"], .app "g" [.var "Z"]]
        [.app "f" [.app "g" [.var "Z"], .var "X"], .var "W"] = .ok (some s) ∧
      s.bindings = [("W", .app "g" [.var "Z"]), ("Y", .app "g" [.var "Z"]),
        ("X", .app "g" [.var "Z"])] ∧
      ∀ t, s.apply (s.apply t) = s.apply t) ∧
    ¬ ∃ u : Substitution, [Term.var "X", .var "Y"].map u.apply
      = [Term.var "Y", .app "g" [.var "X"]].map u.apply := by
  constructor
  · obtain ⟨answer, hanswer, -, hsome⟩ := checked_unification_exact
      [.app "f" [.var "X", .var "Y"], .app "g" [.var "Z"]]
      [.app "f" [.app "g" [.var "Z"], .var "X"], .var "W"]
    have hfound : unifyLists .reject
        [.app "f" [.var "X", .var "Y"], .app "g" [.var "Z"]]
        [.app "f" [.app "g" [.var "Z"], .var "X"], .var "W"]
          = .ok (some ⟨[("W", .app "g" [.var "Z"]), ("Y", .app "g" [.var "Z"]),
              ("X", .app "g" [.var "Z"])], ["X", "Y", "W"]⟩) := by decide +kernel
    rw [hfound] at hanswer
    exact ⟨_, hfound, rfl, (hsome _ (Except.ok.inj hanswer).symm).2.1⟩
  · obtain ⟨answer, hanswer, hnone, -⟩ := checked_unification_exact
      [.var "X", .var "Y"] [.var "Y", .app "g" [.var "X"]]
    have hcycle : unifyLists .reject [.var "X", .var "Y"] [.var "Y", .app "g" [.var "X"]]
        = .ok none := by decide +kernel
    rw [hcycle] at hanswer
    exact (hnone.1 (Except.ok.inj hanswer).symm).resolve_left (by simp)

end GivenClause
