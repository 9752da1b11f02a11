import Mathlib
import GivenClause.Proofs.Composition
import GivenClause.Unification

/-!
# Unification finds most general unifiers

A unifier is a map from variables to terms under which all equations hold (`Unifies`).  The
argument follows the two loops of the algorithm.

**Taking apart.**  `reduce` neither loses nor gains unifiers: what it comes down to demands the same
of a map as the equations did (`unifies_iff_demands`).

**Binding.**  Every round of `solve` follows the substitution by one more map.  `solve_unified` says
what the maps add up to: a unifier `δ` that every other unifier absorbs.  Conversely a unifiable
problem is never reported as a clash or a cycle (`solve_of_unifies`), since the image of a variable
is smaller than the image of a larger term that contains it.

A problem with a unifier is settled before any cycle comes up, so what is found does not depend on
the treatment of cycles (`unify_of_unifier`).  Without a unifier it does: only `Cycles.reject`
promises that the answer is one (`unify_reject`).
-/

namespace GivenClause

/-! ## Sizes under a map -/

namespace Term

lemma size_le_sizeList {t : Term} {args : List Term} (h : t ∈ args) : t.size ≤ sizeList args := by
  induction args with
  | nil => cases h
  | cons s ss ih =>
      rw [sizeList]
      rcases List.mem_cons.1 h with rfl | h
      · omega
      · have := ih h
        omega

/-- The image of a variable is no larger than the image of a term it occurs in. -/
lemma size_le_size_bind (σ : String → Term) {x : String} {t : Term} (h : x ∈ t.vars) :
    (σ x).size ≤ (t.bind σ).size := by
  induction t with
  | var y =>
      rw [vars_var, List.mem_singleton] at h
      rw [h, bind_var]
  | app f args ih =>
      rw [vars_app, List.mem_flatMap] at h
      obtain ⟨t, ht, hx⟩ := h
      have hle := size_le_sizeList (List.mem_map_of_mem (f := bind σ) ht)
      have := ih t ht hx
      rw [bind_app, size]
      omega

/-- And it is smaller, if the term is not the variable itself. -/
lemma size_lt_size_bind (σ : String → Term) {x : String} {t : Term} (h : x ∈ t.vars)
    (hne : t ≠ .var x) : (σ x).size < (t.bind σ).size := by
  cases t with
  | var y =>
      rw [vars_var, List.mem_singleton] at h
      exact absurd (congrArg Term.var h.symm) hne
  | app f args =>
      rw [vars_app, List.mem_flatMap] at h
      obtain ⟨t, ht, hx⟩ := h
      have hle := size_le_sizeList (List.mem_map_of_mem (f := bind σ) ht)
      have := size_le_size_bind σ hx
      rw [bind_app, size]
      omega

end Term

namespace Unification

/-! ## Unifiers -/

/-- The map makes both sides of every equation equal. -/
def Unifies (σ : String → Term) (eqs : List Equation) : Prop := ∀ e ∈ eqs, e.1.bind σ = e.2.bind σ

@[simp] lemma unifies_nil (σ : String → Term) : Unifies σ [] := by simp [Unifies]

@[simp] lemma unifies_cons (σ : String → Term) (e : Equation) (eqs : List Equation) :
    Unifies σ (e :: eqs) ↔ e.1.bind σ = e.2.bind σ ∧ Unifies σ eqs := by
  simp [Unifies]

lemma unifies_append (σ : String → Term) (eqs eqs' : List Equation) :
    Unifies σ (eqs ++ eqs') ↔ Unifies σ eqs ∧ Unifies σ eqs' := by
  simp [Unifies, or_imp, forall_and]

lemma unifies_zip (σ : String → Term) {ss ts : List Term} (h : ss.length = ts.length) :
    Unifies σ (ss.zip ts) ↔ ss.map (Term.bind σ) = ts.map (Term.bind σ) := by
  induction ss generalizing ts with
  | nil => cases ts <;> simp_all
  | cons s ss ih =>
      cases ts with
      | nil => simp at h
      | cons t ts =>
          rw [List.zip_cons_cons, unifies_cons, ih (by simpa using h)]
          simp

lemma unifies_argumentEquations (σ : String → Term) {ss ts : List Term}
    (h : ss.length = ts.length) :
    Unifies σ (argumentEquations ss ts) ↔ ss.map (Term.bind σ) = ts.map (Term.bind σ) := by
  rw [← unifies_zip σ h]
  simp [Unifies, argumentEquations]

/-- Eliminating a variable makes no difference to a map that takes it to where its value goes. -/
lemma unifies_eliminate {σ : String → Term} {x : String} {t : Term} (h : σ x = t.bind σ)
    (eqs : List Equation) : Unifies σ (eliminate x t eqs) ↔ Unifies σ eqs := by
  simp only [Unifies, eliminate, List.forall_mem_map, Term.bind_replace_of_eq h]

/-! ## Taking apart -/

lemma reduce_cons_self (t : Term) (rest : List Equation) :
    reduce ((t, t) :: rest) = reduce rest := by
  rw [reduce.eq_def]
  simp

/-- What a reduced stack of equations asks of a map. -/
def Reduced.Demands (σ : String → Term) : Reduced → Prop
  | .solved => True
  | .clash => False
  | .bind x t rest => σ x = t.bind σ ∧ Unifies σ rest

/-- **Reducing keeps the unifiers.** -/
theorem unifies_iff_demands (σ : String → Term) (eqs : List Equation) :
    Unifies σ eqs ↔ (reduce eqs).Demands σ := by
  fun_induction reduce eqs with
  | case1 => simp [Reduced.Demands]
  | case2 t rest ih => simpa using ih
  | case3 rest x t hne => simp [Reduced.Demands]
  | case4 rest f ss y hne => simp [Reduced.Demands, eq_comm]
  | case5 rest f ss g ts hsame hne ih =>
      obtain ⟨rfl, hlength⟩ := hsame
      rw [← ih, unifies_append, unifies_argumentEquations σ hlength, unifies_cons]
      simp
  | case6 rest f ss g ts hdiffer hne =>
      simp only [Reduced.Demands, iff_false, unifies_cons, Term.bind_app, Term.app.injEq]
      rintro ⟨⟨hfg, hargs⟩, -⟩
      exact hdiffer ⟨hfg, by simpa using congrArg List.length hargs⟩

/-- A binding is only asked for where it says something. -/
lemma ne_var_of_reduce {eqs rest : List Equation} {x : String} {t : Term}
    (h : reduce eqs = .bind x t rest) : t ≠ .var x := by
  fun_induction reduce eqs with
  | case1 => simp at h
  | case2 t' rest' ih => exact ih h
  | case3 rest' y u hne =>
      simp only [Reduced.bind.injEq] at h
      obtain ⟨rfl, rfl, -⟩ := h
      exact fun e => hne e.symm
  | case4 rest' f ss y hne =>
      simp only [Reduced.bind.injEq] at h
      obtain ⟨rfl, rfl, -⟩ := h
      exact hne
  | case5 rest' f ss g ts hsame hne ih => exact ih h
  | case6 => simp at h

/-! ## Binding -/

/-- The map that first replaces `x` by `t` and then goes on as `δ`. -/
def after (x : String) (t : Term) (δ : String → Term) (y : String) : Term :=
  if y = x then t.bind δ else δ y

lemma bind_after (x : String) (t : Term) (δ : String → Term) (u : Term) :
    u.bind (after x t δ) = (u.replace x t).bind δ := by
  rw [Term.replace, Term.bind_bind]
  refine Term.bind_congr fun y _ => ?_
  rw [after]
  split_ifs <;> rfl

/-- **What the loop adds up to.**  If the equations are solved, the substitution has been followed
by a unifier `δ` of theirs, and every unifier absorbs `δ`: it is most general. -/
theorem solve_unified {s s' : Substitution} {eqs : List Equation} (hs : s.Distinct)
    (h : solve s eqs = .unified s') :
    s'.Distinct ∧ ∃ δ : String → Term, (∀ y, s'.value y = (s.value y).bind δ) ∧ Unifies δ eqs ∧
      ∀ η, Unifies η eqs → ∀ y, (δ y).bind η = η y := by
  fun_induction solve s eqs with
  | case1 s eqs hreduce =>
      simp only [Outcome.unified.injEq] at h
      subst h
      refine ⟨hs, .var, by simp, ?_, by simp⟩
      rw [unifies_iff_demands, hreduce]
      trivial
  | case2 => simp at h
  | case3 => simp at h
  | case4 s eqs x t rest hreduce hoccurs ih =>
      obtain ⟨hd, δ, hvalue, hunifies, habsorb⟩ := ih (hs.compose x t) h
      refine ⟨hd, after x t δ, fun y => ?_, ?_, fun η hη y => ?_⟩
      · rw [hvalue, Substitution.value_compose hs, bind_after]
      · rw [unifies_iff_demands, hreduce]
        constructor
        · -- `x` does not occur in `t`, so `t` goes where `δ` takes it
          have hx : after x t δ x = t.bind δ := if_pos rfl
          rw [hx]
          refine Term.bind_congr fun y hy => ?_
          rw [after, if_neg fun e : y = x => hoccurs (e ▸ hy)]
        · intro e he
          rw [bind_after, bind_after]
          exact hunifies (e.1.replace x t, e.2.replace x t) (List.mem_map_of_mem he)
      · rw [unifies_iff_demands, hreduce] at hη
        have hδ := habsorb η ((unifies_eliminate hη.1 rest).2 hη.2)
        rw [after]
        split_ifs with hy
        · rw [hy, hη.1, Term.bind_bind]
          exact Term.bind_congr fun z _ => hδ z
        · exact hδ y

/-- A unifiable problem is solved: it neither clashes nor runs into a cycle. -/
theorem solve_of_unifies {η : String → Term} {eqs : List Equation} (s : Substitution)
    (hη : Unifies η eqs) : ∃ s', solve s eqs = .unified s' := by
  fun_induction solve s eqs with
  | case1 s eqs hreduce => exact ⟨s, rfl⟩
  | case2 s eqs hreduce =>
      rw [unifies_iff_demands, hreduce] at hη
      exact hη.elim
  | case3 s eqs x t rest hreduce hoccurs =>
      rw [unifies_iff_demands, hreduce] at hη
      have hlt := Term.size_lt_size_bind η hoccurs (ne_var_of_reduce hreduce)
      rw [hη.1] at hlt
      exact absurd hlt (lt_irrefl _)
  | case4 s eqs x t rest hreduce hoccurs ih =>
      rw [unifies_iff_demands, hreduce] at hη
      exact ih ((unifies_eliminate hη.1 rest).2 hη.2)

/-- With the occurs check, what is found is a unifier that all others absorb. -/
theorem unifyEquations_reject {eqs : List Equation} {σ : Substitution}
    (h : unifyEquations .reject eqs = .ok (some σ)) :
    Unifies σ.value eqs ∧ ∀ η, Unifies η eqs → ∀ y, (σ.value y).bind η = η y := by
  rw [unifyEquations] at h
  split at h
  · rename_i s hsolve
    simp only [Except.ok.injEq, Option.some.injEq] at h
    subst h
    obtain ⟨-, δ, hvalue, hunifies, habsorb⟩ := solve_unified Substitution.distinct_empty hsolve
    have hδ : s.value = δ := funext fun y => by rw [hvalue, Substitution.value_empty, Term.bind_var]
    rw [hδ]
    exact ⟨hunifies, habsorb⟩
  · simp at h
  · simp at h

/-- **A unifiable problem is solved**, and in the same way however cycles are treated. -/
theorem unifyEquations_of_unifies {η : String → Term} {eqs : List Equation} (hη : Unifies η eqs) :
    ∃ σ, ∀ cycles, unifyEquations cycles eqs = .ok (some σ) := by
  obtain ⟨σ, hσ⟩ := solve_of_unifies .empty hη
  exact ⟨σ, fun cycles => by simp only [unifyEquations, hσ]⟩

end Unification

/-! ## Two terms -/

open Unification

/-- With the occurs check, two terms that unify become equal. -/
theorem unify_reject {a b : Term} {σ : Substitution} (h : unify .reject a b = .ok (some σ)) :
    a.bind σ.value = b.bind σ.value := by
  have := (@unifyEquations_reject [(a, b)] σ h).1
  simpa using this

/-- Two terms with a unifier are unified, and the unifier absorbs what was found. -/
theorem unify_of_unifier {a b : Term} {θ : String → Term} (h : a.bind θ = b.bind θ) :
    ∃ σ, (∀ cycles, unify cycles a b = .ok (some σ)) ∧
      ∀ t : Term, (t.bind σ.value).bind θ = t.bind θ := by
  have hθ : Unifies θ [(a, b)] := by simpa using h
  obtain ⟨σ, hσ⟩ := unifyEquations_of_unifies hθ
  refine ⟨σ, hσ, fun t => ?_⟩
  rw [Term.bind_bind]
  exact Term.bind_congr fun y _ => (unifyEquations_reject (hσ .reject)).2 θ hθ y

/-- Applications that differ in symbol or number of arguments do not unify, cycles or not. -/
lemma unify_of_different_symbols (cycles : Cycles) {f g : String} {ss ts : List Term}
    (h : ¬ (f = g ∧ ss.length = ts.length)) :
    unify cycles (.app f ss) (.app g ts) = .ok none := by
  have hne : Term.app f ss ≠ .app g ts := by
    rintro e
    obtain ⟨rfl, rfl⟩ := Term.app.inj e
    exact h ⟨rfl, rfl⟩
  have hreduce : reduce [(.app f ss, .app g ts)] = .clash := by
    rw [reduce, if_neg hne]
    simp only [if_neg h]
  have hsolve : solve .empty [(.app f ss, .app g ts)] = .clash := by
    rw [solve]
    split
    · rename_i e; rw [hreduce] at e; cases e
    · rfl
    · rename_i e; rw [hreduce] at e; cases e
  show unifyEquations cycles [(.app f ss, .app g ts)] = .ok none
  simp only [unifyEquations, hsolve]

/-- Applications that unify agree in symbol and number of arguments. -/
lemma same_symbol_of_unify {cycles : Cycles} {f g : String} {ss ts : List Term} {σ : Substitution}
    (h : unify cycles (.app f ss) (.app g ts) = .ok (some σ)) : f = g ∧ ss.length = ts.length := by
  by_contra hdiffer
  rw [unify_of_different_symbols cycles hdiffer] at h
  simp at h

end GivenClause
