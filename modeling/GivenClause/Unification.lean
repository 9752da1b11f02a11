import GivenClause.Substitution

/-!
# Unification

A unification problem is a stack of equations between terms.  `reduce` takes the stack apart until
it meets a variable that has to be bound, a clash of symbols, or the end.  `solve` binds one
variable after the other: each binding is composed into the answer and eliminated from the
equations that are left, so every round has one variable fewer and the loop ends.

The loop stops at an equation between a variable and a larger term that contains it.  What happens
then is the caller's choice, a value of `Cycles`:

* `reject` is unification with the occurs check: there is no unifier.
* `follow budget` binds the variable all the same and goes on.  Such a binding does not eliminate
  its variable, and there are problems on which the loop then never ends; so it is given a budget
  of further bindings, and reports `Unsettled` when that is used up.
-/

namespace GivenClause

/-- Two terms to be made equal. -/
abbrev Equation := Term × Term

namespace Unification

/-! ## Sizes and variables of equations -/

/-- The symbols on the left-hand sides. -/
def leftSize : List Equation → Nat
  | [] => 0
  | e :: eqs => e.1.size + leftSize eqs

/-- The variable occurrences of a list of equations. -/
def vars (eqs : List Equation) : List String := eqs.flatMap fun e => e.1.vars ++ e.2.vars

@[simp] theorem vars_nil : vars [] = [] := rfl

@[simp] theorem vars_cons (e : Equation) (eqs : List Equation) :
    vars (e :: eqs) = (e.1.vars ++ e.2.vars) ++ vars eqs := by
  simp [vars]

@[simp] theorem leftSize_cons (e : Equation) (eqs : List Equation) :
    leftSize (e :: eqs) = e.1.size + leftSize eqs := rfl

/-- The equations between the arguments of two applications, the last pair first: it is the one
that is taken up next. -/
def argumentEquations (ss ts : List Term) : List Equation := (ss.zip ts).reverse

theorem leftSize_append (eqs eqs' : List Equation) :
    leftSize (eqs ++ eqs') = leftSize eqs + leftSize eqs' := by
  induction eqs with
  | nil => simp [leftSize]
  | cons e eqs ih => simp only [List.cons_append, leftSize_cons, ih, Nat.add_assoc]

theorem leftSize_argumentEquations (ss ts : List Term) :
    leftSize (argumentEquations ss ts) ≤ Term.sizeList ss := by
  induction ss generalizing ts with
  | nil => simp [argumentEquations, leftSize, Term.sizeList]
  | cons s ss ih =>
    cases ts with
    | nil => simp [argumentEquations, leftSize]
    | cons t ts =>
      have h := ih ts
      simp only [argumentEquations, List.zip_cons_cons, List.reverse_cons, Term.sizeList] at h ⊢
      rw [leftSize_append, leftSize_cons]
      simp only [leftSize] at h ⊢
      omega

/-- The arguments' equations have no other variables than the arguments. -/
theorem mem_vars_argumentEquations {ss ts : List Term} {x : String}
    (h : x ∈ vars (argumentEquations ss ts)) : x ∈ ss.flatMap Term.vars ∨ x ∈ ts.flatMap Term.vars := by
  simp only [vars, argumentEquations, List.mem_flatMap, List.mem_reverse] at h
  obtain ⟨⟨s, t⟩, hst, hx⟩ := h
  simp only [List.mem_append] at hx
  obtain ⟨hs, ht⟩ := List.of_mem_zip hst
  rcases hx with hx | hx
  · exact .inl (List.mem_flatMap.2 ⟨s, hs, hx⟩)
  · exact .inr (List.mem_flatMap.2 ⟨t, ht, hx⟩)

/-! ## Reducing equations -/

/-- What a stack of equations comes down to. -/
inductive Reduced where
  /-- Every equation holds already. -/
  | solved
  /-- Two applications differ in symbol or number of arguments. -/
  | clash
  /-- The variable `x` has to become `t`, which is another term; `rest` is left over. -/
  | bind (x : String) (t : Term) (rest : List Equation)
  deriving Repr, DecidableEq

/-- Take equations apart until one asks for a binding.  An equation of a variable and an
application binds the variable, on whichever side it stands. -/
def reduce : List Equation → Reduced
  | [] => .solved
  | (s, t) :: rest =>
    if s = t then reduce rest
    else
      match s, t with
      | .var x, t => .bind x t rest
      | .app f ss, .var y => .bind y (.app f ss) rest
      | .app f ss, .app g ts =>
        if f = g ∧ ss.length = ts.length then reduce (argumentEquations ss ts ++ rest) else .clash
termination_by eqs => leftSize eqs
decreasing_by
  · have := Term.size_pos s
    simp only [leftSize_cons]
    omega
  · have := leftSize_argumentEquations ss ts
    simp only [leftSize_cons, leftSize_append, Term.size]
    omega

/-- Replace `x` by `t` in every equation. -/
def eliminate (x : String) (t : Term) (eqs : List Equation) : List Equation :=
  eqs.map fun e => (e.1.replace x t, e.2.replace x t)

/-- Reducing brings in no variable: the variable to bind, the term and the rest only have
variables of the equations. -/
theorem vars_of_reduce {eqs rest : List Equation} {x : String} {t : Term}
    (h : reduce eqs = .bind x t rest) :
    x ∈ vars eqs ∧ t.vars ⊆ vars eqs ∧ vars rest ⊆ vars eqs := by
  fun_induction reduce eqs with
  | case1 => simp at h
  | case2 t' rest' ih =>
    obtain ⟨hx, ht, hr⟩ := ih h
    simp only [vars_cons]
    exact ⟨List.mem_append_right _ hx, fun y hy => List.mem_append_right _ (ht hy),
      fun y hy => List.mem_append_right _ (hr hy)⟩
  | case3 rest' y u hne =>
    simp only [Reduced.bind.injEq] at h
    obtain ⟨rfl, rfl, rfl⟩ := h
    simp only [vars_cons, Term.vars_var]
    refine ⟨by simp, fun z hz => ?_, fun z hz => by simp [hz]⟩
    simp [hz]
  | case4 rest' f ss y hne =>
    simp only [Reduced.bind.injEq] at h
    obtain ⟨rfl, rfl, rfl⟩ := h
    simp only [vars_cons, Term.vars_var]
    refine ⟨by simp, fun z hz => ?_, fun z hz => by simp [hz]⟩
    simp only [List.mem_append]
    exact .inl (.inl hz)
  | case5 rest' f ss g ts hne heq ih =>
    have sub : vars (argumentEquations ss ts ++ rest') ⊆ vars ((.app f ss, .app g ts) :: rest') := by
      intro z hz
      simp only [vars, List.flatMap_append, List.mem_append] at hz
      simp only [vars_cons, List.mem_append, Term.vars_app]
      rcases hz with hz | hz
      · exact .inl (mem_vars_argumentEquations hz)
      · exact .inr hz
    obtain ⟨hx, ht, hr⟩ := ih h
    exact ⟨sub hx, fun z hz => sub (ht hz), fun z hz => sub (hr hz)⟩
  | case6 => simp at h

/-- Eliminating a variable that does not occur in its value leaves no trace of it. -/
theorem vars_eliminate {x : String} {t : Term} (hx : x ∉ t.vars) {eqs : List Equation} {y : String}
    (hy : y ∈ vars (eliminate x t eqs)) : y ≠ x ∧ (y ∈ t.vars ∨ y ∈ vars eqs) := by
  have one : ∀ u : Term, y ∈ (u.replace x t).vars → y ≠ x ∧ (y ∈ t.vars ∨ y ∈ u.vars) := by
    intro u hu
    rw [Term.replace, Term.vars_bind, List.mem_flatMap] at hu
    obtain ⟨z, hz, hyz⟩ := hu
    by_cases hzx : z = x
    · rw [if_pos hzx] at hyz
      exact ⟨fun e => hx (e ▸ hyz), .inl hyz⟩
    · rw [if_neg hzx, Term.vars_var, List.mem_singleton] at hyz
      exact ⟨fun e => hzx (hyz ▸ e), .inr (hyz ▸ hz)⟩
  simp only [vars, eliminate, List.flatMap_map, List.mem_flatMap, List.mem_append] at hy ⊢
  obtain ⟨e, he, hy | hy⟩ := hy
  · exact ⟨(one _ hy).1, (one _ hy).2.imp_right fun h => ⟨e, he, .inl h⟩⟩
  · exact ⟨(one _ hy).1, (one _ hy).2.imp_right fun h => ⟨e, he, .inr h⟩⟩

/-! ## Counting distinct variables -/

theorem nodup_eraseDups (xs : List String) : xs.eraseDups.Nodup := by
  match xs with
  | [] => simp
  | x :: xs =>
    rw [List.eraseDups_cons, List.nodup_cons, List.mem_eraseDups]
    exact ⟨by simp, nodup_eraseDups _⟩
termination_by xs.length
decreasing_by exact Nat.lt_succ_of_le (List.length_filter_le _ _)

/-- Fewer names: if all names of one list are in another, which also has a name of its own, then
the first has fewer distinct names. -/
theorem length_eraseDups_lt {xs ys : List String} {x : String} (hx : x ∈ ys)
    (h : ∀ y ∈ xs, y ≠ x ∧ y ∈ ys) : xs.eraseDups.length < ys.eraseDups.length := by
  have hnodup : (x :: xs.eraseDups).Nodup := by
    rw [List.nodup_cons]
    exact ⟨fun hm => (h x (List.mem_eraseDups.1 hm)).1 rfl, nodup_eraseDups xs⟩
  have hsub : x :: xs.eraseDups ⊆ ys.eraseDups := by
    intro y hy
    rcases List.mem_cons.1 hy with rfl | hy
    · exact List.mem_eraseDups.2 hx
    · exact List.mem_eraseDups.2 (h y (List.mem_eraseDups.1 hy)).2
  exact hnodup.length_le_of_subset hsub

/-! ## Solving -/

/-- How the solving loop ends. -/
inductive Outcome where
  /-- Every equation is solved by this substitution. -/
  | unified (s : Substitution)
  /-- Two applications clash. -/
  | clash
  /-- The variable `x` meets the larger term `t` that contains it, with `s` found so far and `rest`
  left over. -/
  | cyclic (s : Substitution) (x : String) (t : Term) (rest : List Equation)
  deriving Repr, DecidableEq

/-- Bind variables one by one, until the equations are solved, clash, or turn out cyclic. -/
def solve (s : Substitution) (eqs : List Equation) : Outcome :=
  match _reduced : reduce eqs with
  | .solved => .unified s
  | .clash => .clash
  | .bind x t rest =>
    if _occurs : x ∈ t.vars then .cyclic s x t rest
    else solve (s.compose x t) (eliminate x t rest)
termination_by (vars eqs).eraseDups.length
decreasing_by
  obtain ⟨hxe, hte, hre⟩ := vars_of_reduce _reduced
  refine length_eraseDups_lt hxe fun y hy => ?_
  obtain ⟨hne, hy⟩ := vars_eliminate _occurs hy
  exact ⟨hne, hy.elim (fun h => hte h) (fun h => hre h)⟩

/-- What to do with a variable that meets a larger term containing it. -/
inductive Cycles where
  /-- There is no unifier: the occurs check. -/
  | reject
  /-- Bind the variable nevertheless, with at most `budget` bindings after this one. -/
  | follow (budget : Nat)
  deriving Repr, DecidableEq

/-- The budget for following cyclic bindings is used up. -/
structure Unsettled where
  deriving Repr, DecidableEq

/-- Solve equations without looking for cycles, with a budget of bindings. -/
def pursue : Nat → Substitution → List Equation → Except Unsettled (Option Substitution)
  | budget, s, eqs =>
    match reduce eqs with
    | .solved => .ok (some s)
    | .clash => .ok none
    | .bind x t rest =>
      match budget with
      | 0 => .error {}
      | budget + 1 => pursue budget (s.compose x t) (eliminate x t rest)

/-- A unifier of the equations, or `none` if there is none to be found. -/
def unifyEquations (cycles : Cycles) (eqs : List Equation) :
    Except Unsettled (Option Substitution) :=
  match solve .empty eqs with
  | .unified s => .ok (some s)
  | .clash => .ok none
  | .cyclic s x t rest =>
    match cycles with
    | .reject => .ok none
    | .follow budget => pursue budget (s.compose x t) (eliminate x t rest)

end Unification

open Unification in
/-- A simultaneous unifier of two lists of terms, the last pair being taken up first; lists of
different length have none. -/
def unifyLists (cycles : Cycles) (ss ts : List Term) : Except Unsettled (Option Substitution) :=
  if ss.length = ts.length then unifyEquations cycles (argumentEquations ss ts) else .ok none

/-- A unifier of two terms. -/
def unify (cycles : Unification.Cycles) (s t : Term) :
    Except Unification.Unsettled (Option Substitution) :=
  unifyLists cycles [s] [t]

end GivenClause
