import Mathlib
import GivenClause.Proofs.Instances

/-!
# What clauses mean

An interpretation gives every function symbol a function on a domain and every predicate symbol a
relation.  Symbols take lists of arguments, so a symbol that is used with several arities has
several meanings.  No predicate is special: `=`, `$true` and `$false` mean whatever the
interpretation says.

A clause is valid in an interpretation if some literal of it holds under each valuation of the
variables, and clauses are satisfiable if some interpretation makes them all valid.

The rules of the search are sound for validity: instances of valid clauses are valid
(`Validates.bindAll`), more literals do no harm (`Validates.mono`), and what is left of two valid
clauses behind a complementary pair is valid (`Validates.cut`).
-/

universe u

namespace GivenClause

/-- The meaning of function and predicate symbols over a domain. -/
structure Interpretation (D : Type u) where
  function : String → List D → D
  predicate : String → List D → Prop

namespace Term

variable {D : Type u}

mutual

/-- The value of a term under a valuation of its variables. -/
def eval (I : Interpretation D) (v : String → D) : Term → D
  | .var x => v x
  | .app f args => I.function f (evalList I v args)

/-- The values of an argument list. -/
def evalList (I : Interpretation D) (v : String → D) : List Term → List D
  | [] => []
  | t :: ts => eval I v t :: evalList I v ts

end

lemma evalList_eq_map (I : Interpretation D) (v : String → D) (ts : List Term) :
    evalList I v ts = ts.map (eval I v) := by
  induction ts with
  | nil => rfl
  | cons t ts ih => rw [evalList, ih, List.map_cons]

@[simp] lemma eval_var (I : Interpretation D) (v : String → D) (x : String) :
    (Term.var x).eval I v = v x := rfl

@[simp] lemma eval_app (I : Interpretation D) (v : String → D) (f : String) (args : List Term) :
    (Term.app f args).eval I v = I.function f (args.map (eval I v)) := by
  rw [eval, evalList_eq_map]

/-- Replacing variables is evaluating under the values of what replaces them. -/
lemma eval_bind (I : Interpretation D) (v : String → D) (σ : String → Term) (t : Term) :
    (t.bind σ).eval I v = t.eval I fun x => (σ x).eval I v := by
  induction t with
  | var x => rfl
  | app f args ih =>
      rw [bind_app, eval_app, eval_app, List.map_map]
      exact congrArg _ (List.map_congr_left ih)

end Term

variable {D : Type u}

/-- An affirmed atom holds if its predicate does, a denied one if it does not. -/
def Literal.Holds (I : Interpretation D) (v : String → D) (l : Literal) : Prop :=
  if l.positive then I.predicate l.predicate (l.args.map (Term.eval I v))
  else ¬ I.predicate l.predicate (l.args.map (Term.eval I v))

/-- Under every valuation some literal of the clause holds. -/
def Interpretation.Validates (I : Interpretation D) (ls : List Literal) : Prop :=
  ∀ v : String → D, ∃ l ∈ ls, l.Holds I v

/-- Some interpretation over a domain that is not empty makes all clauses valid. -/
def Satisfiable (clauses : List Clause) : Prop :=
  ∃ (D : Type u) (I : Interpretation D), Nonempty D ∧ ∀ c ∈ clauses, I.Validates c.literals

namespace Literal

lemma holds_bind (I : Interpretation D) (v : String → D) (σ : String → Term) (l : Literal) :
    (l.bind σ).Holds I v ↔ l.Holds I fun x => (σ x).eval I v := by
  have hargs : (l.bind σ).args.map (Term.eval I v)
      = l.args.map (Term.eval I fun x => (σ x).eval I v) := by
    rw [bind, List.map_map]
    exact List.map_congr_left fun t _ => Term.eval_bind I v σ t
  rw [Holds, Holds, hargs]
  rfl

/-- Literals with the same atom and different signs do not hold together. -/
lemma not_holds_of_opposite {I : Interpretation D} {v : String → D} {l m : Literal}
    (hsign : l.positive ≠ m.positive) (hatom : l.atom = m.atom) (hl : l.Holds I v) :
    ¬ m.Holds I v := by
  obtain ⟨p, f, args⟩ := l
  obtain ⟨q, g, args'⟩ := m
  obtain ⟨rfl, rfl⟩ := Term.app.inj hatom
  cases p <;> cases q <;> simp_all [Holds]

end Literal

namespace Interpretation.Validates

variable {I : Interpretation D} {ls ms : List Literal}

lemma mono (h : I.Validates ls) (hsub : ls ⊆ ms) : I.Validates ms := by
  intro v
  obtain ⟨l, hl, hv⟩ := h v
  exact ⟨l, hsub hl, hv⟩

lemma bindAll (h : I.Validates ls) (σ : String → Term) : I.Validates (bindAll σ ls) := by
  intro v
  obtain ⟨l, hl, hv⟩ := h fun x => (σ x).eval I v
  exact ⟨l.bind σ, mem_bindAll_of_mem σ hl, (Literal.holds_bind I v σ l).2 hv⟩

lemma ne_nil [Nonempty D] (h : I.Validates ls) : ls ≠ [] := by
  rintro rfl
  obtain ⟨l, hl, -⟩ := h fun _ => Classical.arbitrary D
  cases hl

/-- **Cutting a complementary pair.**  Of two valid lists, one with `l` and one with its opposite,
the other members together are valid: `l` and `m` do not both hold. -/
lemma cut {l m : Literal} {rest : List Literal} (hls : I.Validates ls) (hms : I.Validates ms)
    (hsign : l.positive ≠ m.positive) (hatom : l.atom = m.atom)
    (hl : ∀ x ∈ ls, x = l ∨ x ∈ rest) (hm : ∀ x ∈ ms, x = m ∨ x ∈ rest) : I.Validates rest := by
  intro v
  obtain ⟨x, hx, hxv⟩ := hls v
  rcases hl x hx with rfl | hx
  · obtain ⟨y, hy, hyv⟩ := hms v
    rcases hm y hy with rfl | hy
    · exact absurd hyv (Literal.not_holds_of_opposite hsign hatom hxv)
    · exact ⟨y, hy, hyv⟩
  · exact ⟨x, hx, hxv⟩

end Interpretation.Validates

end GivenClause
