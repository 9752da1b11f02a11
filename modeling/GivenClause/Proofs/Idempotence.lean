import Mathlib
import GivenClause.Proofs.Backtracking

/-!
# Composition and idempotence

Applying a substitution does not look into the terms that it puts in, so applying it twice may do more
than applying it once.  It does not exactly if the variables in the values stand for themselves
(`idempotent_iff`).

Composing a binding rewrites the values, drops bindings and may append one, but on terms it is plain
composition (`apply_compose`).  A binding whose term has no bound variable and does not contain its own
variable brings in only variables that stand for themselves, and takes its own variable out of all
values, so that the substitution stays idempotent (`Idempotent.compose`).
-/

namespace GivenClause.Substitution

variable {s : Substitution}

lemma value_ofList_singleton (x y : String) (t : Term) :
    (ofList [(x, t)]).value y = if y = x then t else .var y := by
  show (empty.add x t).value y = _
  rw [value_add rfl, value_empty]

/-- A substitution with a single binding replaces its variable. -/
lemma apply_ofList_singleton (x : String) (t u : Term) :
    (ofList [(x, t)]).apply u = u.replace x t :=
  Term.bind_congr fun y _ => value_ofList_singleton x y t

lemma apply_compose (hs : s.Distinct) (x : String) (t u : Term) :
    (s.compose x t).apply u = (s.apply u).replace x t := by
  rw [apply, apply, Term.replace, Term.bind_bind]
  exact Term.bind_congr fun y _ => value_compose hs x y t

/-! ## Idempotent substitutions -/

/-- Applying the substitution once more changes nothing. -/
def Idempotent (s : Substitution) : Prop := ∀ u, s.apply (s.apply u) = s.apply u

/-- **A substitution is idempotent exactly if the variables in its values stand for themselves.** -/
theorem idempotent_iff :
    s.Idempotent ↔ ∀ x, ∀ y ∈ (s.value x).vars, s.value y = .var y := by
  constructor
  · intro h x y hy
    exact Term.eq_var_of_bind_eq_self (h (.var x)) hy
  · intro h u
    rw [apply, apply, Term.bind_bind]
    refine Term.bind_congr fun x _ => ?_
    calc (s.value x).bind s.value
        = (s.value x).bind .var := Term.bind_congr (h x)
      _ = s.value x := Term.bind_pure _

/-- A variable of a rewritten value comes from `t`, or it was in the old value and is not `x`.  In both
cases it stood for itself, and as it is not `x` it still does. -/
lemma Idempotent.compose (h : s.Idempotent) (hs : s.Distinct) {x : String} {t : Term}
    (hx : x ∉ t.vars) (hfree : ∀ y ∈ t.vars, s.binds y = false) : (s.compose x t).Idempotent := by
  rw [idempotent_iff] at h ⊢
  intro z y hy
  rw [value_compose hs] at hy ⊢
  have hself : y ≠ x ∧ s.value y = .var y := by
    rcases Term.mem_vars_replace hy with hy | ⟨hyx, hy⟩
    · exact ⟨fun e => hx (e ▸ hy), value_of_not_binds (hfree y hy)⟩
    · exact ⟨hyx, h z y hy⟩
  rw [hself.2, Term.replace_var, if_neg hself.1]

/-- **Composing a binding is composition.**  Take any substitution that the operations can make.  After
`x<-t` has been composed into it, applying it is applying the old one and then `x<-t` alone.  If the old
one is idempotent, `x` is unbound, and `t` contains neither `x` nor a bound variable, then the new one is
idempotent as well. -/
theorem composing_is_composition (built : s.Built) (x : String) (t : Term) :
    (∀ u, (s.compose x t).apply u = (ofList [(x, t)]).apply (s.apply u)) ∧
    (s.Idempotent → s.binds x = false → x ∉ t.vars → (∀ y ∈ t.vars, s.binds y = false) →
      (s.compose x t).Idempotent) := by
  constructor
  · intro u
    rw [apply_ofList_singleton]
    exact apply_compose built.distinct x t u
  · intro hidempotent _ hx hfree
    exact hidempotent.compose built.distinct hx hfree

/-- `{Y<-f(Z),X<-X}`. -/
def heldFast : Substitution := (ofList [("Y", .app "f" [.var "Z"])]).insert "X" (.var "X")

/-- `g(W)`. -/
def imported : Term := .app "g" [.var "W"]

lemma heldFast_idempotent : heldFast.Idempotent := by
  rw [idempotent_iff]
  intro x y hy
  rw [heldFast, value_insert, value_ofList_singleton] at hy ⊢
  split_ifs at hy <;> simp_all

/-- `Z<-g(W)` is pushed into the value of `Y`, drops `X<-X` and is appended.  When `Y<-Z` is followed by
`Z<-Y`, the binding of `Y` is dropped, and `Z<-Y` takes both variables to `Y`. -/
theorem heldFast_composed :
    heldFast.Built ∧
    (heldFast.compose "Z" imported).bindings = [("Y", .app "f" [imported]), ("Z", imported)] ∧
    (heldFast.compose "Z" imported).Idempotent ∧
    ((ofList [("Y", .var "Z")]).compose "Z" (.var "Y")).bindings = [("Z", .var "Y")] ∧
    ∀ u, ((ofList [("Y", .var "Z")]).compose "Z" (.var "Y")).apply u
      = (ofList [("Z", .var "Y")]).apply ((ofList [("Y", .var "Z")]).apply u) := by
  have hbuilt : heldFast.Built := .insert (.ofList _) _ _
  obtain ⟨-, hkept⟩ := composing_is_composition hbuilt "Z" imported
  obtain ⟨hswap, -⟩ := composing_is_composition (.ofList [("Y", .var "Z")]) "Z" (.var "Y")
  exact ⟨hbuilt, by decide +kernel, hkept heldFast_idempotent (by decide) (by decide) (by decide),
    by decide +kernel, hswap⟩

end GivenClause.Substitution
