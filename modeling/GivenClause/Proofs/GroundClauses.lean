import Mathlib
import GivenClause.Proofs.CycleTreatment

/-!
# Search among ground clauses

Without variables nothing is ever bound.  Unification compares (`unify_ground`), so it settles at
once however cycles are treated, and both modes agree; a fresh copy is the clause itself, an instance
too, and subsumption is inclusion with a comparison of lengths.

Conclusions are made of the literals of their premises and do not repeat any.  So there are bounds
that all clauses of a search keep to, `Within`: the literals of the input, and their number.

A step with something left to select always succeeds (`exists_step_of_ground`).
-/

namespace GivenClause

open Unification

/-! ## Ground lists of literals -/

/-- No variable occurs. -/
def Ground (ls : List Literal) : Prop := varsOf ls = []

instance (ls : List Literal) : Decidable (Ground ls) := inferInstanceAs (Decidable (varsOf ls = []))

lemma Ground.mono {ls ms : List Literal} (h : Ground ms) (hsub : ls ⊆ ms) : Ground ls := by
  rw [Ground] at h ⊢
  exact List.eq_nil_of_subset_nil (h ▸ varsOf_subset hsub)

lemma Ground.vars_atom {ls : List Literal} (h : Ground ls) {l : Literal} (hl : l ∈ ls) :
    l.atom.vars = [] := by
  rw [Ground] at h
  exact List.eq_nil_of_subset_nil fun x hx => h ▸ mem_varsOf hl hx

lemma Ground.bindAll_eq {ls : List Literal} (h : Ground ls) (θ : String → Term) :
    bindAll θ ls = ls := by
  refine (bindAll_congr fun x hx => ?_).trans (bindAll_pure ls)
  rw [Ground] at h
  rw [h] at hx
  cases hx

lemma Ground.eq_of_variant {ls ms : List Literal} (h : Ground ls) (hv : Variant ls ms) :
    ms = ls := by
  obtain ⟨ρ, -, rfl⟩ := hv
  exact h.bindAll_eq _

lemma subsumes_iff_of_ground {ls ms : List Literal} (h : Ground ls) :
    Subsumes ls ms ↔ ls.length ≤ ms.length ∧ ls ⊆ ms := by
  rw [Subsumes]
  refine and_congr_right fun _ => ⟨?_, fun hsub => ⟨.var, ?_⟩⟩
  · rintro ⟨θ, hθ⟩
    rwa [h.bindAll_eq θ] at hθ
  · rwa [h.bindAll_eq]

/-! ## Unification compares -/

lemma reduce_ground {eqs : List Equation} (h : vars eqs = []) :
    reduce eqs = .solved ∨ reduce eqs = .clash := by
  cases hreduce : reduce eqs with
  | solved => exact Or.inl rfl
  | clash => exact Or.inr rfl
  | bind x t rest =>
      have hx := (vars_of_reduce hreduce).1
      rw [h] at hx
      cases hx

/-- **Ground terms unify just if they are equal**, and nothing is bound. -/
theorem unify_ground (cycles : Cycles) {a b : Term} (ha : a.vars = []) (hb : b.vars = []) :
    unify cycles a b = .ok (if a = b then some .empty else none) := by
  have hvars : vars [(a, b)] = [] := by simp [ha, hb]
  have hunifies : a = b ↔ (reduce [(a, b)]).Demands .var := by
    rw [← unifies_iff_demands]
    simp
  show unifyEquations cycles [(a, b)] = _
  rcases reduce_ground hvars with hreduce | hreduce
  · have hsolve : solve .empty [(a, b)] = .unified .empty := by
      rw [solve]
      split <;> simp_all
    rw [hreduce] at hunifies
    rw [if_pos (hunifies.2 trivial)]
    simp only [unifyEquations, hsolve]
  · have hsolve : solve .empty [(a, b)] = .clash := by
      rw [solve]
      split <;> simp_all
    rw [hreduce] at hunifies
    rw [if_neg fun hab => hunifies.1 hab]
    simp only [unifyEquations, hsolve]

/-- Between ground clauses the treatment of cycles plays no role. -/
lemma indifferent_ground : Indifferent Ground := by
  intro ls ms hls hms l hl m hm cycles
  rw [unify_ground cycles (hls.vars_atom hl) (hms.vars_atom hm),
    unify_ground .reject (hls.vars_atom hl) (hms.vars_atom hm)]

/-! ## Bounds -/

/-- A ground conclusion has literals of its premises only. -/
lemma conclusion_subset {rule : String} {σ : Substitution} {rest : List Literal}
    (h : Ground rest) : (conclusion rule σ rest).literals ⊆ rest := by
  intro l hl
  rwa [mem_conclusion, h.bindAll_eq] at hl

/-- Made of given literals, and not of more than there are. -/
def Within (given ls : List Literal) : Prop := ls ⊆ given ∧ ls.length ≤ given.length

lemma Within.of_nodup {given ls : List Literal} (hnodup : ls.Nodup) (hsub : ls ⊆ given) :
    Within given ls := ⟨hsub, (hnodup.subperm hsub).length_le⟩

/-- **Ground clauses stay within bounds.** -/
theorem inherited_within (cycles : Cycles) {given : List Literal} (hground : Ground given) :
    Search.Inherited cycles (Within given) where
  copy := by
    intro ls ms hvariant hls
    rwa [(hground.mono hls.1).eq_of_variant hvariant]
  factor := by
    intro c r i j _ hc hr
    obtain ⟨-, -, σ, -, -, -, -, rfl⟩ := factor_eq_some_iff.1 hr
    have hrest : c.literals.eraseIdx j ⊆ given :=
      List.Subset.trans List.eraseIdx_subset hc.1
    exact .of_nodup (nodup_conclusion _ _ _)
      (List.Subset.trans (conclusion_subset (hground.mono hrest)) hrest)
  resolve := by
    intro c d r i j hc hd hr
    obtain ⟨-, -, σ, -, -, -, -, rfl⟩ := resolve_eq_some_iff.1 hr
    have hrest : c.literals.eraseIdx i ++ d.literals.eraseIdx j ⊆ given :=
      List.append_subset.2 ⟨List.Subset.trans List.eraseIdx_subset hc.1,
        List.Subset.trans List.eraseIdx_subset hd.1⟩
    exact .of_nodup (nodup_conclusion _ _ _)
      (List.Subset.trans (conclusion_subset (hground.mono hrest)) hrest)

lemma indifferent_within {given : List Literal} (hground : Ground given) :
    Indifferent (Within given) := indifferent_ground.mono fun hls => hground.mono hls.1

/-- Among ground clauses validity is inherited also without the occurs check. -/
theorem inherited_valid_within (cycles : Cycles) {given : List Literal} (hground : Ground given)
    {D : Type} (I : Interpretation D) :
    Search.Inherited cycles fun ls => Within given ls ∧ I.Validates ls :=
  (indifferent_within hground).inherited_validates (inherited_within cycles hground) I

/-- **Among ground clauses a step succeeds** if there is a clause to select. -/
theorem exists_step_of_ground {s : Search.State} (h : Search.Everywhere Ground s)
    (hne : s.unprocessed.isEmpty = false) : ∃ r, s.step = .ok r :=
  indifferent_ground.exists_step h (fun hvariant hls => (hls.eq_of_variant hvariant).symm ▸ hls) hne

end GivenClause
