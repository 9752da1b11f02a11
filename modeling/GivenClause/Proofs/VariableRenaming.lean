import Mathlib
import GivenClause.Proofs.Instances

/-!
# Renaming variables by permutations

A renaming that keeps the variables of a clause different can be continued to a permutation of all
names, since a clause has finitely many variables and there are infinitely many names
(`exists_perm_of_injOn`).  For permutations there is no bookkeeping of which variables occur: terms
are renamed injectively, and every operation can be asked to commute with the renaming.

So variants are clauses that differ by a permutation (`Variant.exists_perm`).  Two pairs of variants
whose members have no variable in common differ by one and the same permutation
(`Variant.exists_perm_of_disjoint`); this is why premises have to be renamed apart.
-/

namespace GivenClause

/-- Every variable replaced by the variable that the permutation takes it to. -/
def relabel (π : Equiv.Perm String) (x : String) : Term := .var (π x)

@[simp] lemma relabel_apply (π : Equiv.Perm String) (x : String) : relabel π x = .var (π x) := rfl

namespace Term

variable (π : Equiv.Perm String)

lemma bind_relabel_symm (t : Term) : (t.bind (relabel π)).bind (relabel π.symm) = t := by
  rw [bind_bind]
  refine (bind_congr fun x _ => ?_).trans (bind_pure t)
  simp

lemma bind_relabel_injective : Function.Injective (bind (relabel π)) := by
  intro s t h
  rw [← bind_relabel_symm π s, h, bind_relabel_symm]

@[simp] lemma bind_relabel_inj {s t : Term} :
    s.bind (relabel π) = t.bind (relabel π) ↔ s = t := (bind_relabel_injective π).eq_iff

lemma mem_vars_bind_relabel {t : Term} {x : String} :
    π x ∈ (t.bind (relabel π)).vars ↔ x ∈ t.vars := by
  rw [vars_bind, List.mem_flatMap]
  simp

/-- Renaming goes through the replacement of a variable. -/
lemma bind_relabel_replace (u : Term) (x : String) (t : Term) :
    (u.replace x t).bind (relabel π)
      = (u.bind (relabel π)).replace (π x) (t.bind (relabel π)) := by
  rw [replace, replace, bind_bind, bind_bind]
  refine bind_congr fun y _ => ?_
  by_cases h : y = x <;> simp [h]

/-- A renamed term weighs the same: only the number of variables counts. -/
lemma weight_bind_relabel (perSymbol perVariable : ℤ) (t : Term) :
    (t.bind (relabel π)).weight perSymbol perVariable = t.weight perSymbol perVariable := by
  induction t with
  | var x => rfl
  | app f args ih =>
      rw [bind_app, weight, weight]
      congr 1
      induction args with
      | nil => rfl
      | cons t ts ihts =>
          rw [List.map_cons, weightList, weightList, ih t List.mem_cons_self,
            ihts fun s hs => ih s (List.mem_cons_of_mem t hs)]

end Term

lemma Literal.bind_relabel_injective (π : Equiv.Perm String) :
    Function.Injective (Literal.bind (relabel π)) := by
  intro l m h
  have hsign : l.positive = m.positive := by simpa using congrArg Literal.positive h
  refine Literal.eq_of_atom_eq hsign (Term.bind_relabel_injective π ?_)
  rw [← Literal.atom_bind, ← Literal.atom_bind, h]

lemma Literal.weight_bind_relabel (π : Equiv.Perm String) (perSymbol perVariable : ℤ) (l : Literal) :
    (l.bind (relabel π)).weight perSymbol perVariable = l.weight perSymbol perVariable := by
  rw [Literal.weight, Literal.atom_bind, Term.weight_bind_relabel, Literal.weight]

lemma Literal.signature_bind (σ : String → Term) (l : Literal) :
    (l.bind σ).signature = l.signature := by
  simp [Literal.signature, Literal.bind]

/-! ## Variants -/

/-- **A renaming of finitely many variables is part of a permutation of all names.** -/
theorem exists_perm_of_injOn {ρ : String → String} {xs : List String}
    (h : Set.InjOn ρ {x | x ∈ xs}) : ∃ π : Equiv.Perm String, ∀ x ∈ xs, π x = ρ x := by
  have hfinite : {x | x ∈ xs}.Finite := List.finite_toSet xs
  have hsmall : Cardinal.mk {x | x ∈ xs} < Cardinal.mk String :=
    hfinite.lt_aleph0.trans_le (Cardinal.aleph0_le_mk String)
  obtain ⟨π, hπ⟩ := Cardinal.extend_function_of_lt ⟨_, Set.injOn_iff_injective.1 h⟩ hsmall
    ⟨Equiv.refl String⟩
  exact ⟨π, fun x hx => hπ ⟨x, hx⟩⟩

lemma variant_bindAll_relabel (π : Equiv.Perm String) (ls : List Literal) :
    Variant ls (bindAll (relabel π) ls) := ⟨π, π.injective.injOn, rfl⟩

theorem Variant.exists_perm {ls ms : List Literal} (h : Variant ls ms) :
    ∃ π : Equiv.Perm String, ms = bindAll (relabel π) ls := by
  obtain ⟨ρ, hρ, rfl⟩ := h
  obtain ⟨π, hπ⟩ := exists_perm_of_injOn hρ
  refine ⟨π, bindAll_congr fun x hx => ?_⟩
  rw [relabel_apply, hπ x hx]

lemma Variant.symm {ls ms : List Literal} (h : Variant ls ms) : Variant ms ls := by
  obtain ⟨π, rfl⟩ := h.exists_perm
  have hback : bindAll (relabel π.symm) (bindAll (relabel π) ls) = ls := by
    rw [bindAll_bindAll]
    refine (bindAll_congr fun x _ => ?_).trans (bindAll_pure ls)
    simp
  nth_rewrite 2 [← hback]
  exact variant_bindAll_relabel π.symm _

/-- **One permutation for two clauses.**  It exists if neither the two clauses nor their variants have
a variable in common: then the two renamings together are still injective. -/
theorem Variant.exists_perm_of_disjoint {ls ms ls' ms' : List Literal} (h : Variant ls ms)
    (h' : Variant ls' ms') (hls : ∀ x ∈ varsOf ls, x ∉ varsOf ls')
    (hms : ∀ x ∈ varsOf ms, x ∉ varsOf ms') :
    ∃ π : Equiv.Perm String, ms = bindAll (relabel π) ls ∧ ms' = bindAll (relabel π) ls' := by
  obtain ⟨π, rfl⟩ := h.exists_perm
  obtain ⟨π', rfl⟩ := h'.exists_perm
  let ρ : String → String := fun x => if x ∈ varsOf ls then π x else π' x
  -- a variable of the first clause and one of the second go to different names
  have hcross : ∀ x ∈ varsOf ls, ∀ y ∈ varsOf ls', π x ≠ π' y := by
    intro x hx y hy hxy
    refine hms (π x) ?_ ?_
    · exact mem_varsOf_bindAll.2 ⟨x, hx, by simp⟩
    · exact mem_varsOf_bindAll.2 ⟨y, hy, by simp [hxy]⟩
  have hρ : Set.InjOn ρ {x | x ∈ varsOf ls ++ varsOf ls'} := by
    intro x hx y hy hxy
    simp only [Set.mem_ofPred_eq, List.mem_append] at hx hy
    by_cases hxl : x ∈ varsOf ls <;> by_cases hyl : y ∈ varsOf ls
    · simpa [ρ, hxl, hyl] using hxy
    · exact absurd (by simpa [ρ, hxl, hyl] using hxy) (hcross x hxl y (hy.resolve_left hyl))
    · exact absurd (by simpa [ρ, hxl, hyl] using hxy.symm) (hcross y hyl x (hx.resolve_left hxl))
    · simpa [ρ, hxl, hyl] using hxy
  obtain ⟨τ, hτ⟩ := exists_perm_of_injOn hρ
  refine ⟨τ, bindAll_congr fun x hx => ?_, bindAll_congr fun x hx => ?_⟩
  · rw [relabel_apply, relabel_apply, hτ x (List.mem_append_left _ hx)]
    simp [ρ, hx]
  · have hxl : x ∉ varsOf ls := fun hxl => hls x hxl hx
    rw [relabel_apply, relabel_apply, hτ x (List.mem_append_right _ hx)]
    simp [ρ, hxl]

end GivenClause
