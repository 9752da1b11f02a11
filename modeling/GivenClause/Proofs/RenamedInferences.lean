import Mathlib
import GivenClause.Proofs.Computations
import GivenClause.Proofs.Conclusions
import GivenClause.Proofs.VariableRenaming

/-!
# Inferences from renamed clauses

Unification compares symbols, and asks of variables only whether they are the same.  So if all terms
are relabelled by a permutation of the names, it makes the same moves and ends in the same way
(`unify_relabel`); what it binds is what it would have bound, relabelled (`Relabelled`).

It follows that a rule applied to variants has variants as conclusions: `factor_alike` for a single
clause, and `resolve_alike` for two clauses that have been renamed apart, in both cases.  Whatever is
done with the conclusions, name and support are not touched by this.
-/

namespace GivenClause

namespace Unification

variable (π : Equiv.Perm String)

/-! ## Taking apart -/

/-- Both sides of every equation relabelled. -/
def relabelAll (eqs : List Equation) : List Equation :=
  eqs.map fun e => (e.1.bind (relabel π), e.2.bind (relabel π))

@[simp] lemma relabelAll_nil : relabelAll π [] = [] := rfl

@[simp] lemma relabelAll_cons (s t : Term) (eqs : List Equation) :
    relabelAll π ((s, t) :: eqs) = (s.bind (relabel π), t.bind (relabel π)) :: relabelAll π eqs := rfl

lemma relabelAll_append (eqs eqs' : List Equation) :
    relabelAll π (eqs ++ eqs') = relabelAll π eqs ++ relabelAll π eqs' := by
  simp [relabelAll]

lemma relabelAll_argumentEquations (ss ts : List Term) :
    relabelAll π (argumentEquations ss ts)
      = argumentEquations (ss.map (Term.bind (relabel π))) (ts.map (Term.bind (relabel π))) := by
  simp [relabelAll, argumentEquations, List.zip_map, Prod.map]

lemma relabelAll_eliminate (x : String) (t : Term) (eqs : List Equation) :
    relabelAll π (eliminate x t eqs)
      = eliminate (π x) (t.bind (relabel π)) (relabelAll π eqs) := by
  simp [relabelAll, eliminate, Term.bind_relabel_replace]

/-- What is left, relabelled. -/
def Reduced.relabel : Reduced → Reduced
  | .solved => .solved
  | .clash => .clash
  | .bind x t rest => .bind (π x) (t.bind (GivenClause.relabel π)) (relabelAll π rest)

/-- **Relabelled equations come down to the same, relabelled.** -/
theorem reduce_relabelAll (eqs : List Equation) :
    reduce (relabelAll π eqs) = (reduce eqs).relabel π := by
  fun_induction reduce eqs with
  | case1 => simp [reduce, Reduced.relabel]
  | case2 t rest ih => rw [relabelAll_cons, reduce_cons_self, ih]
  | case3 rest x t hne =>
      rw [← Term.bind_relabel_inj π, Term.bind_var, relabel_apply] at hne
      rw [relabelAll_cons, Term.bind_var, relabel_apply, reduce, if_neg hne, Reduced.relabel]
  | case4 rest f ss y hne =>
      rw [relabelAll_cons, Term.bind_app, Term.bind_var, relabel_apply, reduce, if_neg (by simp),
        Reduced.relabel, Term.bind_app]
  | case5 rest f ss g ts hsame hne ih =>
      rw [← Term.bind_relabel_inj π, Term.bind_app, Term.bind_app] at hne
      rw [relabelAll_cons, Term.bind_app, Term.bind_app, reduce, if_neg hne, ← ih]
      simp only [List.length_map, if_pos hsame, relabelAll_append, relabelAll_argumentEquations]
  | case6 rest f ss g ts hdiffer hne =>
      rw [← Term.bind_relabel_inj π, Term.bind_app, Term.bind_app] at hne
      rw [relabelAll_cons, Term.bind_app, Term.bind_app, reduce, if_neg hne]
      simp only [List.length_map, if_neg hdiffer, Reduced.relabel]

/-! ## Binding -/

lemma solve_of_solved {eqs : List Equation} (s : Substitution) (h : reduce eqs = .solved) :
    solve s eqs = .unified s := by
  rw [solve]
  split <;> simp_all

lemma solve_of_clash {eqs : List Equation} (s : Substitution) (h : reduce eqs = .clash) :
    solve s eqs = .clash := by
  rw [solve]
  split <;> simp_all

lemma solve_of_bind {eqs rest : List Equation} {x : String} {t : Term} (s : Substitution)
    (h : reduce eqs = .bind x t rest) :
    solve s eqs = if x ∈ t.vars then .cyclic s x t rest
      else solve (s.compose x t) (eliminate x t rest) := by
  rw [solve]
  split <;> simp_all

/-- The second substitution does to relabelled terms what the first does to terms. -/
structure Relabelled (s s' : Substitution) : Prop where
  distinct : s.Distinct
  distinct' : s'.Distinct
  value : ∀ x, s'.value (π x) = (s.value x).bind (relabel π)

lemma relabelled_empty : Relabelled π .empty .empty where
  distinct := Substitution.distinct_empty
  distinct' := Substitution.distinct_empty
  value := by simp

variable {π}

lemma Relabelled.compose {s s' : Substitution} (h : Relabelled π s s') (x : String) (t : Term) :
    Relabelled π (s.compose x t) (s'.compose (π x) (t.bind (relabel π))) where
  distinct := h.distinct.compose x t
  distinct' := h.distinct'.compose _ _
  value := by
    intro y
    rw [Substitution.value_compose h.distinct', Substitution.value_compose h.distinct, h.value,
      Term.bind_relabel_replace]

/-- The same ending, with everything relabelled. -/
inductive SameEnding (π : Equiv.Perm String) : Outcome → Outcome → Prop
  | unified {s s' : Substitution} (h : Relabelled π s s') : SameEnding π (.unified s) (.unified s')
  | clash : SameEnding π .clash .clash
  | cyclic {s s' : Substitution} (h : Relabelled π s s') (x : String) (t : Term)
      (rest : List Equation) : SameEnding π (.cyclic s x t rest)
        (.cyclic s' (π x) (t.bind (relabel π)) (relabelAll π rest))

theorem solve_relabelAll {s s' : Substitution} (h : Relabelled π s s') (eqs : List Equation) :
    SameEnding π (solve s eqs) (solve s' (relabelAll π eqs)) := by
  fun_induction solve s eqs generalizing s' with
  | case1 s eqs hreduce =>
      rw [solve_of_solved s' (by rw [reduce_relabelAll, hreduce]; rfl)]
      exact .unified h
  | case2 s eqs hreduce =>
      rw [solve_of_clash s' (by rw [reduce_relabelAll, hreduce]; rfl)]
      exact .clash
  | case3 s eqs x t rest hreduce hoccurs =>
      rw [solve_of_bind s' (by rw [reduce_relabelAll, hreduce]; rfl),
        if_pos ((Term.mem_vars_bind_relabel π).2 hoccurs)]
      exact .cyclic h x t rest
  | case4 s eqs x t rest hreduce hoccurs ih =>
      rw [solve_of_bind s' (by rw [reduce_relabelAll, hreduce]; rfl),
        if_neg (mt (Term.mem_vars_bind_relabel π).1 hoccurs), ← relabelAll_eliminate]
      exact ih (h.compose x t)

theorem pursue_relabelAll (budget : ℕ) {s s' : Substitution} (h : Relabelled π s s')
    (eqs : List Equation) :
    Parallel (Option.Rel (Relabelled π)) (pursue budget s eqs)
      (pursue budget s' (relabelAll π eqs)) := by
  induction budget generalizing s s' eqs with
  | zero =>
      rw [pursue, pursue, reduce_relabelAll]
      cases reduce eqs with
      | solved => exact Option.Rel.some h
      | clash => exact Option.Rel.none
      | bind x t rest => rfl
  | succ budget ih =>
      rw [pursue, pursue, reduce_relabelAll]
      cases reduce eqs with
      | solved => exact Option.Rel.some h
      | clash => exact Option.Rel.none
      | bind x t rest =>
          simp only [Reduced.relabel]
          rw [← relabelAll_eliminate]
          exact ih (h.compose x t) _

end Unification

open Unification

/-- **Unification does not look at names.**  Relabelled terms have the relabelled unifier. -/
theorem unify_relabel (π : Equiv.Perm String) (cycles : Cycles) (a b : Term) :
    Parallel (Option.Rel (Relabelled π)) (unify cycles a b)
      (unify cycles (a.bind (relabel π)) (b.bind (relabel π))) := by
  show Parallel _ (unifyEquations cycles [(a, b)]) (unifyEquations cycles (relabelAll π [(a, b)]))
  have hends := solve_relabelAll (relabelled_empty π) [(a, b)]
  rw [unifyEquations, unifyEquations]
  generalize solve .empty [(a, b)] = ending at hends
  generalize solve .empty (relabelAll π [(a, b)]) = ending' at hends
  cases hends with
  | unified h => exact Option.Rel.some h
  | clash => exact Option.Rel.none
  | cyclic h x t rest =>
      cases cycles with
      | reject => exact Option.Rel.none
      | follow budget =>
          simp only
          rw [← relabelAll_eliminate]
          exact pursue_relabelAll budget (h.compose x t) _

/-! ## Conclusions -/

lemma Clause.dropRepeated_map {f : Literal → Literal} (hf : Function.Injective f)
    (seen ls : List Literal) :
    dropRepeated (seen.map f) (ls.map f) = (dropRepeated seen ls).map f := by
  induction ls generalizing seen with
  | nil => rfl
  | cons l ls ih =>
      simp only [List.map_cons, dropRepeated, List.mem_map_of_injective hf]
      split_ifs
      · exact ih seen
      · rw [List.map_cons, ← ih, List.map_cons]

/-- Relabelled literals under the relabelled unifier have the relabelled conclusion. -/
lemma literals_conclusion_relabel {π : Equiv.Perm String} {σ σ' : Substitution}
    (h : Relabelled π σ σ') (rule : String) (rest : List Literal) :
    (conclusion rule σ' (bindAll (relabel π) rest)).literals
      = bindAll (relabel π) (conclusion rule σ rest).literals := by
  have hrest : (bindAll (relabel π) rest).map (Literal.instantiate σ')
      = (rest.map (Literal.instantiate σ)).map (Literal.bind (relabel π)) := by
    show bindAll σ'.value (bindAll (relabel π) rest) = bindAll (relabel π) (bindAll σ.value rest)
    rw [bindAll_bindAll, bindAll_bindAll]
    exact bindAll_congr fun x _ => h.value x
  show Clause.dropRepeated [] _ = List.map _ (Clause.dropRepeated [] _)
  rw [hrest]
  exact Clause.dropRepeated_map (Literal.bind_relabel_injective π) [] _

/-- The same clause but for the names of its variables.  The unifier, which is only kept for the
record, is not compared. -/
structure Alike (c d : Clause) : Prop where
  name : c.name = d.name
  role : c.role = d.role
  support : c.support = d.support
  rationale : c.rationale = d.rationale
  literals : Variant c.literals d.literals

lemma alike_conclusion {π : Equiv.Perm String} {σ σ' : Substitution} (h : Relabelled π σ σ')
    (rule : String) (rest : List Literal) :
    Alike (conclusion rule σ rest) (conclusion rule σ' (bindAll (relabel π) rest)) where
  name := rfl
  role := rfl
  support := rfl
  rationale := rfl
  literals := by
    rw [literals_conclusion_relabel h]
    exact variant_bindAll_relabel π _

/-! ## The rules -/

lemma rel_map_some {α β γ δ : Type} {R : α → β → Prop} {S : γ → δ → Prop} {f : α → γ} {g : β → δ}
    {x : Option α} {y : Option β} (h : Option.Rel R x y) (hfg : ∀ a b, R a b → S (f a) (g b)) :
    Option.Rel S (x.map f) (y.map g) := by
  cases h with
  | some hab => exact Option.Rel.some (hfg _ _ hab)
  | none => exact Option.Rel.none

lemma getElem?_bindAll (σ : String → Term) (ls : List Literal) (i : ℕ) :
    (bindAll σ ls)[i]? = ls[i]?.map (Literal.bind σ) := List.getElem?_map

lemma eraseIdx_bindAll (σ : String → Term) (ls : List Literal) (i : ℕ) :
    (bindAll σ ls).eraseIdx i = bindAll σ (ls.eraseIdx i) := List.eraseIdx_map _ _ _

lemma factorOn_relabel (π : Equiv.Perm String) (cycles : Cycles) (l m : Literal)
    (rest : List Literal) :
    Parallel (Option.Rel Alike) (factorOn cycles l m rest)
      (factorOn cycles (l.bind (relabel π)) (m.bind (relabel π)) (bindAll (relabel π) rest)) := by
  simp only [factorOn, Literal.positive_bind, Literal.atom_bind]
  split_ifs
  · refine (unify_relabel π cycles l.atom m.atom).bind fun σ σ' h => ?_
    exact rel_map_some h fun σ σ' h => alike_conclusion h "factor" rest
  · exact Option.Rel.none

lemma resolveOn_relabel (π : Equiv.Perm String) (cycles : Cycles) (l m : Literal)
    (rest : List Literal) :
    Parallel (Option.Rel Alike) (resolveOn cycles l m rest)
      (resolveOn cycles (l.bind (relabel π)) (m.bind (relabel π)) (bindAll (relabel π) rest)) := by
  simp only [resolveOn, Literal.positive_bind, Literal.atom_bind]
  split_ifs
  · exact Option.Rel.none
  · refine (unify_relabel π cycles l.atom m.atom).bind fun σ σ' h => ?_
    exact rel_map_some h fun σ σ' h => alike_conclusion h "resolution" rest

/-- **Variants have the same factors**, up to the names of variables. -/
theorem factor_alike (cycles : Cycles) {c c' : Clause} (h : Variant c.literals c'.literals)
    (i j : ℕ) : Parallel (Option.Rel Alike) (factor cycles c i j) (factor cycles c' i j) := by
  obtain ⟨π, hπ⟩ := h.exists_perm
  rw [factor, factor, hπ, getElem?_bindAll, getElem?_bindAll, eraseIdx_bindAll]
  cases c.literals[i]? with
  | none => exact Option.Rel.none
  | some l =>
      cases c.literals[j]? with
      | none => exact Option.Rel.none
      | some m => exact factorOn_relabel π cycles l m _

/-- No variable occurs in both clauses. -/
def Clause.ApartFrom (c d : Clause) : Prop := ∀ x ∈ varsOf c.literals, x ∉ varsOf d.literals

/-- **Variants have the same resolvents**, up to the names of variables, if their premises have been
renamed apart. -/
theorem resolve_alike (cycles : Cycles) {c c' d d' : Clause} (hc : Variant c.literals c'.literals)
    (hd : Variant d.literals d'.literals) (hcd : c.ApartFrom d) (hcd' : c'.ApartFrom d') (i j : ℕ) :
    Parallel (Option.Rel Alike) (resolve cycles c i d j) (resolve cycles c' i d' j) := by
  obtain ⟨π, hcπ, hdπ⟩ := hc.exists_perm_of_disjoint hd hcd hcd'
  rw [resolve, resolve, hcπ, hdπ, getElem?_bindAll, getElem?_bindAll, eraseIdx_bindAll,
    eraseIdx_bindAll]
  cases c.literals[i]? with
  | none => exact Option.Rel.none
  | some l =>
      cases d.literals[j]? with
      | none => exact Option.Rel.none
      | some m =>
          have happend := resolveOn_relabel π cycles l m
            (c.literals.eraseIdx i ++ d.literals.eraseIdx j)
          rwa [bindAll, List.map_append] at happend

/-! ## All conclusions -/

namespace NameSupply

/-- Two supplies that issue the same clause names.  Nothing is said about variables. -/
structure Twin (names names' : NameSupply) : Prop where
  clauseStem : names.clauseStem = names'.clauseStem
  clauseCount : names.clauseCount = names'.clauseCount
  taken : names.taken = names'.taken

lemma Twin.freshClause {names names' : NameSupply} (h : Twin names names') :
    names.freshClause.1 = names'.freshClause.1 ∧ Twin names.freshClause.2 names'.freshClause.2 := by
  obtain ⟨stem, _, count, _, taken⟩ := names
  obtain ⟨stem', _, count', _, taken'⟩ := names'
  obtain ⟨rfl, rfl, rfl⟩ := h
  exact ⟨rfl, rfl, rfl, rfl⟩

lemma Twin.assign {names names' : NameSupply} (h : Twin names names') (name : String) :
    (names.assign name).1 = (names'.assign name).1 ∧
      Twin (names.assign name).2 (names'.assign name).2 := by
  rw [NameSupply.assign, NameSupply.assign]
  split_ifs
  · exact h.freshClause
  · obtain ⟨stem, _, count, _, taken⟩ := names
    obtain ⟨stem', _, count', _, taken'⟩ := names'
    obtain ⟨rfl, rfl, rfl⟩ := h
    simp only [claim]
    split_ifs
    · exact ⟨rfl, rfl, rfl, rfl⟩
    · exact ⟨rfl, rfl, rfl, rfl⟩

end NameSupply

open NameSupply

/-- The same clauses but for the names of variables, and supplies that issue the same names. -/
def SameClauses (p q : List Clause × NameSupply) : Prop :=
  List.Forall₂ Alike p.1 q.1 ∧ Twin p.2 q.2

lemma nameConclusions_alike {names names' : NameSupply} (hnames : Twin names names')
    {found found' : List (List String × Option Clause)}
    (h : List.Forall₂ (fun p q => p.1 = q.1 ∧ Option.Rel Alike p.2 q.2) found found') :
    SameClauses (nameConclusions names found) (nameConclusions names' found') := by
  induction h generalizing names names' with
  | nil => exact ⟨.nil, hnames⟩
  | @cons p q rest rest' hpq _ ih =>
      obtain ⟨support, r⟩ := p
      obtain ⟨support', r'⟩ := q
      obtain ⟨hsupport, hr⟩ := hpq
      cases hr with
      | none => exact ih hnames
      | some halike =>
          obtain ⟨hname, hnames'⟩ := hnames.freshClause
          obtain ⟨hrest, htwin⟩ := ih hnames'
          exact ⟨.cons ⟨hname, halike.role, hsupport, halike.rationale, halike.literals⟩ hrest, htwin⟩

/-- **Variants have the same factors, under the same names.** -/
theorem allFactors_alike (cycles : Cycles) {names names' : NameSupply} (hnames : Twin names names')
    {c c' : Clause} (h : Alike c c') :
    Parallel SameClauses (allFactors cycles names c) (allFactors cycles names' c') := by
  rw [allFactors, allFactors, h.literals.length_eq, h.name]
  have hpairs : List.Forall₂ Eq (positionPairs c.literals.length)
      (positionPairs c.literals.length) := List.forall₂_same.2 fun _ _ => rfl
  refine Parallel.bind (Parallel.mapM hpairs ?_) fun found found' hfound =>
    nameConclusions_alike hnames hfound
  rintro ⟨i, j⟩ _ rfl
  exact (factor_alike cycles h.literals i j).bind fun r r' hr => ⟨rfl, hr⟩

/-- Two literals that resolution treats alike when it looks for candidates. -/
def SameShape (l m : Literal) : Prop := l.positive = m.positive ∧ l.signature = m.signature

lemma Variant.sameShape {ls ms : List Literal} (h : Variant ls ms) :
    List.Forall₂ SameShape ls ms := by
  obtain ⟨ρ, -, rfl⟩ := h
  rw [bindAll, List.forall₂_map_right_iff, List.forall₂_same]
  exact fun l _ => ⟨rfl, (Literal.signature_bind _ l).symm⟩

lemma forall₂_zipIdx {α β : Type} {R : α → β → Prop} {xs : List α} {ys : List β}
    (h : List.Forall₂ R xs ys) (n : ℕ) :
    List.Forall₂ (fun p q => R p.1 q.1 ∧ p.2 = q.2) (xs.zipIdx n) (ys.zipIdx n) := by
  induction h generalizing n with
  | nil => exact .nil
  | cons hxy _ ih => exact .cons ⟨hxy, rfl⟩ (ih (n + 1))

/-- The candidates for two literals of the same shape stand at the same places. -/
lemma resolutionCandidates_alike {R : Clause → Clause → Prop} (hR : ∀ d d', R d d' → Alike d d')
    {members members' : List Clause} (hmembers : List.Forall₂ R members members') {l l' : Literal}
    (hl : SameShape l l') :
    List.Forall₂ (fun p q => R p.1 q.1 ∧ p.2 = q.2) (ClauseSet.resolutionCandidates l members)
      (ClauseSet.resolutionCandidates l' members') := by
  refine List.rel_flatMap hmembers fun d d' hd => ?_
  refine List.rel_map (fun p q hpq => ⟨hd, hpq.2⟩)
    (List.rel_filter ?_ (forall₂_zipIdx (hR d d' hd).literals.sameShape 0))
  rintro ⟨m, j⟩ ⟨m', j'⟩ ⟨⟨hsign, hsignature⟩, -⟩
  simp only at hsign hsignature
  simp only [hsign, hsignature, hl.1, hl.2]

/-- **Variants have the same resolvents with variants, under the same names.** -/
theorem allResolvents_alike (cycles : Cycles) {names names' : NameSupply}
    (hnames : Twin names names') {c c' : Clause} (h : Alike c c') {members members' : List Clause}
    (hmembers : List.Forall₂ (fun d d' => Alike d d' ∧ c.ApartFrom d ∧ c'.ApartFrom d')
      members members') :
    Parallel SameClauses (allResolvents cycles names c members)
      (allResolvents cycles names' c' members') := by
  have hcandidates : List.Forall₂
      (fun p q : ℕ × Clause × ℕ => p.1 = q.1 ∧
        (Alike p.2.1 q.2.1 ∧ c.ApartFrom p.2.1 ∧ c'.ApartFrom q.2.1) ∧ p.2.2 = q.2.2)
      (c.literals.zipIdx.flatMap fun p =>
        (ClauseSet.resolutionCandidates p.1 members).map fun q => (p.2, q.1, q.2))
      (c'.literals.zipIdx.flatMap fun p =>
        (ClauseSet.resolutionCandidates p.1 members').map fun q => (p.2, q.1, q.2)) := by
    refine List.rel_flatMap (forall₂_zipIdx h.literals.sameShape 0) fun p q hpq => ?_
    refine List.rel_map (fun p' q' hpq' => ?_)
      (resolutionCandidates_alike (fun _ _ hd => hd.1) hmembers hpq.1)
    exact ⟨hpq.2, hpq'.1, hpq'.2⟩
  rw [allResolvents, allResolvents, h.name]
  refine Parallel.bind (Parallel.mapM hcandidates ?_) fun found found' hfound =>
    nameConclusions_alike hnames hfound
  rintro ⟨i, d, j⟩ ⟨_, d', _⟩ ⟨rfl, ⟨hd, hcd, hcd'⟩, rfl⟩
  refine (resolve_alike cycles h.literals hd.literals hcd hcd' i j).bind fun r r' hr => ⟨?_, hr⟩
  rw [hd.name]

end GivenClause
