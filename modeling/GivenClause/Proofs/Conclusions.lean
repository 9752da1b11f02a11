import Mathlib
import GivenClause.Inference
import GivenClause.Proofs.Computations
import GivenClause.Proofs.Instances
import GivenClause.Proofs.MostGeneralUnifier

/-!
# What resolution and factoring conclude

**Reading off.**  `resolve_eq_some_iff` and `factor_eq_some_iff` say when a rule has a conclusion and
which one; everything else about the rules is derived from these two.

**Lifting.**  If two literals become complementary (or equal) under some map `θ`, the rule applies to
them, and its conclusion under `θ` has exactly the literals that one expects (`resolve_lift`,
`factor_lift`).  The conclusion is the same however cycles are treated, and a factor has fewer
literals than its premise.

**All conclusions.**  `allFactors` and `allResolvents` put every conclusion into their list, and
nothing else (`allFactors_eq`, `allResolvents_eq`).  For resolvents this includes that the
filter on sign, predicate and arity passes over no pair of literals that resolves.
-/

namespace GivenClause

open Unification

/-! ## Repeated literals -/

namespace Clause

lemma mem_dropRepeated {l : Literal} {seen ls : List Literal} :
    l ∈ dropRepeated seen ls ↔ l ∈ ls ∧ l ∉ seen := by
  induction ls generalizing seen with
  | nil => simp [dropRepeated]
  | cons m rest ih =>
      rw [dropRepeated]
      split_ifs with hm
      · rw [ih, List.mem_cons]
        constructor
        · rintro ⟨hl, hseen⟩
          exact ⟨Or.inr hl, hseen⟩
        · rintro ⟨rfl | hl, hseen⟩
          · exact absurd hm hseen
          · exact ⟨hl, hseen⟩
      · rw [List.mem_cons, ih, List.mem_cons, List.mem_cons]
        constructor
        · rintro (rfl | ⟨hl, hseen⟩)
          · exact ⟨Or.inl rfl, hm⟩
          · exact ⟨Or.inr hl, fun h => hseen (Or.inr h)⟩
        · rintro ⟨rfl | hl, hseen⟩
          · exact Or.inl rfl
          · by_cases hlm : l = m
            · exact Or.inl hlm
            · exact Or.inr ⟨hl, fun h => h.elim hlm hseen⟩

lemma length_dropRepeated_le (seen ls : List Literal) :
    (dropRepeated seen ls).length ≤ ls.length := by
  induction ls generalizing seen with
  | nil => simp [dropRepeated]
  | cons m rest ih =>
      rw [dropRepeated]
      split_ifs
      · exact (ih seen).trans (Nat.le_succ _)
      · exact Nat.succ_le_succ (ih _)

lemma nodup_dropRepeated (seen ls : List Literal) : (dropRepeated seen ls).Nodup := by
  induction ls generalizing seen with
  | nil => simp [dropRepeated]
  | cons m rest ih =>
      rw [dropRepeated]
      split_ifs
      · exact ih seen
      · rw [List.nodup_cons]
        refine ⟨fun h => ?_, ih _⟩
        exact (mem_dropRepeated.1 h).2 List.mem_cons_self

end Clause

/-- A conclusion has the remaining literals under the unifier. -/
lemma mem_conclusion {rule : String} {σ : Substitution} {rest : List Literal} {l : Literal} :
    l ∈ (conclusion rule σ rest).literals ↔ l ∈ bindAll σ.value rest := by
  show l ∈ Clause.dropRepeated [] (bindAll σ.value rest) ↔ _
  rw [Clause.mem_dropRepeated]
  simp

lemma length_conclusion_le (rule : String) (σ : Substitution) (rest : List Literal) :
    (conclusion rule σ rest).literals.length ≤ rest.length := by
  have h := Clause.length_dropRepeated_le [] (bindAll σ.value rest)
  rwa [length_bindAll] at h

lemma nodup_conclusion (rule : String) (σ : Substitution) (rest : List Literal) :
    (conclusion rule σ rest).literals.Nodup :=
  Clause.nodup_dropRepeated [] (bindAll σ.value rest)

/-- A map that absorbs the unifier sees in the conclusion just the remaining literals. -/
lemma mem_bindAll_conclusion {rule : String} {σ : Substitution} {rest : List Literal}
    {θ : String → Term} (h : ∀ t : Term, (t.bind σ.value).bind θ = t.bind θ) {l : Literal} :
    l ∈ bindAll θ (conclusion rule σ rest).literals ↔ l ∈ bindAll θ rest := by
  have habsorb : bindAll θ (bindAll σ.value rest) = bindAll θ rest := by
    rw [bindAll_bindAll]
    exact bindAll_congr fun x _ => h (.var x)
  rw [← habsorb, mem_bindAll, mem_bindAll]
  simp only [mem_conclusion]

/-! ## Reading off a rule -/

/-- **When resolution has a conclusion, and which.** -/
theorem resolve_eq_some_iff {cycles : Cycles} {c d r : Clause} {i j : ℕ} :
    resolve cycles c i d j = .ok (some r) ↔
      ∃ l m σ, c.literals[i]? = some l ∧ d.literals[j]? = some m ∧ l.positive ≠ m.positive ∧
        unify cycles l.atom m.atom = .ok (some σ) ∧
        r = conclusion "resolution" σ (c.literals.eraseIdx i ++ d.literals.eraseIdx j) := by
  rw [resolve]
  cases hl : c.literals[i]? with
  | none => simp
  | some l =>
      cases hm : d.literals[j]? with
      | none => simp
      | some m =>
          simp only [resolveOn]
          split_ifs with hsign
          · simp [hsign]
          · cases hu : unify cycles l.atom m.atom with
            | error e => simp [bind, Except.bind, hu]
            | ok σ =>
                cases σ with
                | none => simp [bind, Except.bind, pure, Except.pure, hu]
                | some σ => simp [bind, Except.bind, pure, Except.pure, hsign, hu, eq_comm]

/-- **When factoring has a conclusion, and which.** -/
theorem factor_eq_some_iff {cycles : Cycles} {c r : Clause} {i j : ℕ} :
    factor cycles c i j = .ok (some r) ↔
      ∃ l m σ, c.literals[i]? = some l ∧ c.literals[j]? = some m ∧ l.positive = m.positive ∧
        unify cycles l.atom m.atom = .ok (some σ) ∧
        r = conclusion "factor" σ (c.literals.eraseIdx j) := by
  rw [factor]
  cases hl : c.literals[i]? with
  | none => simp
  | some l =>
      cases hm : c.literals[j]? with
      | none => simp
      | some m =>
          simp only [factorOn]
          split_ifs with hsign
          · cases hu : unify cycles l.atom m.atom with
            | error e => simp [bind, Except.bind, hu]
            | ok σ =>
                cases σ with
                | none => simp [bind, Except.bind, pure, Except.pure, hu]
                | some σ => simp [bind, Except.bind, pure, Except.pure, hsign, hu, eq_comm]
          · simp [hsign]

/-! ## Lifting -/

/-- Taking one position out of a list loses at most the literal there. -/
lemma eq_or_mem_eraseIdx {α : Type} {xs : List α} {i : ℕ} {x y : α} (hi : xs[i]? = some x)
    (hy : y ∈ xs) : y = x ∨ y ∈ xs.eraseIdx i := by
  obtain ⟨k, hk⟩ := List.getElem?_of_mem hy
  by_cases hki : k = i
  · left
    rw [hki, hi] at hk
    exact (Option.some.inj hk).symm
  · right
    exact List.mem_eraseIdx_iff_getElem?.2 ⟨k, hki, hk⟩

/-- **Resolution is fully general.**  Two literals of different sign whose atoms become equal under
`θ` resolve, and under `θ` the resolvent has the other literals of both clauses. -/
theorem resolve_lift {c d : Clause} {i j : ℕ} {l m : Literal} {θ : String → Term}
    (hl : c.literals[i]? = some l) (hm : d.literals[j]? = some m)
    (hsign : l.positive ≠ m.positive) (hatom : l.atom.bind θ = m.atom.bind θ) :
    ∃ r, (∀ cycles, resolve cycles c i d j = .ok (some r)) ∧
      ∀ x, x ∈ bindAll θ r.literals ↔
        x ∈ bindAll θ (c.literals.eraseIdx i ++ d.literals.eraseIdx j) := by
  obtain ⟨σ, hσ, habsorb⟩ := unify_of_unifier hatom
  exact ⟨_, fun cycles => resolve_eq_some_iff.2 ⟨l, m, σ, hl, hm, hsign, hσ cycles, rfl⟩,
    fun x => mem_bindAll_conclusion habsorb⟩

/-- **Factoring is fully general.**  Two literals that become equal under `θ` have a factor.  Under
`θ` it has the literals of the clause, and it has fewer of them. -/
theorem factor_lift {c : Clause} {i j : ℕ} {l m : Literal} {θ : String → Term} (hij : i ≠ j)
    (hl : c.literals[i]? = some l) (hm : c.literals[j]? = some m) (heq : l.bind θ = m.bind θ) :
    ∃ r, (∀ cycles, factor cycles c i j = .ok (some r)) ∧
      r.literals.length < c.literals.length ∧
      ∀ x, x ∈ bindAll θ r.literals ↔ x ∈ bindAll θ c.literals := by
  have hsign : l.positive = m.positive := by simpa using congrArg Literal.positive heq
  have hatom : l.atom.bind θ = m.atom.bind θ := by
    rw [← Literal.atom_bind, heq, Literal.atom_bind]
  obtain ⟨σ, hσ, habsorb⟩ := unify_of_unifier hatom
  have hj : j < c.literals.length := (List.getElem?_eq_some_iff.1 hm).1
  refine ⟨_, fun cycles => factor_eq_some_iff.2 ⟨l, m, σ, hl, hm, hsign, hσ cycles, rfl⟩, ?_,
    fun x => ?_⟩
  · have hle := length_conclusion_le "factor" σ (c.literals.eraseIdx j)
    rw [List.length_eraseIdx_of_lt hj] at hle
    omega
  · rw [mem_bindAll_conclusion habsorb]
    refine ⟨fun h => bindAll_subset θ (List.eraseIdx_subset) h, fun h => ?_⟩
    obtain ⟨k, hk, rfl⟩ := mem_bindAll.1 h
    rcases eq_or_mem_eraseIdx hm hk with rfl | hk
    · -- the dropped literal is still there, as literal `i`
      rw [← heq]
      exact mem_bindAll_of_mem θ (List.mem_eraseIdx_iff_getElem?.2 ⟨i, hij, hl⟩)
    · exact mem_bindAll_of_mem θ hk

/-! ## Lifting at given indices -/

lemma selected_natCast {c : Clause} {i : ℕ} {l : Literal} (h : c.literals[i]? = some l) :
    selected c i = .ok l := by
  obtain ⟨hi, rfl⟩ := List.getElem?_eq_some_iff.1 h
  rw [selected, Clause.literalAt, Index.get_natCast hi]
  rfl

lemma remaining_natCast (ls : List Literal) (i : ℕ) : remaining ls i = ls.eraseIdx i := by
  rw [remaining, if_neg (by omega), Int.toNat_natCast]

/-- Indices from zero on mean positions. -/
lemma resolveAt_natCast {c d : Clause} {i j : ℕ} {l m : Literal} (hl : c.literals[i]? = some l)
    (hm : d.literals[j]? = some m) (cycles : Cycles) :
    resolveAt cycles c i d j = (resolve cycles c i d j).mapError fun _ => .unsettled := by
  rw [resolveAt, selected_natCast hl, selected_natCast hm, remaining_natCast, remaining_natCast,
    resolve, hl, hm]
  rfl

lemma factorAt_natCast {c : Clause} {i j : ℕ} {l m : Literal} (hl : c.literals[i]? = some l)
    (hm : c.literals[j]? = some m) (cycles : Cycles) :
    factorAt cycles c i j = (factor cycles c i j).mapError fun _ => .unsettled := by
  rw [factorAt, selected_natCast hl, selected_natCast hm, remaining_natCast, factor, hl, hm]
  rfl

/-- **Resolution and factoring are fully general.**  If two literals of different sign have atoms that
`θ` makes equal, the clauses resolve upon them, and `θ` takes the literals of the resolvent to exactly
what it takes the other literals of both clauses to.  If two literals of one clause have the same sign
and atoms that `θ` makes equal, they factor, and `θ` takes the factor, which is shorter, to exactly
what it takes the clause to.  The conclusion does not depend on the treatment of cycles, and is the
same whether the literals are named by position or by index. -/
theorem resolution_and_factoring_lift :
    (∀ (c d : Clause) (i j : ℕ) (l m : Literal) (θ : String → Term),
      c.literals[i]? = some l → d.literals[j]? = some m → l.positive ≠ m.positive →
      l.atom.bind θ = m.atom.bind θ →
      ∃ r, (∀ cycles, resolve cycles c i d j = .ok (some r) ∧
          resolveAt cycles c i d j = .ok (some r)) ∧
        ∀ x, x ∈ bindAll θ r.literals ↔
          x ∈ bindAll θ (c.literals.eraseIdx i) ∨ x ∈ bindAll θ (d.literals.eraseIdx j)) ∧
    ∀ (c : Clause) (i j : ℕ) (l m : Literal) (θ : String → Term),
      i < j → c.literals[i]? = some l → c.literals[j]? = some m → l.positive = m.positive →
      l.atom.bind θ = m.atom.bind θ →
      ∃ r, (∀ cycles, factor cycles c i j = .ok (some r) ∧
          factorAt cycles c i j = .ok (some r)) ∧
        r.literals.length < c.literals.length ∧
        ∀ x, x ∈ bindAll θ r.literals ↔ x ∈ bindAll θ c.literals := by
  refine ⟨fun c d i j l m θ hl hm hsign hatom => ?_, fun c i j l m θ hij hl hm hsign hatom => ?_⟩
  · obtain ⟨r, hr, hsame⟩ := resolve_lift hl hm hsign hatom
    refine ⟨r, fun cycles => ⟨hr cycles, ?_⟩, fun x => ?_⟩
    · rw [resolveAt_natCast hl hm, hr]
      rfl
    · rw [hsame, bindAll, List.map_append, List.mem_append]
      rfl
  · have heq : l.bind θ = m.bind θ :=
      Literal.eq_of_atom_eq hsign (by rw [Literal.atom_bind, Literal.atom_bind, hatom])
    obtain ⟨r, hr, hshorter, hsame⟩ := factor_lift hij.ne hl hm heq
    refine ⟨r, fun cycles => ⟨hr cycles, ?_⟩, hshorter, hsame⟩
    rw [factorAt_natCast hl hm, hr]
    rfl

/-- `q(f(Z),x)` for a variable `x`. -/
def heir (x : String) : Literal := ⟨true, "q", [.app "f" [.var "Z"], .var x]⟩

/-- `p(X) | q(X,Y)`. -/
def parentRule : Clause :=
  { literals := [⟨true, "p", [.var "X"]⟩, ⟨true, "q", [.var "X", .var "Y"]⟩] }

/-- `~p(f(Z)) | q(f(Z),W)`. -/
def parentCase : Clause := { literals := [⟨false, "p", [.app "f" [.var "Z"]]⟩, heir "W"] }

/-- An instance of the two clauses in which the literals left over become one. -/
def merging (x : String) : Term :=
  if x = "X" then .app "f" [.app "a" []] else if x = "Z" then .app "a" [] else .app "b" []

/-- The resolvent `q(f(Z),Y) | q(f(Z),W)` keeps apart what becomes one in the instance.  For the same
instance the resolvent has a factor, and that has one literal. -/
theorem merging_lifted :
    ∃ r, (∀ cycles, resolveAt cycles parentRule 0 parentCase 0 = .ok (some r)) ∧
      r.literals = [heir "Y", heir "W"] ∧
      ∃ f, (∀ cycles, factorAt cycles r 0 1 = .ok (some f)) ∧ f.literals.length < 2 ∧
        ⟨true, "q", [.app "f" [.app "a" []], .app "b" []]⟩ ∈ bindAll merging f.literals := by
  obtain ⟨r, hr, -⟩ := resolution_and_factoring_lift.1 parentRule parentCase 0 0 _ _ merging
    rfl rfl (by decide) (by decide)
  have hread : (resolve .reject parentRule 0 parentCase 0).map (Option.map Clause.literals)
      = .ok (some [heir "Y", heir "W"]) := by decide +kernel
  rw [(hr .reject).1] at hread
  have hliterals : r.literals = [heir "Y", heir "W"] := Option.some.inj (Except.ok.inj hread)
  obtain ⟨f, hf, hshorter, hsame⟩ := resolution_and_factoring_lift.2 r 0 1 (heir "Y") (heir "W")
    merging (by decide) (by rw [hliterals]; rfl) (by rw [hliterals]; rfl) rfl (by decide)
  refine ⟨r, fun cycles => (hr cycles).2, hliterals, f, fun cycles => (hf cycles).2, ?_, ?_⟩
  · rwa [hliterals] at hshorter
  · rw [hsame, hliterals]
    decide

/-! ## All conclusions -/

/-- What is named is exactly what was found. -/
lemma mem_nameConclusions {names names' : NameSupply} {found : List (List String × Option Clause)}
    {rs : List Clause} (h : nameConclusions names found = (rs, names')) {r : Clause} (hr : r ∈ rs) :
    ∃ c, (r.support, some c) ∈ found ∧ r.literals = c.literals := by
  induction found generalizing names names' rs with
  | nil =>
      obtain ⟨rfl, rfl⟩ := Prod.mk.inj h
      cases hr
  | cons entry rest ih =>
      obtain ⟨support, _ | c⟩ := entry
      · obtain ⟨c, hc, hlits⟩ := ih h hr
        exact ⟨c, List.mem_cons_of_mem _ hc, hlits⟩
      · obtain ⟨rfl, rfl⟩ := Prod.mk.inj h
        rcases List.mem_cons.1 hr with rfl | hr
        · exact ⟨c, List.mem_cons_self, rfl⟩
        · obtain ⟨c, hc, hlits⟩ := ih rfl hr
          exact ⟨c, List.mem_cons_of_mem _ hc, hlits⟩

lemma exists_mem_nameConclusions {names names' : NameSupply}
    {found : List (List String × Option Clause)} {rs : List Clause}
    (h : nameConclusions names found = (rs, names')) {support : List String} {c : Clause}
    (hc : (support, some c) ∈ found) : ∃ r ∈ rs, r.literals = c.literals := by
  induction found generalizing names names' rs with
  | nil => cases hc
  | cons entry rest ih =>
      obtain ⟨support', _ | c'⟩ := entry
      · exact ih h ((List.mem_cons.1 hc).resolve_left (by simp))
      · obtain ⟨rfl, rfl⟩ := Prod.mk.inj h
        rcases List.mem_cons.1 hc with e | hc
        · obtain ⟨-, hcc'⟩ := Prod.mk.inj e
          cases hcc'
          exact ⟨_, List.mem_cons_self, rfl⟩
        · obtain ⟨r, hr, hlits⟩ := ih rfl hc
          exact ⟨r, List.mem_cons_of_mem _ hr, hlits⟩

lemma mem_positionPairs {n i j : ℕ} : (i, j) ∈ positionPairs n ↔ i < j ∧ j < n := by
  simp only [positionPairs, List.mem_flatMap, List.mem_range, List.mem_map, List.mem_range'_1,
    Prod.mk.injEq]
  constructor
  · rintro ⟨i', hi', j', hj', rfl, rfl⟩
    omega
  · rintro ⟨hij, hj⟩
    exact ⟨i, by omega, j, by omega, rfl, rfl⟩

/-- The factors are the named conclusions of factoring two positions in order. -/
theorem allFactors_eq {cycles : Cycles} {names names' : NameSupply} {c : Clause} {rs : List Clause}
    (h : allFactors cycles names c = .ok (rs, names')) :
    ∃ found, nameConclusions names found = (rs, names') ∧ ∀ support r,
      (support, some r) ∈ found ↔
        support = [c.name] ∧ ∃ i j, i < j ∧ factor cycles c i j = .ok (some r) := by
  rw [allFactors] at h
  cases hfound : (positionPairs c.literals.length).mapM fun p => factor cycles c p.1 p.2 >>=
      fun r => pure ([c.name], r) with
  | error e =>
      erw [hfound] at h
      simp [bind, Except.bind] at h
  | ok found =>
      erw [hfound] at h
      refine ⟨found, by simpa [bind, Except.bind, pure, Except.pure] using h, fun support r => ?_⟩
      rw [mem_of_mapM_tagged hfound]
      constructor
      · rintro ⟨⟨i, j⟩, hij, hsupport, hr⟩
        exact ⟨hsupport.symm, i, j, (mem_positionPairs.1 hij).1, hr⟩
      · rintro ⟨hsupport, i, j, hij, hr⟩
        obtain ⟨l, m, -, -, hm, -⟩ := factor_eq_some_iff.1 hr
        have hj : j < c.literals.length := (List.getElem?_eq_some_iff.1 hm).1
        exact ⟨(i, j), mem_positionPairs.2 ⟨hij, hj⟩, hsupport.symm, hr⟩

/-- The positions that `allResolvents` tries. -/
lemma mem_resolutionCandidates {l : Literal} {members : List Clause} {d : Clause} {j : ℕ} :
    (d, j) ∈ ClauseSet.resolutionCandidates l members ↔
      d ∈ members ∧ ∃ m, d.literals[j]? = some m ∧ m.positive ≠ l.positive ∧
        m.signature = l.signature := by
  simp only [ClauseSet.resolutionCandidates, List.mem_flatMap, List.mem_map, List.mem_filter,
    Bool.and_eq_true, bne_iff_ne, decide_eq_true_eq, clause_self, Prod.exists,
    List.mem_zipIdx_iff_getElem?, Prod.mk.injEq]
  constructor
  · rintro ⟨x, hx, m, k, ⟨hm, hsign, hsig⟩, rfl, rfl⟩
    exact ⟨hx, m, hm, hsign, hsig⟩
  · rintro ⟨hd, m, hm, hsign, hsig⟩
    exact ⟨d, hd, m, j, ⟨hm, hsign, hsig⟩, rfl, rfl⟩

/-- The resolvents are the named conclusions of resolving any position of the clause with any
position of any member.  The filter on candidates is no restriction: literals that resolve have
different signs, and atoms that unify have the same predicate and arity. -/
theorem allResolvents_eq {cycles : Cycles} {names names' : NameSupply} {c : Clause}
    {members rs : List Clause} (h : allResolvents cycles names c members = .ok (rs, names')) :
    ∃ found, nameConclusions names found = (rs, names') ∧ ∀ support r,
      (support, some r) ∈ found ↔
        ∃ d ∈ members, support = [c.name, d.name] ∧
          ∃ i j, resolve cycles c i d j = .ok (some r) := by
  rw [allResolvents] at h
  cases hfound : (c.literals.zipIdx.flatMap fun p =>
      (ClauseSet.resolutionCandidates p.1 members).map fun q => (p.2, q.1, q.2)).mapM fun p =>
        resolve cycles c p.1 p.2.1 p.2.2 >>= fun r => pure ([c.name, p.2.1.name], r) with
  | error e =>
      erw [hfound] at h
      simp [bind, Except.bind] at h
  | ok found =>
      erw [hfound] at h
      refine ⟨found, by simpa [bind, Except.bind, pure, Except.pure] using h, fun support r => ?_⟩
      rw [mem_of_mapM_tagged hfound]
      simp only [List.mem_flatMap, List.mem_map, Prod.exists, List.mem_zipIdx_iff_getElem?,
        Prod.mk.injEq]
      constructor
      · rintro ⟨i, d, j, ⟨l, k, hl, d', j', hcand, rfl, rfl, rfl⟩, hsupport, hr⟩
        exact ⟨d', (mem_resolutionCandidates.1 hcand).1, hsupport.symm, k, j', hr⟩
      · rintro ⟨d, hd, hsupport, i, j, hr⟩
        obtain ⟨l, m, σ, hl, hm, hsign, hσ, -⟩ := resolve_eq_some_iff.1 hr
        obtain ⟨hpred, harity⟩ := same_symbol_of_unify hσ
        have hsig : m.signature = l.signature := by
          rw [Literal.signature, Literal.signature, hpred, harity]
        exact ⟨i, d, j, ⟨l, i, hl, d, j,
          mem_resolutionCandidates.2 ⟨hd, m, hm, hsign.symm, hsig⟩, rfl, rfl, rfl⟩,
          hsupport.symm, hr⟩

end GivenClause
