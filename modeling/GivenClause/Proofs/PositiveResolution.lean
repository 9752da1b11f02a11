import Mathlib
import GivenClause.Proofs.Conclusions
import GivenClause.Proofs.Interpretation
import GivenClause.Proofs.SubsumptionOrder

/-!
# A model of a saturated set

A set of clauses is saturated if the conclusions of its members are covered by it: a member subsumes
them, or they are tautologies.  Such a set has a model, unless the empty clause is a member.

**The candidate.**  Call a clause positive if it denies nothing.  Among the sets of atoms that hit
every instance of a positive member there is one that cannot be made smaller
(`exists_minimal_hitting`); take it to be the set of true atoms.

**Producers.**  An atom of the candidate is there for a reason: in some instance of a positive member
it is the only true atom, and it stands there once (`exists_producer`).

**No counterexample.**  Let an instance of a member be false.  It denies some true atom.  If two
literals of the member became that denied atom, a factor of the member gives a false instance of a
shorter member.  Otherwise resolve the member with the producer of the atom: the resolvent is false
too, and denies one atom fewer (`not_falsified`).  One of the two premises is always positive and the
other is not, so no clause needs to be resolved with itself.

Subsumption compares lengths, so what covers a factor is not longer than the factor.  That is what
makes the descent along factors end.
-/

namespace GivenClause

open Unification

/-! ## Saturated sets -/

/-- A member subsumes the literals, or they are a tautology. -/
def Covered (members : List Clause) (ls : List Literal) : Prop :=
  (∃ d ∈ members, Subsumes d.literals ls) ∨ Tautological ls

/-- Members are not empty and have no variables in common, and all conclusions from one member or
from two different ones are covered.  It is enough to resolve two members in one order. -/
structure Saturated (cycles : Cycles) (members : List Clause) : Prop where
  nonempty : ∀ c ∈ members, c.literals ≠ []
  apart : ∀ c ∈ members, ∀ d ∈ members, c ≠ d → ∀ x ∈ varsOf c.literals, x ∉ varsOf d.literals
  factors : ∀ c ∈ members, ∀ i j r, i < j → factor cycles c i j = .ok (some r) →
    Covered members r.literals
  resolvents : ∀ c ∈ members, ∀ d ∈ members, c ≠ d →
    (∀ i j r, resolve cycles c i d j = .ok (some r) → Covered members r.literals) ∨
      ∀ i j r, resolve cycles d j c i = .ok (some r) → Covered members r.literals

/-! ## Truth in a set of atoms -/

/-- Every literal is false: its atom is true just if it is denied. -/
def Falsified (A : Set Term) (ls : List Literal) : Prop :=
  ∀ l ∈ ls, l.atom ∈ A ↔ l.positive = false

/-- Nothing is denied. -/
def Positive (ls : List Literal) : Prop := ∀ l ∈ ls, l.positive = true

lemma Falsified.mono {A : Set Term} {ls ms : List Literal} (h : Falsified A ms) (hsub : ls ⊆ ms) :
    Falsified A ls := fun l hl => h l (hsub hl)

lemma Falsified.not_tautological {A : Set Term} {ls : List Literal} (h : Falsified A ls) :
    ¬ Tautological ls := by
  rintro ⟨l, hl, hneg⟩
  have hpos := h l hl
  have hden := h l.negate hneg
  have hatom : l.negate.atom = l.atom := rfl
  rw [hatom, hpos] at hden
  cases hsign : l.positive <;> simp [Literal.negate, hsign] at hden

lemma Positive.not_tautological {ls : List Literal} (h : Positive ls) : ¬ Tautological ls := by
  rintro ⟨l, hl, hneg⟩
  have hpos := h l hl
  have hden := h l.negate hneg
  simp [Literal.negate, hpos] at hden

lemma positive_bindAll {θ : String → Term} {ls : List Literal} :
    Positive (bindAll θ ls) ↔ Positive ls := by
  constructor
  · intro h l hl
    exact h (l.bind θ) (mem_bindAll_of_mem θ hl)
  · intro h x hx
    obtain ⟨l, hl, rfl⟩ := mem_bindAll.1 hx
    exact h l hl

/-! ## The candidate -/

/-- The set of atoms meets every instance of a positive member. -/
def Hits (members : List Clause) (A : Set Term) : Prop :=
  ∀ c ∈ members, Positive c.literals → ∀ θ, ∃ x ∈ bindAll θ c.literals, x.atom ∈ A

/-- In a chain, finitely many atoms that are each missing somewhere are missing together. -/
lemma exists_avoiding {C : Set (Set Term)} (hchain : IsChain (· ⊆ ·) C) (hne : C.Nonempty)
    {ls : List Literal} (h : ∀ l ∈ ls, ∃ S ∈ C, l.atom ∉ S) :
    ∃ S ∈ C, ∀ l ∈ ls, l.atom ∉ S := by
  induction ls with
  | nil =>
      obtain ⟨S, hS⟩ := hne
      exact ⟨S, hS, fun l hl => absurd hl List.not_mem_nil⟩
  | cons m rest ih =>
      obtain ⟨S, hS, hrest⟩ := ih fun l hl => h l (List.mem_cons_of_mem _ hl)
      obtain ⟨T, hT, hm⟩ := h m List.mem_cons_self
      rcases hchain.total hS hT with hST | hTS
      · refine ⟨S, hS, fun l hl => ?_⟩
        rcases List.mem_cons.1 hl with rfl | hl
        · exact fun hl => hm (hST hl)
        · exact hrest l hl
      · refine ⟨T, hT, fun l hl => ?_⟩
        rcases List.mem_cons.1 hl with rfl | hl
        · exact hm
        · exact fun hl' => hrest l hl (hTS hl')

/-- A set of atoms that hits all positive instances can be made as small as possible.  Instances are
finite, so going down a chain keeps hitting them. -/
theorem exists_minimal_hitting {members : List Clause}
    (hne : ∀ c ∈ members, c.literals ≠ []) : ∃ A, Minimal (Hits members) A := by
  have hall : Hits members Set.univ := by
    intro c hc _ θ
    obtain ⟨l, hl⟩ := List.exists_mem_of_ne_nil _ (hne c hc)
    exact ⟨l.bind θ, mem_bindAll_of_mem θ hl, Set.mem_univ _⟩
  refine zorn_superset {A | Hits members A} fun C hC hchain => ?_
  rcases C.eq_empty_or_nonempty with rfl | hCne
  · exact ⟨Set.univ, hall, fun S hS => absurd hS (Set.notMem_empty S)⟩
  · refine ⟨⋂₀ C, fun c hc hpos θ => ?_, fun S hS => Set.sInter_subset_of_mem hS⟩
    by_contra hmiss
    push Not at hmiss
    have heach : ∀ x ∈ bindAll θ c.literals, ∃ S ∈ C, x.atom ∉ S := by
      intro x hx
      have hx' := hmiss x hx
      rw [Set.mem_sInter] at hx'
      push Not at hx'
      exact hx'
    obtain ⟨S, hS, havoid⟩ := exists_avoiding hchain hCne heach
    obtain ⟨x, hx, hxS⟩ := hC hS c hc hpos θ
    exact havoid x hx hxS

/-! ## Descent -/

section Descent

variable {cycles : Cycles} {members : List Clause} {A : Set Term}

/-- A covered list of literals has a member with an instance inside its own, unless its instance is
a tautology. -/
lemma Covered.exists_instance {ls : List Literal} (h : Covered members ls) {θ : String → Term}
    (htaut : ¬ Tautological (bindAll θ ls)) :
    ∃ d ∈ members, d.literals.length ≤ ls.length ∧
      ∃ τ, bindAll τ d.literals ⊆ bindAll θ ls := by
  rcases h with ⟨d, hd, hsub⟩ | h
  · exact ⟨d, hd, hsub.1, hsub.bindAll θ⟩
  · exact absurd (h.bindAll θ) htaut

/-- **Factoring goes down.**  If two literals of a member become equal, a shorter member has an
instance inside the given one. -/
lemma Saturated.factor_descent (h : Saturated cycles members) {c : Clause} (hc : c ∈ members)
    {i : ℕ} {l : Literal} {θ : String → Term} (hl : c.literals[i]? = some l)
    (htwice : l.bind θ ∈ bindAll θ (c.literals.eraseIdx i))
    (htaut : ¬ Tautological (bindAll θ c.literals)) :
    ∃ d ∈ members, d.literals.length < c.literals.length ∧
      ∃ τ, bindAll τ d.literals ⊆ bindAll θ c.literals := by
  obtain ⟨m, hm, heq⟩ := mem_bindAll.1 htwice
  obtain ⟨j, hji, hm⟩ := List.mem_eraseIdx_iff_getElem?.1 hm
  -- the search factors with the smaller position first
  obtain ⟨r, hcovered, hlength, hsame⟩ : ∃ r : Clause, Covered members r.literals ∧
      r.literals.length < c.literals.length ∧
      ∀ x, x ∈ bindAll θ r.literals ↔ x ∈ bindAll θ c.literals := by
    rcases lt_or_gt_of_ne hji with hji' | hij
    · obtain ⟨r, hr, hlength, hsame⟩ := factor_lift hji hm hl heq
      exact ⟨r, h.factors c hc j i r hji' (hr cycles), hlength, hsame⟩
    · obtain ⟨r, hr, hlength, hsame⟩ := factor_lift hji.symm hl hm heq.symm
      exact ⟨r, h.factors c hc i j r hij (hr cycles), hlength, hsame⟩
  have hsub : bindAll θ r.literals ⊆ bindAll θ c.literals := fun x hx => (hsame x).1 hx
  have htaut' : ¬ Tautological (bindAll θ r.literals) := by
    rintro ⟨x, hx, hneg⟩
    exact htaut ⟨x, hsub hx, hsub hneg⟩
  obtain ⟨d, hd, hle, τ, hτ⟩ := hcovered.exists_instance htaut'
  exact ⟨d, hd, hle.trans_lt hlength, τ, List.Subset.trans hτ hsub⟩

/-- Clauses without common variables can be instantiated at the same time. -/
lemma exists_common_map {ls ms : List Literal} (h : ∀ x ∈ varsOf ls, x ∉ varsOf ms)
    (θ μ : String → Term) :
    ∃ σ : String → Term, (∀ x ∈ varsOf ls, σ x = θ x) ∧ ∀ x ∈ varsOf ms, σ x = μ x := by
  refine ⟨fun x => if x ∈ varsOf ls then θ x else μ x, fun x hx => if_pos hx, fun x hx => ?_⟩
  exact if_neg fun hx' => h x hx' hx

/-- **Resolution goes down.**  If literals of two different members become complementary, some member
has an instance inside what else stands in the two instances. -/
lemma Saturated.resolution_descent (h : Saturated cycles members) {c d : Clause}
    (hc : c ∈ members) (hd : d ∈ members) (hne : c ≠ d) {i j : ℕ} {l m : Literal}
    {θ μ : String → Term} (hl : c.literals[i]? = some l) (hm : d.literals[j]? = some m)
    (hsign : l.positive ≠ m.positive) (hatom : (l.bind θ).atom = (m.bind μ).atom)
    (htaut : ¬ Tautological
      (bindAll θ (c.literals.eraseIdx i) ++ bindAll μ (d.literals.eraseIdx j))) :
    ∃ e ∈ members, ∃ τ, bindAll τ e.literals ⊆
      bindAll θ (c.literals.eraseIdx i) ++ bindAll μ (d.literals.eraseIdx j) := by
  obtain ⟨σ, hσc, hσd⟩ := exists_common_map (h.apart c hc d hd hne) θ μ
  have hlσ : l.bind σ = l.bind θ :=
    Literal.bind_congr fun x hx => hσc x (mem_varsOf (List.mem_of_getElem? hl) hx)
  have hmσ : m.bind σ = m.bind μ :=
    Literal.bind_congr fun x hx => hσd x (mem_varsOf (List.mem_of_getElem? hm) hx)
  have hatomσ : l.atom.bind σ = m.atom.bind σ := by
    rw [← Literal.atom_bind, ← Literal.atom_bind, hlσ, hmσ, hatom]
  have hrestc : bindAll σ (c.literals.eraseIdx i) = bindAll θ (c.literals.eraseIdx i) :=
    bindAll_congr fun x hx => hσc x (varsOf_subset List.eraseIdx_subset hx)
  have hrestd : bindAll σ (d.literals.eraseIdx j) = bindAll μ (d.literals.eraseIdx j) :=
    bindAll_congr fun x hx => hσd x (varsOf_subset List.eraseIdx_subset hx)
  -- whichever order the two were resolved in, the resolvent has the literals of both rests
  obtain ⟨r, hcovered, hsub⟩ : ∃ r : Clause, Covered members r.literals ∧ bindAll σ r.literals ⊆
      bindAll θ (c.literals.eraseIdx i) ++ bindAll μ (d.literals.eraseIdx j) := by
    rcases h.resolvents c hc d hd hne with hres | hres
    · obtain ⟨r, hr, hsame⟩ := resolve_lift hl hm hsign hatomσ
      refine ⟨r, hres i j r (hr cycles), fun x hx => ?_⟩
      rw [hsame, bindAll, List.map_append] at hx
      rw [← hrestc, ← hrestd]
      exact hx
    · obtain ⟨r, hr, hsame⟩ := resolve_lift hm hl hsign.symm hatomσ.symm
      refine ⟨r, hres i j r (hr cycles), fun x hx => ?_⟩
      rw [hsame, bindAll, List.map_append] at hx
      rw [← hrestc, ← hrestd]
      exact List.mem_append.2 (List.mem_append.1 hx).symm
  have htaut' : ¬ Tautological (bindAll σ r.literals) := by
    rintro ⟨x, hx, hneg⟩
    exact htaut ⟨x, hsub hx, hsub hneg⟩
  obtain ⟨e, he, -, τ, hτ⟩ := hcovered.exists_instance htaut'
  exact ⟨e, he, τ, List.Subset.trans hτ hsub⟩

/-! ## Producers -/

/-- From an instance of a positive member in which `a` is the only true atom, factoring leads to one
where `a` moreover stands once. -/
lemma Saturated.producer_of_only (h : Saturated cycles members) (hA : Hits members A) {a : Term}
    {c : Clause} (hc : c ∈ members) (hpos : Positive c.literals) {θ : String → Term}
    (honly : ∀ x ∈ bindAll θ c.literals, x.atom ∈ A → x.atom = a) :
    ∃ p ∈ members, Positive p.literals ∧ ∃ μ k m, p.literals[k]? = some m ∧
      (m.bind μ).atom = a ∧ ∀ x ∈ bindAll μ (p.literals.eraseIdx k), x.atom ∉ A := by
  induction hn : c.literals.length using Nat.strong_induction_on generalizing c θ with
  | _ n ih =>
      obtain ⟨x, hx, hxA⟩ := hA c hc hpos θ
      obtain ⟨l, hl, rfl⟩ := mem_bindAll.1 hx
      obtain ⟨k, hk⟩ := List.getElem?_of_mem hl
      by_cases htwice : l.bind θ ∈ bindAll θ (c.literals.eraseIdx k)
      · have hpos' : Positive (bindAll θ c.literals) := positive_bindAll.2 hpos
        obtain ⟨d, hd, hlength, τ, hτ⟩ := h.factor_descent hc hk htwice hpos'.not_tautological
        refine ih d.literals.length (hn ▸ hlength) hd ?_ (fun x hx => honly x (hτ hx)) rfl
        exact positive_bindAll.1 fun x hx => hpos' x (hτ hx)
      · refine ⟨c, hc, hpos, θ, k, l, hk, honly _ hx hxA, fun x hx hxA' => htwice ?_⟩
        have hx' : x ∈ bindAll θ c.literals := bindAll_subset θ List.eraseIdx_subset hx
        have hsame : x = l.bind θ := by
          refine Literal.eq_of_atom_eq ?_ ?_
          · rw [positive_bindAll.2 hpos x hx', Literal.positive_bind, hpos l hl]
          · rw [honly x hx' hxA', honly _ (mem_bindAll_of_mem θ hl) hxA]
        exact hsame ▸ hx

/-- **Every true atom has a producer**: a positive member with an instance in which the atom stands
once and all other atoms are false.  Otherwise the atom could be left out. -/
theorem Saturated.exists_producer (h : Saturated cycles members) (hA : Minimal (Hits members) A)
    {a : Term} (ha : a ∈ A) :
    ∃ p ∈ members, Positive p.literals ∧ ∃ μ k m, p.literals[k]? = some m ∧
      (m.bind μ).atom = a ∧ ∀ x ∈ bindAll μ (p.literals.eraseIdx k), x.atom ∉ A := by
  have hwithout : ¬ Hits members (A \ {a}) := fun hhits =>
    (hA.2 hhits Set.sdiff_subset ha).2 rfl
  rw [Hits] at hwithout
  push Not at hwithout
  obtain ⟨c, hc, hpos, θ, hmiss⟩ := hwithout
  refine h.producer_of_only hA.1 hc hpos (θ := θ) fun x hx hxA => ?_
  by_contra hxa
  exact hmiss x hx ⟨hxA, hxa⟩

/-! ## No counterexample -/

/-- The different denials in a list of literals. -/
def denials (ls : List Literal) : Finset Literal :=
  (ls.filter fun l => !l.positive).toFinset

lemma mem_denials {ls : List Literal} {l : Literal} :
    l ∈ denials ls ↔ l ∈ ls ∧ l.positive = false := by
  simp [denials]

lemma denials_subset {ls ms : List Literal} (h : ls ⊆ ms) : denials ls ⊆ denials ms := by
  intro l hl
  rw [mem_denials] at hl ⊢
  exact ⟨h hl.1, hl.2⟩

/-- Resolving a false instance with the producer of an atom that it denies once gives a false instance
with fewer denials: the atom is gone, and the producer denies nothing. -/
lemma Saturated.exists_fewer_denials (h : Saturated cycles members)
    (hA : Minimal (Hits members) A) {c : Clause} (hc : c ∈ members) {θ : String → Term}
    (hfalse : Falsified A (bindAll θ c.literals)) {i : ℕ} {l : Literal}
    (hi : c.literals[i]? = some l) (hneg : l.positive = false)
    (honce : l.bind θ ∉ bindAll θ (c.literals.eraseIdx i)) :
    ∃ e ∈ members, ∃ τ, Falsified A (bindAll τ e.literals) ∧
      denials (bindAll τ e.literals) ⊂ denials (bindAll θ c.literals) := by
  have hlc := mem_bindAll_of_mem θ (List.mem_of_getElem? hi)
  have hlA : (l.bind θ).atom ∈ A := (hfalse _ hlc).2 hneg
  obtain ⟨p, hp, hpositive, μ, k, m, hk, hatom, hothers⟩ := h.exists_producer hA hlA
  have hm : m.positive = true := hpositive m (List.mem_of_getElem? hk)
  have hcp : c ≠ p := by
    rintro rfl
    rw [hpositive l (List.mem_of_getElem? hi)] at hneg
    cases hneg
  have hproducer : ∀ x ∈ bindAll μ (p.literals.eraseIdx k), x.positive = true := fun x hx =>
    positive_bindAll.2 hpositive x (bindAll_subset μ List.eraseIdx_subset hx)
  have hrest : Falsified A
      (bindAll θ (c.literals.eraseIdx i) ++ bindAll μ (p.literals.eraseIdx k)) := by
    intro x hx
    rcases List.mem_append.1 hx with hx | hx
    · exact hfalse x (bindAll_subset θ List.eraseIdx_subset hx)
    · rw [hproducer x hx]
      exact iff_of_false (hothers x hx) (by decide)
  obtain ⟨e, he, τ, hτ⟩ := h.resolution_descent hc hp hcp hi hk (by rw [hneg, hm]; decide)
    hatom.symm hrest.not_tautological
  refine ⟨e, he, τ, hrest.mono hτ, (Finset.ssubset_iff_of_subset fun x hx => ?_).2
    ⟨l.bind θ, mem_denials.2 ⟨hlc, hneg⟩, fun hl' => ?_⟩⟩
  · obtain ⟨hx, hxneg⟩ := mem_denials.1 hx
    rcases List.mem_append.1 (hτ hx) with hx | hx
    · exact mem_denials.2 ⟨bindAll_subset θ List.eraseIdx_subset hx, hxneg⟩
    · rw [hproducer x hx] at hxneg
      cases hxneg
  · rcases List.mem_append.1 (hτ (mem_denials.1 hl').1) with hl' | hl'
    · exact honce hl'
    · exact hothers _ hl' hlA

/-- **The candidate makes all instances of all members true.**  The induction is on the number of
different denials in the instance, and for the same number on the length of the member. -/
theorem Saturated.not_falsified (h : Saturated cycles members) (hA : Minimal (Hits members) A)
    {c : Clause} (hc : c ∈ members) (θ : String → Term) :
    ¬ Falsified A (bindAll θ c.literals) := by
  intro hfalse
  by_cases hpos : Positive c.literals
  · obtain ⟨x, hx, hxA⟩ := hA.1 c hc hpos θ
    have hxneg := (hfalse x hx).1 hxA
    rw [positive_bindAll.2 hpos x hx] at hxneg
    cases hxneg
  · rw [Positive] at hpos
    push Not at hpos
    obtain ⟨l, hl, hsign⟩ := hpos
    obtain ⟨i, hi⟩ := List.getElem?_of_mem hl
    by_cases htwice : l.bind θ ∈ bindAll θ (c.literals.eraseIdx i)
    · obtain ⟨d, hd, hlength, τ, hτ⟩ := h.factor_descent hc hi htwice hfalse.not_tautological
      have hle := Finset.card_le_card (denials_subset hτ)
      exact h.not_falsified hA hd τ (hfalse.mono hτ)
    · obtain ⟨e, he, τ, hfalse', hfewer⟩ :=
        h.exists_fewer_denials hA hc hfalse hi (Bool.eq_false_iff.2 hsign) htwice
      have hlt := Finset.card_lt_card hfewer
      exact h.not_falsified hA he τ hfalse'
termination_by ((denials (bindAll θ c.literals)).card, c.literals.length)
decreasing_by
  · rcases hle.lt_or_eq with hlt | heq
    · exact Prod.Lex.left _ _ hlt
    · rw [heq]
      exact Prod.Lex.right _ hlength
  · exact Prod.Lex.left _ _ hlt

end Descent

/-! ## The model -/

/-- Terms stand for themselves, and an atom holds if it is in the set. -/
def herbrand (A : Set Term) : Interpretation Term where
  function := Term.app
  predicate p args := Term.app p args ∈ A

lemma eval_herbrand (A : Set Term) (v : String → Term) (t : Term) :
    t.eval (herbrand A) v = t.bind v := by
  induction t with
  | var x => rfl
  | app f args ih =>
      rw [Term.eval_app, Term.bind_app]
      exact congrArg _ (List.map_congr_left ih)

lemma holds_herbrand (A : Set Term) (v : String → Term) (l : Literal) :
    l.Holds (herbrand A) v ↔ ¬ ((l.bind v).atom ∈ A ↔ (l.bind v).positive = false) := by
  have hargs : l.args.map (Term.eval (herbrand A) v) = l.args.map (Term.bind v) :=
    List.map_congr_left fun t _ => eval_herbrand A v t
  have hatom : (herbrand A).predicate l.predicate (l.args.map (Term.bind v)) ↔
      (l.bind v).atom ∈ A := Iff.rfl
  rw [Literal.Holds, hargs, hatom, Literal.positive_bind]
  cases l.positive <;> simp

/-- Validity over terms is that no instance is false. -/
lemma validates_herbrand {A : Set Term} {ls : List Literal} :
    (herbrand A).Validates ls ↔ ∀ θ, ¬ Falsified A (bindAll θ ls) := by
  refine forall_congr' fun v => ?_
  simp only [Falsified, not_forall, exists_prop]
  constructor
  · rintro ⟨l, hl, hv⟩
    exact ⟨l.bind v, mem_bindAll_of_mem v hl, (holds_herbrand A v l).1 hv⟩
  · rintro ⟨x, hx, hv⟩
    obtain ⟨l, hl, rfl⟩ := mem_bindAll.1 hx
    exact ⟨l, hl, (holds_herbrand A v l).2 hv⟩

/-- **A saturated set has a model**, and all that it covers is valid there. -/
theorem Saturated.exists_model {cycles : Cycles} {members : List Clause}
    (h : Saturated cycles members) :
    ∃ A, ∀ ls, Covered members ls → (herbrand A).Validates ls := by
  obtain ⟨A, hA⟩ := exists_minimal_hitting h.nonempty
  refine ⟨A, fun ls hls => validates_herbrand.2 fun θ hfalse => ?_⟩
  obtain ⟨d, hd, -, τ, hτ⟩ := hls.exists_instance hfalse.not_tautological
  exact h.not_falsified hA hd τ (hfalse.mono hτ)

end GivenClause
