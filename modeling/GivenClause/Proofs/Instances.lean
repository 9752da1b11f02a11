import Mathlib
import GivenClause.Proofs.Composition
import GivenClause.Clause

/-!
# Instances and variants of clauses

What a clause says is in its list of literals; the rest is history.  The proofs work with literals
under any map from variables to terms, not only under the finite substitutions that the search
builds: `Literal.bind` for one literal and `bindAll` for a list.

Two lists are **variants** of each other if they differ by a renaming of variables that keeps
different variables different (`Variant`).  A variant can be turned back (`Variant.exists_back`), so
all that is stable under instances is the same for variants: being a tautology is the case needed.
-/

namespace GivenClause

/-! ## One literal -/

namespace Literal

/-- Replace every variable `x` of a literal by `σ x`. -/
def bind (σ : String → Term) (l : Literal) : Literal := { l with args := l.args.map (Term.bind σ) }

@[simp] lemma positive_bind (σ : String → Term) (l : Literal) : (l.bind σ).positive = l.positive :=
  rfl

@[simp] lemma atom_bind (σ : String → Term) (l : Literal) : (l.bind σ).atom = l.atom.bind σ := by
  simp [atom, bind]

/-- Sign and atom make up a literal. -/
lemma eq_of_atom_eq {l m : Literal} (hs : l.positive = m.positive) (ha : l.atom = m.atom) :
    l = m := by
  obtain ⟨p, f, args⟩ := l
  obtain ⟨q, g, args'⟩ := m
  obtain ⟨rfl, rfl⟩ := Term.app.inj ha
  rw [show p = q from hs]

lemma bind_bind (σ τ : String → Term) (l : Literal) :
    (l.bind σ).bind τ = l.bind fun x => (σ x).bind τ := by
  refine eq_of_atom_eq rfl ?_
  rw [atom_bind, atom_bind, atom_bind, Term.bind_bind]

lemma bind_congr {σ τ : String → Term} {l : Literal} (h : ∀ x ∈ l.vars, σ x = τ x) :
    l.bind σ = l.bind τ := by
  refine eq_of_atom_eq rfl ?_
  rw [atom_bind, atom_bind, Term.bind_congr h]

@[simp] lemma bind_pure (l : Literal) : l.bind .var = l := by
  refine eq_of_atom_eq rfl ?_
  rw [atom_bind, Term.bind_pure]

lemma vars_bind (σ : String → Term) (l : Literal) :
    (l.bind σ).vars = l.vars.flatMap fun x => (σ x).vars := by
  rw [vars, atom_bind, Term.vars_bind, vars]

lemma isOpposite_iff {l m : Literal} : l.isOpposite m = true ↔ m = l.negate := by
  rw [isOpposite, Bool.and_eq_true, bne_iff_ne, decide_eq_true_eq]
  constructor
  · rintro ⟨hs, ha⟩
    refine eq_of_atom_eq ?_ ha.symm
    cases hl : l.positive <;> cases hm : m.positive <;> simp_all [negate]
  · rintro rfl
    exact ⟨by simp [negate], rfl⟩

@[simp] lemma negate_negate (l : Literal) : l.negate.negate = l := by
  simp [negate]

end Literal

/-! ## Lists of literals -/

/-- Replace every variable in a list of literals. -/
def bindAll (σ : String → Term) (ls : List Literal) : List Literal := ls.map (Literal.bind σ)

/-- The variable occurrences of a list of literals. -/
def varsOf (ls : List Literal) : List String := ls.flatMap Literal.vars

@[simp] lemma length_bindAll (σ : String → Term) (ls : List Literal) :
    (bindAll σ ls).length = ls.length := List.length_map _

lemma mem_varsOf {ls : List Literal} {l : Literal} (hl : l ∈ ls) {x : String} (hx : x ∈ l.vars) :
    x ∈ varsOf ls := List.mem_flatMap.2 ⟨l, hl, hx⟩

lemma varsOf_subset {ls ms : List Literal} (h : ls ⊆ ms) : varsOf ls ⊆ varsOf ms := by
  intro x hx
  obtain ⟨l, hl, hxl⟩ := List.mem_flatMap.1 hx
  exact mem_varsOf (h hl) hxl

lemma mem_bindAll {σ : String → Term} {ls : List Literal} {m : Literal} :
    m ∈ bindAll σ ls ↔ ∃ l ∈ ls, l.bind σ = m := List.mem_map

lemma mem_bindAll_of_mem (σ : String → Term) {ls : List Literal} {l : Literal} (h : l ∈ ls) :
    l.bind σ ∈ bindAll σ ls := List.mem_map_of_mem h

lemma bindAll_subset (σ : String → Term) {ls ms : List Literal} (h : ls ⊆ ms) :
    bindAll σ ls ⊆ bindAll σ ms := List.map_subset _ h

lemma bindAll_bindAll (σ τ : String → Term) (ls : List Literal) :
    bindAll τ (bindAll σ ls) = bindAll (fun x => (σ x).bind τ) ls := by
  rw [bindAll, bindAll, List.map_map]
  exact List.map_congr_left fun l _ => Literal.bind_bind σ τ l

lemma bindAll_congr {σ τ : String → Term} {ls : List Literal} (h : ∀ x ∈ varsOf ls, σ x = τ x) :
    bindAll σ ls = bindAll τ ls :=
  List.map_congr_left fun _ hl => Literal.bind_congr fun x hx => h x (mem_varsOf hl hx)

@[simp] lemma bindAll_pure (ls : List Literal) : bindAll .var ls = ls := by
  rw [bindAll, List.map_congr_left fun l _ => Literal.bind_pure l, List.map_id']

lemma mem_varsOf_bindAll {σ : String → Term} {ls : List Literal} {y : String} :
    y ∈ varsOf (bindAll σ ls) ↔ ∃ x ∈ varsOf ls, y ∈ (σ x).vars := by
  simp only [varsOf, bindAll, List.mem_flatMap, List.mem_map]
  constructor
  · rintro ⟨-, ⟨l, hl, rfl⟩, hy⟩
    rw [Literal.vars_bind, List.mem_flatMap] at hy
    obtain ⟨x, hx, hy⟩ := hy
    exact ⟨x, ⟨l, hl, hx⟩, hy⟩
  · rintro ⟨x, ⟨l, hl, hx⟩, hy⟩
    refine ⟨l.bind σ, ⟨l, hl, rfl⟩, ?_⟩
    rw [Literal.vars_bind, List.mem_flatMap]
    exact ⟨x, hx, hy⟩

/-! ## Tautologies -/

/-- Some atom stands under both signs. -/
def Tautological (ls : List Literal) : Prop := ∃ l ∈ ls, l.negate ∈ ls

/-- The scan for opposites finds exactly the tautologies.  It only looks forward, which is enough
since being opposite goes both ways. -/
theorem hasOpposites_iff (ls : List Literal) : Clause.hasOpposites ls = true ↔ Tautological ls := by
  induction ls with
  | nil => simp [Clause.hasOpposites, Tautological]
  | cons l rest ih =>
      rw [Clause.hasOpposites, Bool.or_eq_true, ih, List.any_eq_true]
      constructor
      · rintro (⟨m, hm, hopp⟩ | ⟨m, hm, hneg⟩)
        · rw [Literal.isOpposite_iff] at hopp
          exact ⟨l, List.mem_cons_self, hopp ▸ List.mem_cons_of_mem _ hm⟩
        · exact ⟨m, List.mem_cons_of_mem _ hm, List.mem_cons_of_mem _ hneg⟩
      · rintro ⟨m, hm, hneg⟩
        rcases List.mem_cons.1 hm with rfl | hm
        · rcases List.mem_cons.1 hneg with hself | hneg
          · exact absurd (congrArg Literal.positive hself) (by simp [Literal.negate])
          · exact Or.inl ⟨_, hneg, Literal.isOpposite_iff.2 rfl⟩
        · rcases List.mem_cons.1 hneg with hself | hneg
          · refine Or.inl ⟨m, hm, Literal.isOpposite_iff.2 ?_⟩
            rw [← hself, Literal.negate_negate]
          · exact Or.inr ⟨m, hm, hneg⟩

lemma Tautological.bindAll {ls : List Literal} (h : Tautological ls) (σ : String → Term) :
    Tautological (bindAll σ ls) := by
  obtain ⟨l, hl, hneg⟩ := h
  exact ⟨l.bind σ, mem_bindAll_of_mem σ hl, mem_bindAll_of_mem σ hneg⟩

/-! ## Variants -/

/-- One list of literals is the other with its variables renamed, different ones to different
names. -/
def Variant (ls ms : List Literal) : Prop :=
  ∃ ρ : String → String, Set.InjOn ρ {x | x ∈ varsOf ls} ∧ ms = bindAll (fun x => .var (ρ x)) ls

lemma Variant.refl (ls : List Literal) : Variant ls ls :=
  ⟨id, Set.injOn_id _, (bindAll_pure ls).symm⟩

/-- A variant is turned back by the inverse renaming. -/
lemma Variant.exists_back {ls ms : List Literal} (h : Variant ls ms) :
    ∃ τ : String → Term, bindAll τ ms = ls := by
  obtain ⟨ρ, hρ, rfl⟩ := h
  refine ⟨fun y => .var (Function.invFunOn ρ {x | x ∈ varsOf ls} y), ?_⟩
  rw [bindAll_bindAll]
  refine (bindAll_congr fun x hx => ?_).trans (bindAll_pure ls)
  rw [Term.bind_var, hρ.leftInvOn_invFunOn hx]

lemma Variant.trans {ls ms ks : List Literal} (h : Variant ls ms) (h' : Variant ms ks) :
    Variant ls ks := by
  obtain ⟨ρ, hρ, rfl⟩ := h
  obtain ⟨ρ', hρ', rfl⟩ := h'
  refine ⟨ρ' ∘ ρ, hρ'.comp hρ fun x hx => ?_, ?_⟩
  · show ρ x ∈ varsOf _
    rw [mem_varsOf_bindAll]
    exact ⟨x, hx, List.mem_singleton_self _⟩
  · rw [bindAll_bindAll]
    rfl

lemma Variant.length_eq {ls ms : List Literal} (h : Variant ls ms) : ms.length = ls.length := by
  obtain ⟨ρ, -, rfl⟩ := h
  exact length_bindAll _ _

lemma Variant.tautological_iff {ls ms : List Literal} (h : Variant ls ms) :
    Tautological ms ↔ Tautological ls := by
  constructor
  · intro htaut
    obtain ⟨τ, hτ⟩ := h.exists_back
    exact hτ ▸ htaut.bindAll τ
  · intro htaut
    obtain ⟨ρ, -, rfl⟩ := h
    exact htaut.bindAll _

end GivenClause
