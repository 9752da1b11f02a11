import Mathlib
import GivenClause.Proofs.Backtracking
import GivenClause.Proofs.Instances
import GivenClause.Subsumption

/-!
# Subsumption, decided and as an order

**Matching.**  A matcher threads a growing substitution, so its result is best read as the set of
maps that agree with that substitution.  `extend_iff` says that matching a pattern against a target
restricts this set to the maps that take the pattern to the target, and fails when none is left.

**Subsumption.**  The search works on one substitution.  Since backtracking restores it, every attempt
starts from the same bindings, and none is left over from an attempt that has failed
(`tryEach_iff`).  So the search succeeds exactly if the first clause has no more literals and some
instance of it is contained in the second: `subsumes_iff`.

**An order.**  `Subsumes` is reflexive and transitive, the bound on the number of literals included,
and does not tell variants apart.  This is what lets a deleted clause be replaced by the one that
subsumes it.
-/

namespace GivenClause

namespace Substitution

/-! ## Matching -/

/-- The map takes every bound variable to its binding. -/
def Agrees (s : Substitution) (σ : String → Term) : Prop := ∀ x t, s.find? x = some t → σ x = t

lemma agrees_empty (σ : String → Term) : empty.Agrees σ := by
  intro x t h
  simp at h

lemma agrees_value (s : Substitution) : s.Agrees s.value := fun _ _ h => value_of_find? h

lemma agrees_insert {s : Substitution} {x : String} (h : s.find? x = none) (t : Term)
    (σ : String → Term) : (s.insert x t).Agrees σ ↔ s.Agrees σ ∧ σ x = t := by
  constructor
  · intro hσ
    refine ⟨fun y u hu => hσ y u ?_, hσ x t (by rw [find?_insert, if_pos rfl])⟩
    have hyx : y ≠ x := by
      rintro rfl
      rw [h] at hu
      cases hu
    rw [find?_insert, if_neg hyx, hu]
  · rintro ⟨hσ, hx⟩ y u hu
    rw [find?_insert] at hu
    split_ifs at hu with hyx
    · rw [hyx, hx]
      exact Option.some.inj hu
    · exact hσ y u hu

/-- Matching two argument lists of one length, if matching does what it should on the members. -/
lemma extendList_iff {args : List Term}
    (ih : ∀ t ∈ args, ∀ (u : Term) (s : Substitution) (σ : String → Term),
      (extend t u s).1 = true ∧ (extend t u s).2.Agrees σ ↔ s.Agrees σ ∧ t.bind σ = u)
    {targets : List Term} (hlength : args.length = targets.length) (s : Substitution)
    (σ : String → Term) :
    (extendList args targets s).1 = true ∧ (extendList args targets s).2.Agrees σ ↔
      s.Agrees σ ∧ args.map (Term.bind σ) = targets := by
  induction args generalizing targets s with
  | nil =>
      cases targets with
      | nil => simp [extendList]
      | cons u us => simp at hlength
  | cons t ts ihts =>
      cases targets with
      | nil => simp at hlength
      | cons u us =>
          have hhead := ih t List.mem_cons_self u s σ
          have htail := @ihts (fun t' ht' => ih t' (List.mem_cons_of_mem t ht')) us
            (by simpa using hlength) (extend t u s).2
          rw [List.map_cons, List.cons.injEq, ← and_assoc, ← hhead, extendList]
          cases hext : extend t u s with
          | mk success s' =>
              cases success with
              | true =>
                  rw [hext] at htail
                  simpa using htail
              | false => simp

/-- **Matching is exact.**  The maps that agree with the result of a successful match are those that
agreed before and take the pattern to the target; a failed match leaves no such map. -/
theorem extend_iff (pattern target : Term) (s : Substitution) (σ : String → Term) :
    (extend pattern target s).1 = true ∧ (extend pattern target s).2.Agrees σ ↔
      s.Agrees σ ∧ pattern.bind σ = target := by
  induction pattern generalizing target s σ with
  | var x =>
      rw [extend, Term.bind_var]
      cases hx : s.find? x with
      | some t =>
          simp only [decide_eq_true_eq]
          constructor
          · rintro ⟨rfl, hσ⟩
            exact ⟨hσ, hσ x t hx⟩
          · rintro ⟨hσ, rfl⟩
            exact ⟨(hσ x t hx).symm, hσ⟩
      | none =>
          simp only [true_and]
          exact agrees_insert hx target σ
  | app f args ih =>
      cases target with
      | var y => simp [extend]
      | app g targets =>
          rw [extend, Term.bind_app]
          split_ifs with hsame
          · obtain ⟨rfl, hlength⟩ := hsame
            rw [extendList_iff ih hlength]
            simp
          · simp only [false_and, Term.app.injEq, false_iff, not_and]
            rintro - rfl rfl
            exact hsame ⟨rfl, (List.length_map _).symm⟩

end Substitution

lemma Literal.matchWith_iff (l m : Literal) (s : Substitution) (σ : String → Term) :
    (l.matchWith s m).1 = true ∧ (l.matchWith s m).2.Agrees σ ↔ s.Agrees σ ∧ l.bind σ = m := by
  have hbind : l.bind σ = m ↔ l.positive = m.positive ∧ l.atom.bind σ = m.atom := by
    constructor
    · rintro rfl
      exact ⟨rfl, (Literal.atom_bind σ l).symm⟩
    · rintro ⟨hsign, hatom⟩
      exact Literal.eq_of_atom_eq hsign ((Literal.atom_bind σ l).trans hatom)
  rw [hbind, Literal.matchWith]
  split_ifs with hsign
  · rw [and_iff_right hsign, ← Substitution.extend_iff, Substitution.matchTerm]
    cases hext : Substitution.extend l.atom m.atom s with
    | mk success s' => cases success <;> simp
  · simp [hsign]

lemma Literal.matchWith_extends (l m : Literal) {s : Substitution} (hs : s.Distinct) :
    s.Extends (l.matchWith s m).2 := by
  rw [Literal.matchWith]
  split_ifs
  · exact Substitution.matchTerm_extends _ _ hs
  · exact Substitution.Extends.refl hs

/-! ## Searching on one substitution -/

section Attempts

variable {attempt : Literal → Substitution → Bool × Substitution} {s : Substitution}

lemma tryEach_extends
    (h : ∀ (m : Literal) {s : Substitution}, s.Distinct → s.Extends (attempt m s).2)
    (ms : List Literal) (hs : s.Distinct) : s.Extends (tryEach attempt ms s).2 := by
  induction ms with
  | nil => exact Substitution.Extends.refl hs
  | cons m ms ih =>
      have hm := h m hs
      rw [tryEach]
      cases hattempt : attempt m s with
      | mk success s' =>
          rw [hattempt] at hm
          cases success with
          | true => exact hm
          | false =>
              simp only [Substitution.backtrack_of_extends hm]
              exact ih

/-- **No attempt sees the bindings of another**: one of them succeeds exactly if it does on the
substitution that they all start from. -/
lemma tryEach_iff
    (h : ∀ (m : Literal) {s : Substitution}, s.Distinct → s.Extends (attempt m s).2)
    (ms : List Literal) (hs : s.Distinct) :
    (tryEach attempt ms s).1 = true ↔ ∃ m ∈ ms, (attempt m s).1 = true := by
  induction ms with
  | nil => simp [tryEach]
  | cons m ms ih =>
      have hm := h m hs
      rw [tryEach, List.exists_mem_cons_iff]
      cases hattempt : attempt m s with
      | mk success s' =>
          rw [hattempt] at hm
          cases success with
          | true => simp
          | false =>
              simp only [Substitution.backtrack_of_extends hm, ih, Bool.false_eq_true, false_or]

lemma andThen_iff {r : Bool × Substitution} {next : Substitution → Bool × Substitution} :
    (andThen r next).1 = true ↔ r.1 = true ∧ (next r.2).1 = true := by
  rw [andThen]
  split_ifs with h <;> simp [h]

lemma andThen_extends {r : Bool × Substitution} {next : Substitution → Bool × Substitution}
    (hr : s.Extends r.2) (hnext : ∀ {s : Substitution}, s.Distinct → s.Extends (next s).2) :
    s.Extends (andThen r next).2 := by
  rw [andThen]
  split_ifs
  · exact hr.trans (hnext hr.distinct)
  · exact hr

end Attempts

lemma matchOnto_extends (targets ls : List Literal) {s : Substitution} (hs : s.Distinct) :
    s.Extends (matchOnto targets ls s).2 := by
  induction ls generalizing s with
  | nil => exact Substitution.Extends.refl hs
  | cons l rest ih =>
      rw [matchOnto]
      exact tryEach_extends (fun m _ hs => andThen_extends (l.matchWith_extends m hs) ih) targets hs

/-- The search finds a way to match all literals whenever there is one. -/
theorem matchOnto_iff (targets ls : List Literal) {s : Substitution} (hs : s.Distinct) :
    (matchOnto targets ls s).1 = true ↔ ∃ σ, s.Agrees σ ∧ ∀ l ∈ ls, l.bind σ ∈ targets := by
  induction ls generalizing s with
  | nil =>
      simp only [matchOnto, List.not_mem_nil, false_imp_iff, implies_true, and_true, true_iff]
      exact ⟨s.value, s.agrees_value⟩
  | cons l rest ih =>
      have hnext : ∀ m, ((matchOnto targets rest (l.matchWith s m).2).1 = true ↔
          ∃ σ, (l.matchWith s m).2.Agrees σ ∧ ∀ k ∈ rest, k.bind σ ∈ targets) :=
        fun m => ih (l.matchWith_extends m hs).distinct
      rw [matchOnto, tryEach_iff (fun m _ hs => andThen_extends (l.matchWith_extends m hs)
        (matchOnto_extends targets rest)) targets hs]
      simp only [andThen_iff, hnext]
      constructor
      · rintro ⟨m, hm, hsuccess, σ, hσ, hrest⟩
        have hl := (l.matchWith_iff m s σ).1 ⟨hsuccess, hσ⟩
        exact ⟨σ, hl.1, List.forall_mem_cons.2 ⟨hl.2 ▸ hm, hrest⟩⟩
      · rintro ⟨σ, hσ, hall⟩
        obtain ⟨hl, hrest⟩ := List.forall_mem_cons.1 hall
        obtain ⟨hsuccess, hσ'⟩ := (l.matchWith_iff (l.bind σ) s σ).2 ⟨hσ, rfl⟩
        exact ⟨l.bind σ, hl, hsuccess, σ, hσ', hrest⟩

/-! ## Subsumption -/

/-- No more literals, and an instance is contained in the other list. -/
def Subsumes (ls ms : List Literal) : Prop :=
  ls.length ≤ ms.length ∧ ∃ θ : String → Term, bindAll θ ls ⊆ ms

/-- **Subsumption is decided.** -/
theorem subsumes_iff (c d : Clause) : subsumes c d = true ↔ Subsumes c.literals d.literals := by
  rw [subsumes, Bool.and_eq_true, decide_eq_true_eq,
    matchOnto_iff _ _ Substitution.distinct_empty, Subsumes]
  refine and_congr_right fun _ => exists_congr fun θ => ?_
  rw [and_iff_right (Substitution.agrees_empty θ)]
  exact List.forall_mem_map.symm

namespace Subsumes

variable {ls ms ks : List Literal}

lemma refl (ls : List Literal) : Subsumes ls ls :=
  ⟨le_refl _, .var, by rw [bindAll_pure]; exact List.Subset.refl ls⟩

lemma trans (h : Subsumes ls ms) (h' : Subsumes ms ks) : Subsumes ls ks := by
  obtain ⟨hlength, θ, hθ⟩ := h
  obtain ⟨hlength', θ', hθ'⟩ := h'
  refine ⟨hlength.trans hlength', fun x => (θ x).bind θ', ?_⟩
  rw [← bindAll_bindAll]
  exact List.Subset.trans (bindAll_subset θ' hθ) hθ'

/-- A clause is subsumed by its variants. -/
lemma of_variant (h : Variant ls ms) : Subsumes ms ls := by
  obtain ⟨τ, hτ⟩ := h.exists_back
  exact ⟨h.length_eq.le, τ, hτ ▸ List.Subset.refl _⟩

/-- An instance of the subsumed clause contains an instance of the other. -/
lemma bindAll (h : Subsumes ls ms) (σ : String → Term) :
    ∃ τ : String → Term, bindAll τ ls ⊆ bindAll σ ms := by
  obtain ⟨-, θ, hθ⟩ := h
  refine ⟨fun x => (θ x).bind σ, ?_⟩
  rw [← bindAll_bindAll]
  exact bindAll_subset σ hθ

/-- The order of the literals does not count. -/
lemma perm {ls' ms' : List Literal} (h : Subsumes ls ms) (hls : ls'.Perm ls) (hms : ms'.Perm ms) :
    Subsumes ls' ms' := by
  obtain ⟨hlength, θ, hθ⟩ := h
  refine ⟨by rwa [hls.length_eq, hms.length_eq], θ, ?_⟩
  exact List.Subset.trans (bindAll_subset θ hls.subset) (List.Subset.trans hθ hms.symm.subset)

end Subsumes

/-- A map that takes the literals of one list into another need only be known on their variables, so it
may as well be a substitution. -/
lemma subsumes_iff_exists_substitution {ls ms : List Literal} :
    Subsumes ls ms ↔ ls.length ≤ ms.length ∧ ∃ θ : Substitution, ∀ l ∈ ls, ∃ m ∈ ms,
      m.positive = l.positive ∧ m.atom = θ.apply l.atom := by
  refine and_congr_right fun _ => ⟨?_, ?_⟩
  · rintro ⟨θ, hθ⟩
    obtain ⟨s, hs⟩ := Substitution.exists_value_eq θ (varsOf ls)
    refine ⟨s, fun l hl => ⟨l.bind θ, hθ (mem_bindAll_of_mem θ hl), rfl, ?_⟩⟩
    rw [Literal.atom_bind]
    exact Term.bind_congr fun x hx => (hs x (mem_varsOf hl hx)).symm
  · rintro ⟨θ, hθ⟩
    refine ⟨θ.value, fun k hk => ?_⟩
    obtain ⟨l, hl, rfl⟩ := mem_bindAll.1 hk
    obtain ⟨m, hm, hsign, hatom⟩ := hθ l hl
    have hlm : l.bind θ.value = m :=
      Literal.eq_of_atom_eq hsign.symm ((Literal.atom_bind θ.value l).trans hatom.symm)
    exact hlm ▸ hm

/-- **Subsumption is decided exactly**, whether or not the clauses share variables.  The first clause
subsumes the second if and only if it has at most as many literals and one substitution takes each of
them to a literal of the second, of the same sign and with that very atom.  Hence the answer does not
depend on the order of the literals in either clause. -/
theorem subsumption_exact (c d : Clause) :
    (subsumes c d = true ↔ c.literals.length ≤ d.literals.length ∧
      ∃ θ : Substitution, ∀ l ∈ c.literals, ∃ m ∈ d.literals,
        m.positive = l.positive ∧ m.atom = θ.apply l.atom) ∧
    ∀ c' d' : Clause, c'.literals.Perm c.literals → d'.literals.Perm d.literals →
      subsumes c' d' = subsumes c d := by
  refine ⟨(subsumes_iff c d).trans subsumes_iff_exists_substitution, fun c' d' hc hd => ?_⟩
  rw [Bool.eq_iff_iff, subsumes_iff, subsumes_iff]
  exact ⟨fun h => h.perm hc.symm hd.symm, fun h => h.perm hc hd⟩

/-- The first literal has two matches in `dilemma`, the first of which leads to a dead end. -/
def hasty : Clause :=
  { literals := [⟨true, "p", [.var "X"]⟩, ⟨true, "q", [.var "X", .var "Y"]⟩] }

/-- A clause over the same variables: `X` has to be matched with itself, after `Y` was tried. -/
def dilemma : Clause :=
  { literals := [⟨true, "p", [.var "Y"]⟩, ⟨true, "p", [.var "X"]⟩,
      ⟨true, "q", [.var "X", .var "X"]⟩] }

theorem hasty_subsumes_dilemma :
    (∃ θ : Substitution, ∀ l ∈ hasty.literals, ∃ m ∈ dilemma.literals,
      m.positive = l.positive ∧ m.atom = θ.apply l.atom) ∧
    hasty.literals.reverse.Perm hasty.literals ∧ dilemma.literals.reverse.Perm dilemma.literals ∧
    subsumes { literals := hasty.literals.reverse } { literals := dilemma.literals.reverse }
      = true := by
  obtain ⟨hexact, horder⟩ := subsumption_exact hasty dilemma
  have hsubsumes : subsumes hasty dilemma = true := by decide
  refine ⟨(hexact.1 hsubsumes).2, List.reverse_perm _, List.reverse_perm _, ?_⟩
  rw [horder _ _ (List.reverse_perm _) (List.reverse_perm _), hsubsumes]

end GivenClause
