import Mathlib
import GivenClause.Proofs.Interpretation
import GivenClause.Proofs.Sessions

/-!
# Refutations are sound

With the occurs check, what the search derives is valid wherever the input is: a fresh copy is an
instance, a factor contains an instance, and a resolvent is what is left of two instances behind a
complementary pair.  So a session in which a contradiction is returned had an input without models.

Nothing is assumed about the schedule, the deletion rules, the names in use or the order of calls.
The deletion rules only ever take clauses away, and a common property does not mind that.
-/

universe u

namespace GivenClause.Search

open Unification

/-- The occurs check is on. -/
lemma Settings.cycles_of_occursCheck {settings : Settings} (h : settings.occursCheck = true) :
    settings.cycles = .reject := if_pos h

variable {D : Type u}

/-- A factor of a valid clause is valid: it has all literals of an instance, the dropped one being
equal to the one it was unified with. -/
lemma validates_factor {I : Interpretation D} {c r : Clause} {i j : ℕ} (hij : i < j)
    (hc : I.Validates c.literals) (h : factor .reject c i j = .ok (some r)) :
    I.Validates r.literals := by
  obtain ⟨l, m, σ, hl, hm, hsign, hσ, rfl⟩ := factor_eq_some_iff.1 h
  refine (hc.bindAll σ.value).mono fun x hx => ?_
  obtain ⟨k, hk, rfl⟩ := mem_bindAll.1 hx
  rw [mem_conclusion]
  rcases eq_or_mem_eraseIdx hm hk with rfl | hk
  · have hsame : k.bind σ.value = l.bind σ.value := by
      refine Literal.eq_of_atom_eq hsign.symm ?_
      rw [Literal.atom_bind, Literal.atom_bind, unify_reject hσ]
    rw [hsame]
    exact mem_bindAll_of_mem _ (List.mem_eraseIdx_iff_getElem?.2 ⟨i, hij.ne, hl⟩)
  · exact mem_bindAll_of_mem _ hk

/-- A resolvent of valid clauses is valid. -/
lemma validates_resolve {I : Interpretation D} {c d r : Clause} {i j : ℕ}
    (hc : I.Validates c.literals) (hd : I.Validates d.literals)
    (h : resolve .reject c i d j = .ok (some r)) : I.Validates r.literals := by
  obtain ⟨l, m, σ, hl, hm, hsign, hσ, rfl⟩ := resolve_eq_some_iff.1 h
  have hatom : (l.bind σ.value).atom = (m.bind σ.value).atom := by
    rw [Literal.atom_bind, Literal.atom_bind, unify_reject hσ]
  refine Interpretation.Validates.cut (hc.bindAll σ.value) (hd.bindAll σ.value)
    (l := l.bind σ.value) (m := m.bind σ.value) hsign hatom (fun x hx => ?_) (fun x hx => ?_)
  · obtain ⟨k, hk, rfl⟩ := mem_bindAll.1 hx
    refine (eq_or_mem_eraseIdx hl hk).imp (fun e => by rw [e]) fun hk => ?_
    exact mem_conclusion.2 (mem_bindAll_of_mem _ (List.mem_append_left _ hk))
  · obtain ⟨k, hk, rfl⟩ := mem_bindAll.1 hx
    refine (eq_or_mem_eraseIdx hm hk).imp (fun e => by rw [e]) fun hk => ?_
    exact mem_conclusion.2 (mem_bindAll_of_mem _ (List.mem_append_right _ hk))

/-- **Validity is inherited** under the occurs check. -/
theorem inherited_validates (I : Interpretation D) : Inherited .reject I.Validates where
  copy := by
    rintro ls ms ⟨ρ, -, rfl⟩ hls
    exact hls.bindAll _
  factor := validates_factor
  resolve := validates_resolve

/-- **Refutation soundness.**  If a session with the occurs check has returned a contradiction, the
clauses it started from have no model. -/
theorem unsatisfiable_of_returned (schedule : Schedule) (settings : Settings) (names : NameSupply)
    (clauses : List Clause) (check : settings.occursCheck = true) {t : State}
    {returned : List Clause}
    (session : Session (State.start schedule settings names clauses) t returned) {c : Clause}
    (found : c ∈ returned) : ¬ Satisfiable.{u} clauses := by
  rintro ⟨D, I, hD, hmodel⟩
  -- the invariant: the check stays on, and every clause is valid in the model
  have hinvariant := session.invariant
    (P := fun s => s.settings.cycles = .reject ∧ Everywhere I.Validates s)
    (fun {s t w} hs ht => ⟨ht.settings_eq ▸ hs.1,
      (hs.2.transition (hs.1 ▸ inherited_validates I) ht).1⟩)
    (fun _ _ hs => hs)
    ⟨Settings.cycles_of_occursCheck check, everywhere_start schedule settings names hmodel⟩
  obtain ⟨u, v, ⟨hcheck, hvalid⟩, htransition⟩ := hinvariant.2 c found
  have hc := (hvalid.transition (hcheck ▸ inherited_validates I) htransition).2 c rfl
  cases htransition with
  | refuted select empty => exact hc.ne_nil empty

/-- Two clauses that cannot be refuted without factoring. -/
def needsFactoring : List Clause :=
  [{ literals := [⟨true, "p", [.var "X"]⟩, ⟨true, "p", [.var "Y"]⟩] },
   { literals := [⟨false, "p", [.var "X"]⟩, ⟨false, "p", [.var "Y"]⟩] }]

theorem needsFactoring_unsatisfiable :
    (∃ t c, Session (State.start .standard { occursCheck := true } {} needsFactoring) t [c]) ∧
      ¬ Satisfiable.{0} needsFactoring := by
  obtain ⟨run, hrun, hsome⟩ : ∃ run, (State.start .standard { occursCheck := true } {}
      needsFactoring).saturate none (.steady (.finite 0)) 20 = .ok run ∧
      run.refutation.isSome = true := exists_ok_of_any (by decide +kernel)
  obtain ⟨c, hc⟩ := Option.isSome_iff_exists.1 hsome
  have hsession := Session.start.saturate hrun
  rw [hc] at hsession
  exact ⟨⟨run.state, c, hsession⟩,
    unsatisfiable_of_returned _ _ _ _ rfl hsession List.mem_cons_self⟩

end GivenClause.Search
