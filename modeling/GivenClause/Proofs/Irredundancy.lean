import Mathlib
import GivenClause.Proofs.GivenClauseInvariant

/-!
# Processed clauses do not subsume each other

With subsumption in both directions the processed clauses are reduced: none of them subsumes another
(`Irredundant.antichain`).  The check of the selected clause against the processed ones keeps it from
being subsumed, the check the other way keeps it from subsuming, and both look at the same copy.

Nothing is lost by that.  A processed clause goes only if one that subsumes it comes in, and
subsumption is transitive, so every clause that was ever processed is subsumed by one that still is
(`Represented.transition`, `Irredundant.archived`).  `processed_irredundant` says both of whole
sessions.
-/

namespace GivenClause

lemma Archive.eq_or_mem_of_mem_record {archive : Archive} {c d : Clause}
    (h : d ∈ (archive.record c).entries) : d = c ∨ d ∈ archive.entries := by
  change d ∈ recordIn c archive.entries at h
  generalize archive.entries = entries at h ⊢
  induction entries with
  | nil => exact Or.inl (List.mem_singleton.1 h)
  | cons e rest ih =>
      rw [recordIn] at h
      split_ifs at h
      · exact (List.mem_cons.1 h).imp_right (List.mem_cons_of_mem e)
      · rcases List.mem_cons.1 h with rfl | h
        · exact Or.inr List.mem_cons_self
        · exact (ih h).imp_right (List.mem_cons_of_mem e)

namespace Search

variable {s t : State} {ls : List Literal}

/-- Some processed clause subsumes these literals. -/
def Represented (s : State) (ls : List Literal) : Prop := ∃ d ∈ s.processed, Subsumes d.literals ls

/-- **Once represented, always represented.** -/
theorem Represented.transition {w : Option Clause} (h : Represented s ls) (ht : Transition s t w) :
    Represented t ls := by
  obtain ⟨d, hd, hsubsumes⟩ := h
  cases ht with
  | refuted select | tautology select | subsumed select =>
      exact ⟨d, select.processed_eq ▸ hd, hsubsumes⟩
  | @inferred chosen given s' factors resolvents names names' select =>
      obtain ⟨e, he, hed⟩ := exists_subsumer s' given (select.processed_eq ▸ hd)
      exact ⟨e, he, hed.trans hsubsumes⟩

/-- What stays when the given clause has cleared away what it subsumes. -/
lemma not_subsumes_of_mem_kept {given c : Clause} (backward : s.settings.backwardSubsumption = true)
    (h : c ∈ s.kept given) : ¬ Subsumes given.literals c.literals := by
  rw [State.kept, if_pos backward] at h
  rw [← subsumes_iff]
  simpa using (List.mem_filter.1 h).2

/-- No processed clause subsumes another one, and those that have been processed are represented. -/
structure Irredundant (s : State) : Prop where
  antichain : s.processed.Pairwise fun c d =>
    ¬ Subsumes c.literals d.literals ∧ ¬ Subsumes d.literals c.literals
  archived : ∀ c ∈ s.archive.entries, Represented s c.literals

/-- **With subsumption in both directions a transition keeps the processed clauses irredundant.** -/
theorem Irredundant.transition {w : Option Clause} (h : Irredundant s)
    (forward : s.settings.forwardSubsumption = true)
    (backward : s.settings.backwardSubsumption = true) (ht : Transition s t w) : Irredundant t := by
  have hold : ∀ c ∈ s.archive.entries, Represented t c.literals :=
    fun c hc => (h.archived c hc).transition ht
  cases ht with
  | refuted select | tautology select | subsumed select =>
      obtain ⟨queue, names, -, -, rfl⟩ := select
      exact ⟨h.antichain, hold⟩
  | @inferred chosen given s' factors resolvents names names' select _ _ new =>
      rw [← select.settings_eq] at forward backward
      refine ⟨?_, fun c hc => ?_⟩
      · show (s'.kept given ++ [given]).Pairwise _
        have hkept : (s'.kept given).Sublist s.processed :=
          select.processed_eq ▸ kept_sublist s' given
        refine List.pairwise_append.2 ⟨h.antichain.sublist hkept, List.pairwise_singleton _ _, ?_⟩
        intro c hc d hd
        rw [List.mem_singleton.1 hd]
        exact ⟨new forward c (kept_subset s' given hc), not_subsumes_of_mem_kept backward hc⟩
      · rcases Archive.eq_or_mem_of_mem_record hc with rfl | hc
        · exact ⟨c, by simp, .refl _⟩
        · refine hold c ?_
          obtain ⟨queue, names, -, -, rfl⟩ := select
          exact hc

/-! ## Sessions -/

/-- **The processed clauses are irredundant.**  With subsumption in both directions, at any time in a
session no processed clause subsumes another one, and every clause in the archive, as well as every
clause that was among the processed ones at an earlier time, is subsumed by a processed clause. -/
theorem processed_irredundant (schedule : Schedule) (settings : Settings) (names : NameSupply)
    (clauses : List Clause) (forward : settings.forwardSubsumption = true)
    (backward : settings.backwardSubsumption = true) {u t : State} {before after : List Clause}
    (earlier : Session (State.start schedule settings names clauses) u before)
    (later : Session u t after) :
    (t.processed.Pairwise fun c d => subsumes c d = false ∧ subsumes d c = false) ∧
      (∀ c ∈ t.archive.entries, ∃ d ∈ t.processed, subsumes d c = true) ∧
      ∀ c ∈ u.processed, ∃ d ∈ t.processed, subsumes d c = true := by
  have hstep : ∀ {s t w}, s.settings = settings ∧ Irredundant s → Transition s t w →
      t.settings = settings ∧ Irredundant t := by
    intro s t w hs ht
    exact ⟨ht.settings_eq.trans hs.1,
      hs.2.transition (hs.1 ▸ forward) (hs.1 ▸ backward) ht⟩
  have hignores : ∀ {s : State} (status : Status) (elapsed : Seconds),
      s.settings = settings ∧ Irredundant s →
      ({ s with status := status, elapsed := elapsed } : State).settings = settings ∧
        Irredundant { s with status := status, elapsed := elapsed } :=
    fun _ _ hs => ⟨hs.1, hs.2.antichain, hs.2.archived⟩
  have hu := (earlier.invariant hstep hignores
    ⟨rfl, by simp [State.start], by simp [State.start]⟩).1
  obtain ⟨-, hirredundant⟩ := (later.invariant hstep hignores hu).1
  have hearlier := (later.invariant (P := fun s => ∀ c ∈ u.processed, Represented s c.literals)
    (fun hs ht c hc => (hs c hc).transition ht) (fun _ _ hs => hs) fun c hc => ⟨c, hc, .refl _⟩).1
  simp only [← Bool.not_eq_true, subsumes_iff]
  exact ⟨hirredundant.antichain, hirredundant.archived, hearlier⟩

/-- A clause, an unrelated one, a clause that subsumes the first, and an instance of that one. -/
def specialCases : List Clause :=
  [{ literals := [⟨true, "p", [.app "a" []]⟩, ⟨true, "q", [.app "a" []]⟩] },
   { literals := [⟨true, "r", [.var "X"]⟩] },
   { literals := [⟨true, "p", [.var "X"]⟩] },
   { literals := [⟨true, "p", [.app "b" []]⟩] }]

/-- The first clause is processed, and gone at the end, where two other ones are left. -/
theorem specialCases_represented :
    ∃ u t c, Session (State.start (.start "fifo" [⟨1, .freshAge⟩])
        { forwardSubsumption := true, backwardSubsumption := true } {} specialCases) u [] ∧
      Session u t [] ∧ u.processed = [c] ∧ c ∉ t.processed ∧ t.processed.length = 2 ∧
      (t.processed.Pairwise fun c d => subsumes c d = false ∧ subsumes d c = false) ∧
      t.archive.entries.length = 3 ∧
      (∀ c ∈ t.archive.entries, ∃ d ∈ t.processed, subsumes d c = true) ∧
      ∃ d ∈ t.processed, subsumes d c = true := by
  have hcalls : ((State.start (.start "fifo" [⟨1, .freshAge⟩])
      { forwardSubsumption := true, backwardSubsumption := true } {} specialCases).saturate
        (some .atOnce) (.steady (.finite 0)) 9).toOption.any (fun first =>
      decide (first.refutation = none ∧ first.state.processed.length = 1) &&
      (first.state.saturate none (.steady (.finite 0)) 9).toOption.any fun second =>
        decide (second.refutation = none ∧ second.state.processed.length = 2 ∧
          second.state.archive.entries.length = 3 ∧
          ∀ c ∈ first.state.processed, c ∉ second.state.processed)) = true := by decide +kernel
  obtain ⟨first, hfirst, hcalls⟩ := exists_ok_of_any hcalls
  obtain ⟨hbefore, hcalls⟩ := Bool.and_eq_true_iff.1 hcalls
  obtain ⟨second, hsecond, hafter⟩ := exists_ok_of_any hcalls
  obtain ⟨hquiet, hone⟩ := of_decide_eq_true hbefore
  obtain ⟨hquiet', htwo, hthree, hgone⟩ := of_decide_eq_true hafter
  obtain ⟨c, hc⟩ := List.length_eq_one_iff.1 hone
  have hearlier := Session.start.saturate hfirst
  have hlater := Session.start.saturate hsecond
  rw [hquiet] at hearlier
  rw [hquiet'] at hlater
  obtain ⟨hantichain, harchived, hpresent⟩ :=
    processed_irredundant _ _ _ _ rfl rfl hearlier hlater
  exact ⟨first.state, second.state, c, hearlier, hlater, hc, hgone c (by simp [hc]), htwo, hantichain,
    hthree, harchived, hpresent c (by simp [hc])⟩

end Search

end GivenClause
