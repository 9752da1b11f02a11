import Mathlib
import GivenClause.Proofs.ClauseNames
import GivenClause.Proofs.Sessions

/-!
# The history that a search keeps

Every clause of a search says where it comes from: its support names the clauses that it was derived
from, and these are in the archive.  This file shows that what it says is true (`Derived`), and that
the archive is a chronicle: each clause in it was derived from earlier ones (`Chronicle`).

Three things make that work.  The archive records the copy that the inferences were made with, so a
support link leads to the very literals that were used.  Names are never issued twice, so recording a
clause never replaces another.  And only the archive is asked, not the processed clauses, so nothing
is lost when these are dropped.
-/

namespace GivenClause

open Unification

/-! ## Derived clauses -/

/-- How a clause came about, given the input and the clauses that were there before: up to the names
of variables it is an input clause, a factor or a resolvent, and its support says of which. -/
inductive Derived (cycles : Cycles) (inputs earlier : List Clause) (c : Clause) : Prop
  | input {d : Clause} (member : d ∈ inputs) (support : c.support = [])
      (copy : Variant d.literals c.literals)
  | factored {p r : Clause} {k l : ℕ} (premise : p ∈ earlier) (support : c.support = [p.name])
      (order : k < l) (rule : factor cycles p k l = .ok (some r))
      (copy : Variant r.literals c.literals)
  | resolved {p q r : Clause} {k l : ℕ} (first : p ∈ earlier) (second : q ∈ earlier)
      (support : c.support = [p.name, q.name]) (rule : resolve cycles p k q l = .ok (some r))
      (copy : Variant r.literals c.literals)

namespace Derived

variable {cycles : Cycles} {inputs earlier later : List Clause} {c c' : Clause}

lemma mono (h : Derived cycles inputs earlier c) (hsub : earlier ⊆ later) :
    Derived cycles inputs later c := by
  cases h with
  | input member support copy => exact .input member support copy
  | factored premise support order rule copy => exact .factored (hsub premise) support order rule copy
  | resolved first second support rule copy =>
      exact .resolved (hsub first) (hsub second) support rule copy

/-- A copy came about in the same way. -/
lemma of_copy (h : Derived cycles inputs earlier c) (hsupport : c'.support = c.support)
    (hcopy : Variant c.literals c'.literals) : Derived cycles inputs earlier c' := by
  cases h with
  | input member support copy => exact .input member (hsupport.trans support) (copy.trans hcopy)
  | factored premise support order rule copy =>
      exact .factored premise (hsupport.trans support) order rule (copy.trans hcopy)
  | resolved first second support rule copy =>
      exact .resolved first second (hsupport.trans support) rule (copy.trans hcopy)

/-- The support names earlier clauses. -/
lemma exists_premise (h : Derived cycles inputs earlier c) {name : String} (hn : name ∈ c.support) :
    ∃ p ∈ earlier, p.name = name := by
  cases h with
  | input _ support =>
      rw [support] at hn
      cases hn
  | factored premise support =>
      rw [support, List.mem_singleton] at hn
      exact ⟨_, premise, hn.symm⟩
  | resolved first second support =>
      rw [support, List.mem_cons, List.mem_singleton] at hn
      rcases hn with rfl | rfl
      · exact ⟨_, first, rfl⟩
      · exact ⟨_, second, rfl⟩

end Derived

/-- A list of clauses each of which was derived from those before it. -/
inductive Chronicle (cycles : Cycles) (inputs : List Clause) : List Clause → Prop
  | nil : Chronicle cycles inputs []
  | snoc {entries : List Clause} {c : Clause} (before : Chronicle cycles inputs entries)
      (derived : Derived cycles inputs entries c) : Chronicle cycles inputs (entries ++ [c])

/-- In a chronicle a clause was derived from clauses at smaller positions. -/
lemma Chronicle.derived_take {cycles : Cycles} {inputs entries : List Clause}
    (h : Chronicle cycles inputs entries) {k : ℕ} {c : Clause} (hk : entries[k]? = some c) :
    Derived cycles inputs (entries.take k) c := by
  induction h generalizing k with
  | nil => simp at hk
  | @snoc entries d before derived ih =>
      rcases Nat.lt_trichotomy k entries.length with hlt | rfl | hgt
      · rw [List.getElem?_append_left hlt] at hk
        rw [List.take_append_of_le_length hlt.le]
        exact ih hk
      · rw [List.getElem?_concat_length, Option.some.injEq] at hk
        rw [List.take_left', ← hk]
        · exact derived
        · rfl
      · rw [List.getElem?_eq_none (by simp; omega)] at hk
        cases hk

lemma Archive.entries_record_of_new {archive : Archive} {c : Clause}
    (h : c.name ∉ archive.entries.map Clause.name) :
    (archive.record c).entries = archive.entries ++ [c] := by
  show recordIn c archive.entries = _
  generalize archive.entries = entries at h ⊢
  induction entries with
  | nil => rfl
  | cons d rest ih =>
      rw [List.map_cons, List.mem_cons, not_or] at h
      rw [recordIn, if_neg fun e : d.name = c.name => h.1 e.symm, ih h.2, List.cons_append]

namespace Search

open Relation

/-! ## The invariant -/

/-- What is recorded is a chronicle, what waits was derived from what is recorded, and all names are
different and taken. -/
structure History (clauses : List Clause) (s : State) : Prop where
  distinct : ((s.archive.entries ++ s.unprocessed.items).map Clause.name).Nodup
  taken : ∀ c ∈ s.archive.entries ++ s.unprocessed.items, c.name ∈ s.names.taken
  processed : s.processed ⊆ s.archive.entries
  archived : Chronicle s.settings.cycles clauses s.archive.entries
  waiting : ∀ c ∈ s.unprocessed.items, Derived s.settings.cycles clauses s.archive.entries c

/-- A selection touches the queue and the supply of variables only, and the copy of the selected
clause has its name and its support. -/
lemma Selects.frame {s s' : State} {chosen given : Clause} (h : Selects s chosen given s') :
    s'.archive = s.archive ∧ s'.names.taken = s.names.taken ∧ given.name = chosen.name ∧
      given.support = chosen.support := by
  obtain ⟨queue, names, -, hcopy, rfl⟩ := h
  obtain ⟨hnames, -, κ, -, -, rfl⟩ := Clause.freshCopy_eq hcopy
  refine ⟨rfl, ?_, rfl, rfl⟩
  show names.taken = _
  rw [hnames]

lemma History.select {clauses : List Clause} {s s' : State} {chosen given : Clause}
    (h : History clauses s) (select : Selects s chosen given s') :
    History clauses s' ∧ Derived s'.settings.cycles clauses s'.archive.entries given ∧
      (((s'.archive.entries ++ [given]) ++ s'.unprocessed.items).map Clause.name).Nodup ∧
      given.name ∈ s'.names.taken := by
  obtain ⟨harchive, htaken, hname, hsupport⟩ := select.frame
  have hperm := select.items_perm
  have hchosen : chosen ∈ s.unprocessed.items := hperm.mem_iff.2 List.mem_cons_self
  have hitems : s'.unprocessed.items ⊆ s.unprocessed.items :=
    fun c hc => hperm.mem_iff.2 (List.mem_cons_of_mem _ hc)
  have hnodup : (((s'.archive.entries ++ [given]) ++ s'.unprocessed.items).map
      Clause.name).Nodup := by
    have hnames : ((s'.archive.entries ++ [given]) ++ s'.unprocessed.items).map Clause.name =
        (s.archive.entries ++ chosen :: s'.unprocessed.items).map Clause.name := by
      simp [harchive, hname]
    rw [hnames, ← ((hperm.append_left s.archive.entries).map Clause.name).nodup_iff]
    exact h.distinct
  refine ⟨⟨?_, fun c hc => ?_, ?_, ?_, fun c hc => ?_⟩, ?_, hnodup, ?_⟩
  · refine hnodup.sublist (List.Sublist.map _ ?_)
    exact List.Sublist.append_right (List.sublist_append_left _ _) _
  · rw [htaken]
    refine h.taken c (List.mem_append.2 ?_)
    rw [harchive] at hc
    exact (List.mem_append.1 hc).imp_right fun hc => hitems hc
  · rw [select.processed_eq, harchive]
    exact h.processed
  · rw [select.settings_eq, harchive]
    exact h.archived
  · rw [select.settings_eq, harchive]
    exact h.waiting c (hitems hc)
  · rw [select.settings_eq, harchive]
    exact (h.waiting chosen hchosen).of_copy hsupport select.variant
  · rw [htaken, hname]
    exact h.taken chosen (List.mem_append_right _ hchosen)

/-- The conclusions from a given clause are derived from it and the clauses that it met. -/
lemma derived_of_mem_conclusions {cycles : Cycles} {clauses entries members factors resolvents :
    List Clause} {given : Clause} {names₀ names₁ names₂ : NameSupply} (hgiven : given ∈ entries)
    (hmembers : members ⊆ entries)
    (factored : allFactors cycles names₀ given = .ok (factors, names₁))
    (resolved : allResolvents cycles names₁ given members = .ok (resolvents, names₂)) {c : Clause}
    (hc : c ∈ factors ++ resolvents) : Derived cycles clauses entries c := by
  rcases List.mem_append.1 hc with hc | hc
  · obtain ⟨found, hnamed, hfound⟩ := allFactors_eq factored
    obtain ⟨r, hr, hlits⟩ := mem_nameConclusions hnamed hc
    obtain ⟨hsupport, k, l, hkl, hrule⟩ := (hfound _ _).1 hr
    exact .factored hgiven hsupport hkl hrule (hlits ▸ .refl _)
  · obtain ⟨found, hnamed, hfound⟩ := allResolvents_eq resolved
    obtain ⟨r, hr, hlits⟩ := mem_nameConclusions hnamed hc
    obtain ⟨d, hd, hsupport, k, l, hrule⟩ := (hfound _ _).1 hr
    exact .resolved hgiven (hmembers hd) hsupport hrule (hlits ▸ .refl _)

/-- **Every transition keeps the history.** -/
theorem History.transition {clauses : List Clause} {s t : State} {w : Option Clause}
    (h : History clauses s) (ht : Transition s t w) : History clauses t := by
  cases ht with
  | refuted select | tautology select | subsumed select =>
      obtain ⟨hdistinct, htaken, hprocessed, harchived, hwaiting⟩ := (h.select select).1
      exact ⟨hdistinct, htaken, hprocessed, harchived, hwaiting⟩
  | @inferred chosen given s' factors resolvents names names' select _ _ _ factored resolved =>
      obtain ⟨hs', hderived, hnodup, hgiven⟩ := h.select select
      obtain ⟨found, hnamed, -⟩ := allFactors_eq factored
      obtain ⟨found', hnamed', -⟩ := allResolvents_eq resolved
      have hissues := (issues_nameConclusions hnamed).append (issues_nameConclusions hnamed')
      rw [← List.map_append] at hissues
      have hnew : given.name ∉ s'.archive.entries.map Clause.name := by
        rw [List.map_append, List.map_append] at hnodup
        have harchive := (List.nodup_append'.1 hnodup).1
        exact fun hmem => (List.nodup_append'.1 harchive).2.2 hmem (by simp)
      have hentries := Archive.entries_record_of_new hnew
      have hold : ∀ c ∈ (s'.archive.entries ++ [given]) ++ s'.unprocessed.items,
          c.name ∈ s'.names.taken := by
        intro c hc
        rw [List.append_assoc, List.mem_append] at hc
        rcases hc with hc | hc
        · exact hs'.taken c (List.mem_append_left _ hc)
        · rcases List.mem_cons.1 hc with rfl | hc
          · exact hgiven
          · exact hs'.taken c (List.mem_append_right _ hc)
      constructor
      · -- what has just been issued is different from all that was taken
        show (((s'.archive.record given).entries ++ _).map _).Nodup
        rw [Queue.items_insertAll, hentries, ← List.append_assoc, List.map_append]
        refine List.nodup_append'.2 ⟨hnodup, hissues.2.1, fun name hname hissued => ?_⟩
        obtain ⟨c, hc, rfl⟩ := List.mem_map.1 hname
        exact hissues.2.2 c.name hissued (hold c hc)
      · intro c hc
        show c.name ∈ names'.taken
        rw [Queue.items_insertAll, hentries, ← List.append_assoc] at hc
        rw [hissues.mem_taken]
        rcases List.mem_append.1 hc with hc | hc
        · exact Or.inr (hold c hc)
        · exact Or.inl (List.mem_map_of_mem hc)
      · show s'.kept given ++ [given] ⊆ (s'.archive.record given).entries
        rw [hentries]
        refine List.append_subset.2 ⟨fun c hc => ?_, List.subset_append_right _ _⟩
        exact List.mem_append_left _ (hs'.processed (kept_subset s' given hc))
      · show Chronicle _ clauses (s'.archive.record given).entries
        rw [hentries]
        exact .snoc hs'.archived hderived
      · intro c hc
        show Derived _ clauses (s'.archive.record given).entries c
        rw [Queue.items_insertAll] at hc
        rw [hentries]
        rcases List.mem_append.1 hc with hc | hc
        · exact (hs'.waiting c hc).mono (List.subset_append_left _ _)
        · refine derived_of_mem_conclusions (by simp) (fun d hd => ?_) factored resolved hc
          exact List.mem_append_left _ (hs'.processed (kept_subset s' given hd))

/-- At the start nothing is recorded, and the input waits under new names. -/
theorem history_start (schedule : Schedule) (settings : Settings) (names : NameSupply)
    {clauses : List Clause} (unsupported : ∀ c ∈ clauses, c.support = []) :
    History clauses (State.start schedule settings names clauses) := by
  have hissues := issues_nameClauses names clauses
  constructor
  · rw [items_start]
    exact hissues.2.1
  · intro c hc
    rw [items_start] at hc
    exact hissues.mem_taken.2 (Or.inl (List.mem_map_of_mem hc))
  · exact List.nil_subset _
  · exact .nil
  · intro c hc
    rw [items_start] at hc
    obtain ⟨d, hd, hcd⟩ := mem_nameClauses hc
    rw [hcd]
    exact .input hd (unsupported d hd) (.refl _)

end Search

end GivenClause
