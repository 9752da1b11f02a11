import Mathlib
import GivenClause.Proofs.Sessions

/-!
# The given-clause invariant

As long as no contradiction has been selected, the search loses nothing.

**Accounted for.**  A list of literals is accounted for if a clause with just these literals waits,
or a processed clause subsumes it, or it is a tautology and tautologies are deleted.  Once accounted
for, always accounted for (`Accounted.transition`): a selected clause is deleted for one of the two
reasons or becomes a processed clause that subsumes it, and a processed clause only makes room for
one that subsumes it.

**Nothing is lost.**  The input, the factors of processed clauses and the resolvents of any two
processed clauses are accounted for (`NothingLost`).  Two processed clauses were resolved when the
later of them was selected; a clause is never resolved with itself.  `no_inference_lost` says it of
whole runs.

**Apart.**  Different processed clauses have no variable in common (`Apart`), because each of them is
a fresh copy and counts only go up.  `variables_renamed_apart` says it of whole sessions, and of the
selected clause too.
-/

namespace GivenClause.Search

open Relation Unification

/-! ## Accounted for -/

/-- Literals that wait, are subsumed by a processed clause, or may be deleted as a tautology. -/
def Accounted (s : State) (ls : List Literal) : Prop :=
  (∃ c ∈ s.unprocessed.items, c.literals = ls) ∨ (∃ d ∈ s.processed, Subsumes d.literals ls) ∨
    s.settings.deleteTautologies = true ∧ Tautological ls

/-- A processed clause stays, or the given clause subsumes it. -/
lemma mem_kept_or_subsumes (s : State) (given : Clause) {d : Clause} (h : d ∈ s.processed) :
    d ∈ s.kept given ∨ Subsumes given.literals d.literals := by
  rw [State.kept]
  split_ifs
  · by_cases hsub : subsumes given d = true
    · exact Or.inr ((subsumes_iff given d).1 hsub)
    · refine Or.inl (List.mem_filter.2 ⟨h, ?_⟩)
      simpa using hsub
  · exact Or.inl h

/-- If a processed clause has to make room, one that subsumes it comes in. -/
lemma exists_subsumer (s : State) (given : Clause) {d : Clause} (h : d ∈ s.processed) :
    ∃ e ∈ s.kept given ++ [given], Subsumes e.literals d.literals := by
  rcases mem_kept_or_subsumes s given h with hkept | hsubsumes
  · exact ⟨d, List.mem_append_left _ hkept, .refl _⟩
  · exact ⟨given, by simp, hsubsumes⟩

/-- **Once accounted for, always accounted for**, up to the selection of a contradiction. -/
theorem Accounted.transition {s t : State} {ls : List Literal} (h : Accounted s ls)
    (ht : Transition s t none) : Accounted t ls := by
  cases ht with
  | @tautology chosen given s' select _ switch tautological =>
      rcases h with ⟨c, hc, rfl⟩ | h | h
      · rcases List.mem_cons.1 (select.items_perm.mem_iff.1 hc) with rfl | hc
        · exact Or.inr (Or.inr ⟨switch, (select.variant.tautological_iff).1 tautological⟩)
        · exact Or.inl ⟨c, hc, rfl⟩
      · exact Or.inr (Or.inl (select.processed_eq ▸ h))
      · exact Or.inr (Or.inr (select.settings_eq ▸ h))
  | @subsumed chosen given subsumer s' select _ _ member hsubsumes =>
      rcases h with ⟨c, hc, rfl⟩ | h | h
      · rcases List.mem_cons.1 (select.items_perm.mem_iff.1 hc) with rfl | hc
        · exact Or.inr (Or.inl ⟨subsumer, member, hsubsumes.trans (.of_variant select.variant)⟩)
        · exact Or.inl ⟨c, hc, rfl⟩
      · exact Or.inr (Or.inl (select.processed_eq ▸ h))
      · exact Or.inr (Or.inr (select.settings_eq ▸ h))
  | @inferred chosen given s' factors resolvents names names' select _ _ _ _ _ =>
      have hgiven : given ∈ s'.kept given ++ [given] := by simp
      rcases h with ⟨c, hc, rfl⟩ | ⟨d, hd, hsub⟩ | h
      · rcases List.mem_cons.1 (select.items_perm.mem_iff.1 hc) with rfl | hc
        · exact Or.inr (Or.inl ⟨given, hgiven, .of_variant select.variant⟩)
        · refine Or.inl ⟨c, ?_, rfl⟩
          rw [Queue.items_insertAll]
          exact List.mem_append_left _ hc
      · rw [← select.processed_eq] at hd
        obtain ⟨e, he, hsubsumes⟩ := exists_subsumer s' given hd
        exact Or.inr (Or.inl ⟨e, he, hsubsumes.trans hsub⟩)
      · exact Or.inr (Or.inr (select.settings_eq ▸ h))

/-! ## Nothing is lost -/

/-- The input and all conclusions from processed clauses are accounted for.  In `resolvents` the
clause `c` was processed before `d`. -/
structure NothingLost (clauses : List Clause) (s : State) : Prop where
  input : ∀ c ∈ clauses, Accounted s c.literals
  factors : ∀ c ∈ s.processed, ∀ i j r, i < j → factor s.settings.cycles c i j = .ok (some r) →
    Accounted s r.literals
  resolvents : s.processed.Pairwise fun c d => ∀ i j r,
    resolve s.settings.cycles d i c j = .ok (some r) → Accounted s r.literals

lemma kept_sublist (s : State) (given : Clause) : (s.kept given).Sublist s.processed := by
  rw [State.kept]
  split_ifs
  · exact List.filter_sublist
  · exact List.Sublist.refl _

theorem NothingLost.transition {clauses : List Clause} {s t : State} (h : NothingLost clauses s)
    (ht : Transition s t none) : NothingLost clauses t := by
  have haccounted : ∀ {ls}, Accounted s ls → Accounted t ls := fun hls => hls.transition ht
  -- as long as no clause is processed, there are no new conclusions to account for
  have hold : s.processed = t.processed → NothingLost clauses t := by
    intro hprocessed
    refine ⟨fun c hc => haccounted (h.input c hc), ?_, ?_⟩
    · rw [ht.settings_eq, ← hprocessed]
      exact fun c hc i j r hij hr => haccounted (h.factors c hc i j r hij hr)
    · rw [ht.settings_eq, ← hprocessed]
      exact h.resolvents.imp fun hcd i j r hr => haccounted (hcd i j r hr)
  cases ht with
  | tautology select | subsumed select => exact hold select.processed_eq.symm
  | @inferred chosen given s' factors resolvents names names' select _ _ _ factored resolved =>
      have hsettings := select.settings_eq
      have hprocessed := select.processed_eq
      obtain ⟨found, hnamed, hfound⟩ := allFactors_eq factored
      obtain ⟨found', hnamed', hfound'⟩ := allResolvents_eq resolved
      refine ⟨fun c hc => haccounted (h.input c hc), fun c hc i j r hij hr => ?_, ?_⟩
      · rcases List.mem_append.1 hc with hc | hc
        · refine haccounted (h.factors c ?_ i j r hij (hsettings ▸ hr))
          rw [← hprocessed]
          exact kept_subset s' given hc
        · -- the factors of the given clause have just been put into the queue
          rw [List.mem_singleton.1 hc] at hr
          obtain ⟨c', hc', hlits⟩ :=
            exists_mem_nameConclusions hnamed ((hfound _ r).2 ⟨rfl, i, j, hij, hr⟩)
          refine Or.inl ⟨c', ?_, hlits⟩
          rw [Queue.items_insertAll]
          exact List.mem_append_right _ (List.mem_append_left _ hc')
      · show (s'.kept given ++ [given]).Pairwise _
        rw [List.pairwise_append]
        refine ⟨?_, List.pairwise_singleton _ _, fun c hc d hd i j r hr => ?_⟩
        · have hsub : (s'.kept given).Sublist s.processed := hprocessed ▸ kept_sublist s' given
          refine (h.resolvents.sublist hsub).imp fun hcd i j r hr => haccounted (hcd i j r ?_)
          exact hsettings ▸ hr
        · -- and so have its resolvents with the clauses that were kept
          rw [List.mem_singleton.1 hd] at hr
          obtain ⟨c', hc', hlits⟩ :=
            exists_mem_nameConclusions hnamed' ((hfound' _ r).2 ⟨c, hc, rfl, i, j, hr⟩)
          refine Or.inl ⟨c', ?_, hlits⟩
          rw [Queue.items_insertAll]
          exact List.mem_append_right _ (List.mem_append_right _ hc')

theorem nothingLost_start (schedule : Schedule) (settings : Settings) (names : NameSupply)
    (clauses : List Clause) : NothingLost clauses (State.start schedule settings names clauses) where
  input := by
    intro c hc
    obtain ⟨c', hc', hlits⟩ := @exists_mem_nameClauses names _ _ hc
    exact Or.inl ⟨c', by rw [items_start]; exact hc', hlits⟩
  factors := by simp [State.start]
  resolvents := by simp [State.start]

/-! ## Apart -/

/-- Processed clauses have literals, their variables have been issued, and no two of them share
one. -/
structure Apart (s : State) : Prop where
  nonempty : ∀ c ∈ s.processed, c.literals ≠ []
  issued : ∀ c ∈ s.processed, ∀ x ∈ varsOf c.literals,
    ∃ k ≤ s.names.variableCount, x = s.names.variableName k
  disjoint : s.processed.Pairwise fun c d => ∀ x ∈ varsOf c.literals, x ∉ varsOf d.literals

/-- Naming conclusions issues no variables. -/
lemma variables_nameConclusions {names names' : NameSupply}
    {found : List (List String × Option Clause)} {rs : List Clause}
    (h : nameConclusions names found = (rs, names')) :
    names'.variableStem = names.variableStem ∧ names'.variableCount = names.variableCount := by
  induction found generalizing names names' rs with
  | nil =>
      obtain ⟨-, rfl⟩ := Prod.mk.inj h
      exact ⟨rfl, rfl⟩
  | cons entry rest ih =>
      obtain ⟨support, _ | c⟩ := entry
      · exact ih h
      · obtain ⟨-, rfl⟩ := Prod.mk.inj h
        obtain ⟨hstem, hcount⟩ := @ih names.freshClause.2 _ _ rfl
        exact ⟨hstem, hcount⟩

/-- The supply after a selection: the given clause has numbers that no processed clause has. -/
lemma Apart.select {s s' : State} {chosen given : Clause} (h : Apart s)
    (select : Selects s chosen given s') :
    Apart s' ∧ (∀ x ∈ varsOf given.literals,
      ∃ k ≤ s'.names.variableCount, x = s'.names.variableName k) ∧
      ∀ c ∈ s'.processed, ∀ x ∈ varsOf c.literals, x ∉ varsOf given.literals := by
  obtain ⟨queue, names, -, hcopy, rfl⟩ := select
  obtain ⟨hnames, hle, -⟩ := Clause.freshCopy_eq hcopy
  have hname : names.variableName = s.names.variableName := by
    rw [hnames]
    rfl
  have hissued : ∀ c ∈ s.processed, ∀ x ∈ varsOf c.literals,
      ∃ k ≤ names.variableCount, x = names.variableName k := by
    intro c hc x hx
    obtain ⟨k, hk, hxk⟩ := h.issued c hc x hx
    exact ⟨k, hk.trans hle, hname ▸ hxk⟩
  refine ⟨⟨h.nonempty, hissued, h.disjoint⟩, fun x hx => ?_, fun c hc x hx hx' => ?_⟩
  · obtain ⟨k, -, hk, hxk⟩ := Clause.mem_vars_freshCopy hcopy hx
    exact ⟨k, hk, hname ▸ hxk⟩
  · obtain ⟨k, hk, hxk⟩ := h.issued c hc x hx
    obtain ⟨k', hk', -, hxk'⟩ := Clause.mem_vars_freshCopy hcopy hx'
    have hkk' : k = k' := s.names.variableName_injective (hxk ▸ hxk')
    omega

theorem Apart.transition {s t : State} {w : Option Clause} (h : Apart s) (ht : Transition s t w) :
    Apart t := by
  cases ht with
  | refuted select | tautology select | subsumed select =>
      obtain ⟨hnonempty, hissued, hdisjoint⟩ := (h.select select).1
      exact ⟨hnonempty, hissued, hdisjoint⟩
  | @inferred chosen given s' factors resolvents names names' select nonempty _ _ factored resolved =>
      obtain ⟨hs', hgiven, hapart⟩ := h.select select
      obtain ⟨found, hnamed, -⟩ := allFactors_eq factored
      obtain ⟨found', hnamed', -⟩ := allResolvents_eq resolved
      obtain ⟨hstem, hcount⟩ := variables_nameConclusions hnamed
      obtain ⟨hstem', hcount'⟩ := variables_nameConclusions hnamed'
      have hname : names'.variableName = s'.names.variableName := by
        funext k
        rw [NameSupply.variableName, NameSupply.variableName, hstem', hstem]
      refine ⟨fun c hc => ?_, fun c hc x hx => ?_, ?_⟩
      · rcases List.mem_append.1 hc with hc | hc
        · exact hs'.nonempty c (kept_subset s' given hc)
        · rw [List.mem_singleton.1 hc]
          exact nonempty
      · show ∃ k ≤ names'.variableCount, x = names'.variableName k
        rw [hname, hcount', hcount]
        rcases List.mem_append.1 hc with hc | hc
        · exact hs'.issued c (kept_subset s' given hc) x hx
        · rw [List.mem_singleton.1 hc] at hx
          exact hgiven x hx
      · show (s'.kept given ++ [given]).Pairwise _
        rw [List.pairwise_append]
        refine ⟨hs'.disjoint.sublist (kept_sublist s' given), List.pairwise_singleton _ _, ?_⟩
        intro c hc d hd
        rw [List.mem_singleton.1 hd]
        exact hapart c (kept_subset s' given hc)

lemma apart_start (schedule : Schedule) (settings : Settings) (names : NameSupply)
    (clauses : List Clause) : Apart (State.start schedule settings names clauses) where
  nonempty := by simp [State.start]
  issued := by simp [State.start]
  disjoint := by simp [State.start]

/-! ## Runs -/

/-- **Variables are renamed apart.**  A fresh copy is a renaming that keeps different variables
different, into names whose numbers were issued for this very copy.  So throughout a session different
processed clauses have no variable in common, and neither has the copy of the selected clause with any
of them. -/
theorem variables_renamed_apart :
    (∀ (names names' : NameSupply) (c given : Clause), c.freshCopy names = (given, names') →
      (∃ ρ : String → String, Set.InjOn ρ {x | x ∈ varsOf c.literals} ∧
        given = { c with literals := bindAll (fun x => .var (ρ x)) c.literals }) ∧
      ∀ y ∈ varsOf given.literals, ∃ k, names.variableCount < k ∧ k ≤ names'.variableCount ∧
        y = names.variableStem ++ toString k) ∧
    ∀ (schedule : Schedule) (settings : Settings) (names : NameSupply) (clauses : List Clause)
      (t : State) (returned : List Clause),
      Session (State.start schedule settings names clauses) t returned →
      (t.processed.Pairwise fun c d => ∀ x ∈ varsOf c.literals, x ∉ varsOf d.literals) ∧
      ∀ chosen queue, t.unprocessed.extractBest = some (chosen, queue) → ∀ d ∈ t.processed,
        ∀ x ∈ varsOf d.literals, x ∉ varsOf (chosen.freshCopy t.names).1.literals := by
  constructor
  · intro names names' c given hcopy
    obtain ⟨-, -, κ, hinj, -, hgiven⟩ := Clause.freshCopy_eq hcopy
    refine ⟨⟨fun x => names.variableName (κ x), ?_, hgiven⟩, fun y hy => ?_⟩
    · exact names.variableName_injective.comp_injOn hinj
    · exact Clause.mem_vars_freshCopy hcopy hy
  · intro schedule settings names clauses t returned session
    have hapart : Apart t := (session.invariant (P := Apart) (fun hs ht => hs.transition ht)
      (fun _ _ hs => ⟨hs.nonempty, hs.issued, hs.disjoint⟩)
      (apart_start schedule settings names clauses)).1
    refine ⟨hapart.disjoint, fun chosen queue hbest d hd => ?_⟩
    have select : Selects t chosen (chosen.freshCopy t.names).1
        { t with unprocessed := queue, names := (chosen.freshCopy t.names).2 } :=
      ⟨queue, _, hbest, rfl, rfl⟩
    exact (hapart.select select).2.2 d hd

/-- A clause that uses the very names that are about to be issued.  `X1` gets its own name first, which
is not recorded, and another one at the second literal. -/
def colliding : Clause :=
  { literals := [⟨true, "p", [.var "X1"]⟩, ⟨true, "q", [.var "X2", .var "X1"]⟩] }

theorem colliding_apart :
    (colliding.freshCopy {}).1.literals =
        [⟨true, "p", [.var "X2"]⟩, ⟨true, "q", [.var "X3", .var "X2"]⟩] ∧
      (∀ y ∈ varsOf (colliding.freshCopy {}).1.literals,
        ∃ k, 0 < k ∧ k ≤ (colliding.freshCopy {}).2.variableCount ∧ y = "X" ++ toString k) ∧
      ∃ t, Session (State.start .standard {} {} [colliding, colliding]) t [] ∧
        t.processed.length = 2 ∧
        t.processed.Pairwise fun c d => ∀ x ∈ varsOf c.literals, x ∉ varsOf d.literals := by
  obtain ⟨run, hrun, hends⟩ : ∃ run, (State.start .standard {} {} [colliding, colliding]).saturate
      none (.steady (.finite 0)) 20 = .ok run ∧ decide (run.refutation = none ∧
        run.state.processed.length = 2) = true := exists_ok_of_any (by decide +kernel)
  obtain ⟨hquiet, hlength⟩ := of_decide_eq_true hends
  have hsession := Session.start.saturate hrun
  rw [hquiet] at hsession
  exact ⟨by decide +kernel, (variables_renamed_apart.1 {} _ colliding _ rfl).2, run.state, hsession,
    hlength, (variables_renamed_apart.2 _ _ _ _ _ _ hsession).1⟩

/-- A quiet run from the start loses nothing and keeps processed clauses apart. -/
lemma quiet_start {schedule : Schedule} {settings : Settings} {names : NameSupply}
    {clauses : List Clause} {t : State}
    (h : ReflTransGen QuietlyTo (State.start schedule settings names clauses) t) :
    NothingLost clauses t ∧ Apart t := by
  refine quiet_invariant (P := fun s => NothingLost clauses s ∧ Apart s)
    (fun hs ht => ⟨hs.1.transition ht, hs.2.transition ht⟩) ?_ h
  exact ⟨nothingLost_start schedule settings names clauses,
    apart_start schedule settings names clauses⟩

/-- The clauses that a search has to account for: its input, every factor of a processed clause, and
every resolvent of a processed clause with one that was processed before it. -/
inductive Owed (cycles : Cycles) (inputs processed : List Clause) : Clause → Prop
  | input {c : Clause} (member : c ∈ inputs) : Owed cycles inputs processed c
  | factor {p r : Clause} {k l : ℕ} (member : p ∈ processed) (order : k < l)
      (rule : factor cycles p k l = .ok (some r)) : Owed cycles inputs processed r
  | resolvent {p q r : Clause} {k l : ℕ} (order : [p, q].Sublist processed)
      (rule : resolve cycles q k p l = .ok (some r)) : Owed cycles inputs processed r

lemma NothingLost.accounted {clauses : List Clause} {s : State} (h : NothingLost clauses s)
    {r : Clause} (owed : Owed s.settings.cycles clauses s.processed r) : Accounted s r.literals := by
  cases owed with
  | input member => exact h.input r member
  | factor member order rule => exact h.factors _ member _ _ r order rule
  | resolvent order rule =>
      exact List.pairwise_iff_forall_sublist.1 h.resolvents order _ _ r rule

/-- **No inference is lost.**  After any number of steps that have not selected a contradiction, each
clause that the search owes waits with just its literals, or is subsumed by a processed clause, or is
a tautology where tautologies are deleted. -/
theorem no_inference_lost (schedule : Schedule) (settings : Settings) (names : NameSupply)
    (clauses : List Clause) {s : State}
    (run : ReflTransGen QuietlyTo (State.start schedule settings names clauses) s) {r : Clause}
    (owed : Owed settings.cycles clauses s.processed r) :
    (∃ c ∈ s.unprocessed.items, c.literals = r.literals) ∨
      (∃ d ∈ s.processed, subsumes d r = true) ∨
      settings.deleteTautologies = true ∧ r.isTautology = true := by
  have hsettings : s.settings = settings :=
    quiet_invariant (P := fun s => s.settings = settings) (fun hs ht => ht.settings_eq.trans hs) rfl run
  rw [← hsettings] at owed ⊢
  rcases (quiet_start run).1.accounted owed with hwaits | ⟨d, hd, hsubsumes⟩ | ⟨hswitch, htaut⟩
  · exact Or.inl hwaits
  · exact Or.inr (Or.inl ⟨d, hd, (subsumes_iff d r).2 hsubsumes⟩)
  · exact Or.inr (Or.inr ⟨hswitch, (hasOpposites_iff r.literals).2 htaut⟩)

/-- Two clauses all of whose resolvents are tautologies. -/
def exclusive : List Clause :=
  [{ literals := [⟨true, "p", [.var "X"]⟩, ⟨true, "q", [.var "X"]⟩] },
   { literals := [⟨false, "p", [.var "X"]⟩, ⟨false, "q", [.var "X"]⟩] }]

/-- After four steps both resolvents have been deleted, and what accounts for them is that they are
tautologies. -/
theorem exclusive_accounted :
    ∃ s p q r, ReflTransGen QuietlyTo
        (State.start .standard { deleteTautologies := true } {} exclusive) s ∧
      s.processed = [p, q] ∧ s.unprocessed.items = [] ∧
      resolve (.follow 1000000000000) q 0 p 0 = .ok (some r) ∧
      ((∃ c ∈ s.unprocessed.items, c.literals = r.literals) ∨
        (∃ d ∈ s.processed, subsumes d r = true) ∨ r.isTautology = true) := by
  let start := State.start .standard { deleteTautologies := true } {} exclusive
  let p : Clause :=
    { literals := [⟨true, "p", [.var "X1"]⟩, ⟨true, "q", [.var "X1"]⟩], name := "c1" }
  let q : Clause :=
    { literals := [⟨false, "p", [.var "X2"]⟩, ⟨false, "q", [.var "X2"]⟩], name := "c2" }
  have run : ReflTransGen QuietlyTo start (start.after 4) :=
    .tail (.tail (.tail (.single (b := start.after 1) (by decide +kernel)) (c := start.after 2)
      (by decide +kernel)) (c := start.after 3) (by decide +kernel)) (by decide +kernel)
  have processed : (start.after 4).processed = [p, q] := by decide +kernel
  obtain ⟨r, rule, hr⟩ : ∃ r, resolve (.follow 1000000000000) q 0 p 0 = .ok r ∧ r.isSome = true :=
    exists_ok_of_any (by decide +kernel)
  obtain ⟨r, rfl⟩ := Option.isSome_iff_exists.1 hr
  have accounted :=
    no_inference_lost _ _ _ _ run (.resolvent (processed ▸ List.Sublist.refl _) rule)
  exact ⟨start.after 4, p, q, r, run, processed, by decide +kernel, rule,
    accounted.imp_right (Or.imp_right And.right)⟩

end GivenClause.Search
