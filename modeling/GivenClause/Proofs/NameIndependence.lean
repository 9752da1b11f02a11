import Mathlib
import GivenClause.Proofs.GivenClauseInvariant
import GivenClause.Proofs.RenamedInferences

/-!
# The names of variables do not matter

Two searches are started alike, except that each input clause may have its variables renamed and that
the supplies may give out other names for fresh variables.  Then they proceed alike
(`search_ignores_variable_names`): after any number of steps they have the same counts, the same status
and the same schedule, and their clauses correspond place by place (`Corresponds`).

Everything a step looks at is the same in both searches.  Scores count symbols and occurrences of
variables, so the same place in the queue is selected; tautologies and subsumption are about shape;
and the rules have corresponding conclusions.  For resolution this needs the copy of the selected
clause to be apart from the processed clauses in both searches, which is the invariant `Apart`.
-/

namespace GivenClause

open NameSupply Unification

/-! ## Clauses -/

namespace Alike

variable {c c' d d' : Clause}

lemma weight_eq (h : Alike c c') (perSymbol perVariable : ℤ) :
    c.weight perSymbol perVariable = c'.weight perSymbol perVariable := by
  obtain ⟨π, hπ⟩ := h.literals.exists_perm
  rw [Clause.weight, Clause.weight, hπ]
  induction c.literals with
  | nil => rfl
  | cons l rest ih =>
      rw [bindAll, List.map_cons, Clause.literalsWeight, Clause.literalsWeight,
        Literal.weight_bind_relabel]
      exact congrArg _ ih

lemma isEmpty_eq (h : Alike c c') : c.isEmpty = c'.isEmpty := by
  rw [Clause.isEmpty, Clause.isEmpty, Bool.eq_iff_iff, List.isEmpty_iff_length_eq_zero,
    List.isEmpty_iff_length_eq_zero, h.literals.length_eq]

lemma isTautology_eq (h : Alike c c') : c.isTautology = c'.isTautology := by
  rw [Clause.isTautology, Clause.isTautology, Bool.eq_iff_iff, hasOpposites_iff, hasOpposites_iff,
    h.literals.tautological_iff]

lemma subsumes_eq (hc : Alike c c') (hd : Alike d d') : subsumes c d = subsumes c' d' := by
  rw [Bool.eq_iff_iff, subsumes_iff, subsumes_iff]
  constructor
  · intro h
    exact (Subsumes.of_variant hc.literals).trans (h.trans (.of_variant hd.literals.symm))
  · intro h
    exact (Subsumes.of_variant hc.literals.symm).trans (h.trans (.of_variant hd.literals))

/-- Fresh copies are alike whatever names they get. -/
lemma freshCopy {names names' : NameSupply} (hnames : Twin names names') (h : Alike c c') :
    Alike (c.freshCopy names).1 (c'.freshCopy names').1 ∧
      Twin (c.freshCopy names).2 (c'.freshCopy names').2 := by
  rcases hcopy : c.freshCopy names with ⟨given, supply⟩
  rcases hcopy' : c'.freshCopy names' with ⟨given', supply'⟩
  have hvariant := Clause.variant_of_freshCopy hcopy
  have hvariant' := Clause.variant_of_freshCopy hcopy'
  obtain ⟨hsupply, -, κ, -, -, rfl⟩ := Clause.freshCopy_eq hcopy
  obtain ⟨hsupply', -, κ', -, -, rfl⟩ := Clause.freshCopy_eq hcopy'
  refine ⟨⟨h.name, h.role, h.support, h.rationale, ?_⟩, ?_⟩
  · exact hvariant.symm.trans (h.literals.trans hvariant')
  · rw [hsupply, hsupply']
    exact ⟨hnames.clauseStem, hnames.clauseCount, hnames.taken⟩

end Alike

lemma forall₂_apart {c c' : Clause} {members members' : List Clause}
    (h : List.Forall₂ Alike members members') (hc : ∀ d ∈ members, c.ApartFrom d)
    (hc' : ∀ d ∈ members', c'.ApartFrom d) :
    List.Forall₂ (fun d d' => Alike d d' ∧ c.ApartFrom d ∧ c'.ApartFrom d') members members' := by
  induction h with
  | nil => exact .nil
  | cons hd _ ih =>
      rw [List.forall_mem_cons] at hc hc'
      exact .cons ⟨hd, hc.1, hc'.1⟩ (ih hc.2 hc'.2)

/-! ## Sets of clauses -/

section Members

variable {c c' : Clause} {members members' : List Clause}

lemma anySubsumes_alike (hmembers : List.Forall₂ Alike members members') (h : Alike c c') :
    anySubsumes members c = anySubsumes members' c' := by
  induction hmembers with
  | nil => rfl
  | cons hd _ ih =>
      rw [anySubsumes, anySubsumes, List.any_cons, List.any_cons]
      exact congrArg₂ _ (hd.subsumes_eq h) ih

lemma unsubsumed_alike (hmembers : List.Forall₂ Alike members members') (h : Alike c c') :
    List.Forall₂ Alike (unsubsumed c members) (unsubsumed c' members') := by
  refine List.rel_filter (fun d d' hd => ?_) hmembers
  simp only [h.subsumes_eq hd]

lemma recordIn_alike (hmembers : List.Forall₂ Alike members members') (h : Alike c c') :
    List.Forall₂ Alike (Archive.recordIn c members) (Archive.recordIn c' members') := by
  induction hmembers with
  | nil => exact .cons h .nil
  | cons hd hrest ih =>
      rw [Archive.recordIn, Archive.recordIn, hd.name, h.name]
      split_ifs
      · exact .cons h hrest
      · exact .cons hd ih

end Members

/-! ## Queues -/

/-- The same scores, for clauses that are alike. -/
structure SameEntry (e e' : Entry Clause) : Prop where
  item : Alike e.item e'.item
  scores : e.scores = e'.scores

/-- The same schedule at the same point, and the same entries place by place. -/
structure SameQueue (q q' : Queue Clause) : Prop where
  schedule : q.schedule = q'.schedule
  entries : List.Forall₂ SameEntry q.entries q'.entries

namespace Queue

lemma scoreAt_same {e e' : Entry Clause} (h : SameEntry e e') (i : ℕ) : scoreAt i e = scoreAt i e' := by
  rw [scoreAt, scoreAt, h.scores]

lemma leastFrom_same (i : ℕ) {best best' : Entry Clause} (hbest : SameEntry best best')
    {rest rest' : List (Entry Clause)} (h : List.Forall₂ SameEntry rest rest') :
    SameEntry (leastFrom i best rest) (leastFrom i best' rest') := by
  induction h generalizing best best' with
  | nil => exact hbest
  | cons he _ ih =>
      rw [leastFrom, leastFrom, scoreAt_same he, scoreAt_same hbest]
      split_ifs
      · exact ih he
      · exact ih hbest

lemma removeScored_same (i : ℕ) (score : ℤ) {es es' : List (Entry Clause)}
    (h : List.Forall₂ SameEntry es es') :
    List.Forall₂ SameEntry (removeScored i score es) (removeScored i score es') := by
  induction h with
  | nil => exact .nil
  | cons he hrest ih =>
      rw [removeScored, removeScored, scoreAt_same he]
      split_ifs
      · exact hrest
      · exact .cons he ih

/-- **The same place is selected.** -/
theorem extractBest_same {q q' : Queue Clause} (h : SameQueue q q') :
    Option.Rel (fun p p' => Alike p.1 p'.1 ∧ SameQueue p.2 p'.2) q.extractBest q'.extractBest := by
  obtain ⟨schedule, entries⟩ := q
  obtain ⟨_, entries'⟩ := q'
  obtain ⟨rfl, hentries⟩ := h
  cases hentries with
  | nil => exact Option.Rel.none
  | @cons e e' rest rest' he hrest =>
      have hbest := leastFrom_same schedule.next.1 he hrest
      have hothers := removeScored_same schedule.next.1
        (scoreAt schedule.next.1 (leastFrom schedule.next.1 e rest)) (.cons he hrest)
      nth_rewrite 2 [scoreAt_same hbest] at hothers
      exact Option.Rel.some ⟨hbest.item, rfl, hothers⟩

lemma insert_same {q q' : Queue Clause} (h : SameQueue q q') {c c' : Clause} (hc : Alike c c') :
    SameQueue (q.insert c) (q'.insert c') := by
  obtain ⟨schedule, entries⟩ := q
  obtain ⟨_, entries'⟩ := q'
  obtain ⟨rfl, hentries⟩ := h
  have hscore : ∀ w : Weight, w.score c = w.score c' := by
    intro w
    cases w with
    | symbolCount perSymbol perVariable => exact hc.weight_eq perSymbol perVariable
    | age scored further => rfl
    | other name values => rfl
  refine ⟨rfl, List.rel_append hentries (.cons ⟨hc, ?_⟩ .nil)⟩
  simp only [clause_self, hscore]

lemma insertAll_same {q q' : Queue Clause} (h : SameQueue q q') {cs cs' : List Clause}
    (hcs : List.Forall₂ Alike cs cs') : SameQueue (q.insertAll cs) (q'.insertAll cs') := by
  induction hcs generalizing q q' with
  | nil => exact h
  | cons hc _ ih => exact ih (insert_same h hc)

end Queue

namespace Search

/-! ## Steps -/

/-- Two searches that differ in the names of variables only. -/
structure Corresponds (s t : State) : Prop where
  settings : s.settings = t.settings
  status : s.status = t.status
  counts : s.counts = t.counts
  elapsed : s.elapsed = t.elapsed
  names : Twin s.names t.names
  unprocessed : SameQueue s.unprocessed t.unprocessed
  processed : List.Forall₂ Alike s.processed t.processed
  archive : List.Forall₂ Alike s.archive.entries t.archive.entries
  witness : Option.Rel Alike s.witness t.witness

/-- Corresponding searches, and the same verdict. -/
structure SameStep (r r' : Step) : Prop where
  state : Corresponds r.state r'.state
  refutation : Option.Rel Alike r.refutation r'.refutation

variable {s t : State} {given given' : Clause}

lemma Corresponds.infer (h : Corresponds s t) (hgiven : Alike given given')
    (hapart : ∀ d ∈ s.processed, given.ApartFrom d)
    (hapart' : ∀ d ∈ t.processed, given'.ApartFrom d) :
    Parallel Corresponds (s.infer given) (t.infer given') := by
  rw [State.infer, State.infer, h.settings]
  refine (allFactors_alike _ h.names hgiven).bind ?_
  rintro ⟨factors, names⟩ ⟨factors', names'⟩ ⟨hfactors, hnames⟩
  refine (allResolvents_alike _ hnames hgiven (forall₂_apart h.processed hapart hapart')).bind ?_
  rintro ⟨resolvents, names⟩ ⟨resolvents', names'⟩ ⟨hresolvents, hnames⟩
  refine ⟨rfl, h.status, ?_, h.elapsed, hnames, ?_, ?_, ?_, h.witness⟩
  · simp only [h.counts, hfactors.length_eq, hresolvents.length_eq]
  · exact Queue.insertAll_same h.unprocessed (List.rel_append hfactors hresolvents)
  · exact List.rel_append h.processed (.cons hgiven .nil)
  · exact recordIn_alike h.archive hgiven

lemma Corresponds.kept (h : Corresponds s t) (hgiven : Alike given given') :
    List.Forall₂ Alike (s.kept given) (t.kept given') := by
  rw [State.kept, State.kept, h.settings]
  split_ifs
  · exact unsubsumed_alike h.processed hgiven
  · exact h.processed

lemma Corresponds.gone (h : Corresponds s t) (hgiven : Alike given given') :
    s.gone given = t.gone given' := by
  have hkept := (h.kept hgiven).length_eq
  have hprocessed := h.processed.length_eq
  have hs := length_kept_add_gone s given
  have ht := length_kept_add_gone t given'
  omega

/-- The given clause clears away the same places. -/
lemma Corresponds.cleared (h : Corresponds s t) (hgiven : Alike given given') :
    Corresponds (s.cleared given) (t.cleared given') :=
  { h with
    processed := h.kept hgiven
    counts := by simp only [State.cleared, h.counts, h.gone hgiven] }

lemma sameStep_of_infer {x y : Except Unsettled State} (h : Parallel Corresponds x y)
    (events events' : List Event) :
    Parallel SameStep
      (match x with
        | .error _ => .error .unsettled
        | .ok state => .ok { state, events })
      (match y with
        | .error _ => .error StepError.unsettled
        | .ok state => .ok { state, events := events' }) := by
  rcases h.cases with ⟨e, rfl, rfl⟩ | ⟨s', t', rfl, rfl, hst⟩
  · exact rfl
  · exact ⟨hst, .none⟩

theorem Corresponds.process (h : Corresponds s t) (hgiven : Alike given given')
    (hapart : ∀ d ∈ s.processed, given.ApartFrom d)
    (hapart' : ∀ d ∈ t.processed, given'.ApartFrom d) :
    Parallel SameStep (s.process given) (t.process given') := by
  have htautology : (s.settings.deleteTautologies && given.isTautology) =
      (t.settings.deleteTautologies && given'.isTautology) := by
    rw [h.settings, hgiven.isTautology_eq]
  have hsubsumed : (s.settings.forwardSubsumption && anySubsumes s.processed given) =
      (t.settings.forwardSubsumption && anySubsumes t.processed given') := by
    rw [h.settings, anySubsumes_alike h.processed hgiven]
  rw [State.process, State.process, clear_eq, clear_eq, hgiven.isEmpty_eq, htautology, hsubsumed]
  split_ifs
  · exact ⟨{ h with status := rfl, witness := .some hgiven }, .some hgiven⟩
  · exact ⟨{ h with counts := by rw [h.counts] }, .none⟩
  · exact ⟨{ h with counts := by rw [h.counts] }, .none⟩
  · have hcleared := h.cleared hgiven
    have hinfer := hcleared.infer hgiven (fun d hd => hapart d (kept_subset s given hd))
      fun d hd => hapart' d (kept_subset t given' hd)
    exact sameStep_of_infer hinfer _ _

/-- **One step keeps the correspondence.**  It is refused in both searches, or in neither. -/
theorem Corresponds.step (h : Corresponds s t) (hs : Apart s) (ht : Apart t) :
    Parallel SameStep s.step t.step := by
  have hbest := Queue.extractBest_same h.unprocessed
  rw [State.step, State.step]
  rcases hx : s.unprocessed.extractBest with _ | ⟨chosen, queue⟩
  · rw [hx] at hbest
    cases hy : t.unprocessed.extractBest with
    | none => exact rfl
    | some q => rw [hy] at hbest; cases hbest
  · rcases hy : t.unprocessed.extractBest with _ | ⟨chosen', queue'⟩
    · rw [hx, hy] at hbest; cases hbest
    · rw [hx, hy] at hbest
      obtain ⟨hchosen, hqueue⟩ : Alike chosen chosen' ∧ SameQueue queue queue' := by
        cases hbest with
        | some hpq => exact hpq
      obtain ⟨hgiven, hnames⟩ := hchosen.freshCopy h.names
      -- in each search the copy is apart from what has been processed there
      have hapart := (hs.select ⟨queue, _, hx, rfl, rfl⟩).2.2
      have hapart' := (ht.select ⟨queue', _, hy, rfl, rfl⟩).2.2
      refine Corresponds.process { h with unprocessed := hqueue, names := hnames } hgiven ?_ ?_
      · exact fun d hd x hx hx' => hapart d hd x hx' hx
      · exact fun d hd x hx hx' => hapart' d hd x hx' hx

/-! ## Runs -/

lemma nameClauses_alike {names names' : NameSupply} (hnames : Twin names names')
    {clauses clauses' : List Clause} (h : List.Forall₂ Alike clauses clauses') :
    SameClauses (nameClauses names clauses) (nameClauses names' clauses') := by
  induction h generalizing names names' with
  | nil => exact ⟨.nil, hnames⟩
  | @cons c c' rest rest' hc _ ih =>
      obtain ⟨hname, hnames'⟩ := hnames.assign c'.name
      obtain ⟨hrest, htwin⟩ := ih hnames'
      rw [nameClauses, nameClauses, hc.name]
      exact ⟨.cons ⟨hname, hc.role, hc.support, hc.rationale, hc.literals⟩ hrest, htwin⟩

lemma corresponds_start (schedule : Schedule) (settings : Settings) {names names' : NameSupply}
    (hnames : Twin names names') {clauses clauses' : List Clause}
    (h : List.Forall₂ Alike clauses clauses') :
    Corresponds (State.start schedule settings names clauses)
      (State.start schedule settings names' clauses') := by
  obtain ⟨hnamed, htwin⟩ := nameClauses_alike hnames h
  refine ⟨rfl, rfl, ?_, rfl, htwin, ?_, .nil, .nil, .none⟩
  · rw [State.start, State.start, h.length_eq]
  · exact Queue.insertAll_same ⟨rfl, .nil⟩ hnamed

lemma Apart.after (h : Apart s) (n : ℕ) : Apart (s.after n) := by
  induction n with
  | zero => exact h
  | succ n ih =>
      rw [State.after]
      split
      · rename_i r hr
        exact ih.transition (step_transition hr)
      · exact ih

lemma Corresponds.after (h : Corresponds s t) (hs : Apart s) (ht : Apart t) (n : ℕ) :
    Corresponds (s.after n) (t.after n) := by
  induction n with
  | zero => exact h
  | succ n ih =>
      rw [State.after, State.after]
      rcases (ih.step (hs.after n) (ht.after n)).cases with
        ⟨e, hrefused, hrefused'⟩ | ⟨r, r', hr, hr', hsame⟩
      · rw [hrefused, hrefused']
        exact ih
      · rw [hr, hr']
        exact hsame.state

/-- **The names of variables do not matter.**  Searches that start with clauses that are alike, and
with supplies that issue the same clause names, correspond after any number of steps, and their next
steps are refused for the same reason or lead to corresponding results.  A weight that the schedule is
given from outside has to give both searches the same values, so it must not look at these names. -/
theorem search_ignores_variable_names (schedule : Schedule) (settings : Settings)
    {names names' : NameSupply} (hnames : Twin names names') {clauses clauses' : List Clause}
    (h : List.Forall₂ Alike clauses clauses') (n : ℕ) :
    Corresponds ((State.start schedule settings names clauses).after n)
        ((State.start schedule settings names' clauses').after n) ∧
      Parallel SameStep ((State.start schedule settings names clauses).after n).step
        ((State.start schedule settings names' clauses').after n).step := by
  have hapart := apart_start schedule settings names clauses
  have hapart' := apart_start schedule settings names' clauses'
  have hafter := (corresponds_start schedule settings hnames h).after hapart hapart' n
  exact ⟨hafter, hafter.step (hapart.after n) (hapart'.after n)⟩

/-- An order without a first element. -/
def descending (x y z : String) : List Clause :=
  [{ literals := [⟨false, "less", [.var x, .var y]⟩, ⟨false, "less", [.var y, .var z]⟩,
      ⟨true, "less", [.var x, .var z]⟩] },
   { literals := [⟨true, "less", [.app "below" [.var x], .var x]⟩] }]

/-- The search of such an order, after four steps. -/
def descent (names : NameSupply) (x y z : String) : State :=
  (State.start .standard { occursCheck := true } names (descending x y z)).after 4

lemma descending_alike : List.Forall₂ Alike (descending "X1" "X2" "Z") (descending "X2" "X1" "Z") := by
  have hswap : ∀ ls ms, bindAll (relabel (Equiv.swap "X1" "X2")) ls = ms → Variant ls ms := by
    rintro ls _ rfl
    exact variant_bindAll_relabel _ ls
  refine .cons ⟨rfl, rfl, rfl, rfl, hswap _ _ ?_⟩ (.cons ⟨rfl, rfl, rfl, rfl, hswap _ _ ?_⟩ .nil)
  · decide +kernel
  · decide +kernel

/-- The first search issues names that its input uses already, the second one does not, and it renames
the variables of the first clause in another order. -/
theorem descending_corresponds :
    Corresponds (descent {} "X1" "X2" "Z") (descent { variableStem := "Y" } "X2" "X1" "Z") ∧
      (descent {} "X1" "X2" "Z").counts.resolvents = 11 ∧
      (descent {} "X1" "X2" "Z").processed ≠
        (descent { variableStem := "Y" } "X2" "X1" "Z").processed := by
  refine ⟨?_, by decide +kernel, by decide +kernel⟩
  have hnames : Twin {} { variableStem := "Y" } := ⟨rfl, rfl, rfl⟩
  exact (search_ignores_variable_names _ _ hnames descending_alike 4).1

end Search

end GivenClause
