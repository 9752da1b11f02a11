import Mathlib
import GivenClause.Proofs.FairSelection
import GivenClause.Proofs.GivenClauseInvariant
import GivenClause.Proofs.SearchHistory

/-!
# The books of a search

A clause that has come into the queue waits there until it is selected.  Then it is recorded in the
archive, or dropped for one of three reasons, and each way has a counter of its own.

**One permutation.**  The names of all clauses that ever came into the queue are those in the archive,
those in the queue and those that were dropped, in some order (`Ledger.placed`).  Each way a step can
take moves one name from the queue to another place, and the counters follow.  The balance is what the
permutation says about lengths.

**Distinct names.**  These names are just what the supply has issued since the start
(`Ledger.issued`), so all of them are different.  That is why a clause never replaces another one in
the archive, and why the archive has as many entries as clauses were processed.

`bookkeeping_balances` says it of any number of steps.
-/

namespace GivenClause

open NameSupply

/-- What a supply has issued shows in the names that are taken. -/
lemma NameSupply.Issues.congr {names names₁ names₂ : NameSupply} {issued : List String}
    (h : Issues names issued names₁) (htaken : names₂.taken = names₁.taken) :
    Issues names issued names₂ :=
  ⟨htaken.trans h.1, h.2⟩

namespace Search

/-! ## What comes into the queue -/

/-- The clauses that the next step puts into the queue: they stand behind those that its selection
leaves there. -/
def State.added (s : State) : List Clause :=
  match s.unprocessed.extractBest, s.step with
  | some (_, rest), .ok r => r.state.unprocessed.items.drop rest.size
  | _, _ => []

/-- All clauses that have come into the queue within `n` steps, those that are there at first
included. -/
def State.queued (s : State) (n : ℕ) : List Clause :=
  s.unprocessed.items ++ (List.range n).flatMap fun i => (s.after i).added

/-- How many of the first `n` steps have returned a contradiction. -/
def State.contradictions (s : State) (n : ℕ) : ℕ :=
  (List.range n).countP fun i => (s.after i).step.toOption.any (·.refutation.isSome)

/-- From `s` to `t` a clause was taken out of the queue, and then the `new` ones were put in. -/
def Exchanges (s t : State) (new : List Clause) : Prop :=
  ∃ chosen queue, s.unprocessed.extractBest = some (chosen, queue) ∧
    t.unprocessed = queue.insertAll new

lemma added_eq {s : State} {r : Step} {new : List Clause} (hr : s.step = .ok r)
    (h : Exchanges s r.state new) : s.added = new := by
  obtain ⟨chosen, queue, hbest, hqueue⟩ := h
  have hsize : queue.size = queue.items.length := by simp [Queue.size, Queue.items]
  simp only [State.added, hbest, hr, hqueue, Queue.items_insertAll, hsize, List.drop_left]

lemma queued_succ (s : State) (n : ℕ) : s.queued (n + 1) = s.queued n ++ (s.after n).added := by
  simp [State.queued, List.range_succ]

lemma contradictions_succ_of_step {s : State} {n : ℕ} {r : Step} (hr : (s.after n).step = .ok r) :
    s.contradictions (n + 1) = s.contradictions n + r.refutation.toList.length := by
  cases hfound : r.refutation <;>
    simp [State.contradictions, List.range_succ, hr, Except.toOption, hfound]

lemma contradictions_succ_of_refused {s : State} {n : ℕ} {e : StepError}
    (he : (s.after n).step = .error e) : s.contradictions (n + 1) = s.contradictions n := by
  simp [State.contradictions, List.range_succ, he, Except.toOption]

/-! ## The ledger -/

/-- The books of a search that began with the supply `names`: `queued` has come into its queue, and
`found` contradictions have been returned. -/
structure Ledger (names : NameSupply) (queued : List Clause) (found : ℕ) (s : State) : Prop where
  issued : Issues names (queued.map Clause.name) s.names
  waiting : s.unprocessed.items ⊆ queued
  placed : ∃ dropped : List String,
    (queued.map Clause.name).Perm
      (s.archive.names ++ s.unprocessed.items.map Clause.name ++ dropped) ∧
    dropped.length = s.counts.tautologies + s.counts.forwardSubsumed + found
  entered : queued.length = s.counts.initial + s.counts.factors + s.counts.resolvents
  recorded : s.archive.entries.length = s.counts.processed
  kept : s.processed.length + s.counts.backwardSubsumed = s.counts.processed

variable {names : NameSupply} {queued : List Clause} {found : ℕ} {s s' t : State}
  {chosen given : Clause}

lemma Selects.counts_eq (h : Selects s chosen given s') : s'.counts = s.counts := by
  obtain ⟨-, -, -, -, rfl⟩ := h
  rfl

lemma Selects.exchanges {new : List Clause} (h : Selects s chosen given s')
    (hqueue : t.unprocessed = s'.unprocessed.insertAll new) : Exchanges s t new := by
  obtain ⟨queue, names, hbest, -, rfl⟩ := h
  exact ⟨chosen, queue, hbest, hqueue⟩

/-- The selected clause has left the queue and is nowhere yet. -/
lemma Ledger.select (h : Ledger names queued found s) (select : Selects s chosen given s') :
    Issues names (queued.map Clause.name) s'.names ∧ s'.unprocessed.items ⊆ queued ∧
      ∃ dropped : List String,
        (queued.map Clause.name).Perm
          (s'.archive.names ++ given.name :: s'.unprocessed.items.map Clause.name ++ dropped) ∧
        dropped.length = s'.counts.tautologies + s'.counts.forwardSubsumed + found := by
  obtain ⟨harchive, htaken, hname, -⟩ := select.frame
  have hperm := select.items_perm
  obtain ⟨dropped, hplaced, hlength⟩ := h.placed
  refine ⟨h.issued.congr htaken, fun c hc => h.waiting (hperm.mem_iff.2 (List.mem_cons_of_mem _ hc)),
    dropped, hplaced.trans ?_, select.counts_eq ▸ hlength⟩
  rw [harchive, hname, ← List.map_cons]
  exact ((hperm.map Clause.name).append_left _).append_right _

/-- If the selected clause is dropped, its name goes to those that were dropped. -/
lemma perm_of_dropped {issued recorded waiting dropped : List String} {name : String}
    (h : issued.Perm (recorded ++ name :: waiting ++ dropped)) :
    issued.Perm (recorded ++ waiting ++ name :: dropped) := by
  refine h.trans ?_
  simp only [List.append_assoc, List.cons_append]
  exact List.perm_middle.symm.append_left recorded

/-- If it is used, its name goes to the archive, and new names come into the queue. -/
lemma perm_of_recorded {issued recorded waiting dropped : List String} {name : String}
    (h : issued.Perm (recorded ++ name :: waiting ++ dropped)) (new : List String) :
    (issued ++ new).Perm (recorded ++ [name] ++ (waiting ++ new) ++ dropped) := by
  refine (h.append_right new).trans ?_
  simp only [List.append_assoc, List.cons_append, List.nil_append]
  exact ((List.perm_append_comm.append_left waiting).cons name).append_left recorded

/-- Dropping the selected clause keeps the books, if it is counted once. -/
lemma Ledger.drop (h : Ledger names queued found s) (select : Selects s chosen given s')
    (status : Status) (witness : Option Clause) {counts : Counts} {found' : ℕ}
    (hout : counts.tautologies + counts.forwardSubsumed + found' =
      s'.counts.tautologies + s'.counts.forwardSubsumed + found + 1)
    (hin : counts.initial + counts.factors + counts.resolvents =
      s'.counts.initial + s'.counts.factors + s'.counts.resolvents)
    (hprocessed : counts.processed = s'.counts.processed)
    (hbackward : counts.backwardSubsumed = s'.counts.backwardSubsumed) :
    Ledger names queued found' { s' with status := status, witness := witness, counts := counts } := by
  obtain ⟨hissued, hwaiting, dropped, hplaced, hlength⟩ := h.select select
  refine ⟨hissued, hwaiting, ⟨given.name :: dropped, perm_of_dropped hplaced, ?_⟩, ?_, ?_, ?_⟩
  · show _ = counts.tautologies + counts.forwardSubsumed + found'
    rw [List.length_cons, hlength, hout]
  · show _ = counts.initial + counts.factors + counts.resolvents
    rw [hin, select.counts_eq]
    exact h.entered
  · show s'.archive.entries.length = counts.processed
    rw [hprocessed, select.counts_eq, select.frame.1]
    exact h.recorded
  · show s'.processed.length + counts.backwardSubsumed = counts.processed
    rw [hprocessed, hbackward, select.counts_eq, select.processed_eq]
    exact h.kept

/-- A name in the place of the selected clause is not in the archive. -/
lemma notMem_archive_of_perm {names' : NameSupply} {waiting dropped : List String} {archive : Archive}
    (hissued : Issues names (queued.map Clause.name) names')
    (hplaced : (queued.map Clause.name).Perm
      (archive.names ++ given.name :: waiting ++ dropped)) :
    given.name ∉ archive.entries.map Clause.name := by
  have hnodup := hplaced.nodup_iff.1 hissued.2.1
  rw [List.append_assoc] at hnodup
  exact fun hmem => (List.nodup_append'.1 hnodup).2.2 hmem (by simp)

/-- **A transition keeps the books**, and only adds to the archive. -/
theorem Ledger.transition {w : Option Clause} (h : Ledger names queued found s)
    (ht : Transition s t w) :
    s.archive.entries <+: t.archive.entries ∧ ∃ new, Exchanges s t new ∧
      Ledger names (queued ++ new) (found + w.toList.length) t := by
  cases ht with
  | refuted select | tautology select | subsumed select =>
      refine ⟨by rw [← select.frame.1], [], select.exchanges rfl, ?_⟩
      rw [List.append_nil]
      refine h.drop select _ _ ?_ rfl rfl rfl
      simp only [Option.toList_some, Option.toList_none, List.length_singleton, List.length_nil]
      omega
  | @inferred chosen given s' factors resolvents names₁ names₂ select _ _ _ factored resolved =>
      obtain ⟨hissued, hwaiting, dropped, hplaced, hlength⟩ := h.select select
      have hentries := Archive.entries_record_of_new (notMem_archive_of_perm hissued hplaced)
      have harchive : (s'.archive.record given).names = s'.archive.names ++ [given.name] := by
        rw [Archive.names, hentries, List.map_append]
        rfl
      have hqueue : (s'.unprocessed.insertAll (factors ++ resolvents)).items.map Clause.name =
          s'.unprocessed.items.map Clause.name ++ (factors ++ resolvents).map Clause.name := by
        rw [Queue.items_insertAll, List.map_append]
      obtain ⟨found₁, hnamed, -⟩ := allFactors_eq factored
      obtain ⟨found₂, hnamed', -⟩ := allResolvents_eq resolved
      have hnew := (issues_nameConclusions hnamed).append (issues_nameConclusions hnamed')
      rw [← List.map_append] at hnew
      refine ⟨?_, factors ++ resolvents, select.exchanges rfl, ?_, ?_, ⟨dropped, ?_, ?_⟩, ?_, ?_, ?_⟩
      · show _ <+: (s'.archive.record given).entries
        rw [hentries, select.frame.1]
        exact List.prefix_append _ _
      · rw [List.map_append]
        exact hissued.append hnew
      · rw [Queue.items_insertAll]
        exact List.append_subset.2 ⟨fun c hc => List.mem_append_left _ (hwaiting hc),
          List.subset_append_right _ _⟩
      · rw [List.map_append, hqueue, harchive]
        exact perm_of_recorded hplaced _
      · exact hlength
      · have hentered := h.entered
        rw [← select.counts_eq] at hentered
        simp only [List.length_append]
        omega
      · have hrecorded := h.recorded
        rw [← select.counts_eq, ← select.frame.1] at hrecorded
        show (s'.archive.record given).entries.length = _
        rw [hentries, List.length_append, hrecorded]
        rfl
      · have hkept := h.kept
        have hgone := length_kept_add_gone s' given
        rw [← select.counts_eq, ← select.processed_eq] at hkept
        simp only [List.length_append, List.length_singleton]
        omega

lemma length_nameClauses (names : NameSupply) (clauses : List Clause) :
    (nameClauses names clauses).1.length = clauses.length := by
  induction clauses generalizing names with
  | nil => rfl
  | cons c rest ih => simp [nameClauses, ih]

lemma ledger_start (schedule : Schedule) (settings : Settings) (names : NameSupply)
    (clauses : List Clause) :
    Ledger names (State.start schedule settings names clauses).unprocessed.items 0
      (State.start schedule settings names clauses) where
  issued := by
    rw [items_start]
    exact issues_nameClauses names clauses
  waiting := List.Subset.refl _
  placed := ⟨[], by simp [State.start, Archive.names], rfl⟩
  entered := by
    rw [items_start, length_nameClauses]
    rfl
  recorded := rfl
  kept := rfl

/-! ## Runs -/

lemma added_of_refused {e : StepError} (h : s.step = .error e) : s.added = [] := by
  cases hbest : s.unprocessed.extractBest <;> simp [State.added, h, hbest]

/-- **The books are kept** over any number of steps. -/
theorem Ledger.after (h : Ledger names s.unprocessed.items 0 s) (n : ℕ) :
    Ledger names (s.queued n) (s.contradictions n) (s.after n) := by
  induction n with
  | zero => simpa [State.queued, State.contradictions, State.after] using h
  | succ n ih =>
      cases hstep : (s.after n).step with
      | ok r =>
          obtain ⟨-, new, hnew, hledger⟩ := ih.transition (step_transition hstep)
          rw [queued_succ, added_eq hstep hnew, contradictions_succ_of_step hstep,
            after_succ_of_step hstep]
          exact hledger
      | error e =>
          rw [queued_succ, added_of_refused hstep, List.append_nil,
            contradictions_succ_of_refused hstep, after_succ_of_refused hstep]
          exact ih

lemma Ledger.prefix_after (h : Ledger names s.unprocessed.items 0 s) (n m : ℕ) :
    (s.after n).archive.entries <+: (s.after (n + m)).archive.entries := by
  induction m with
  | zero => exact List.prefix_refl _
  | succ m ih =>
      refine ih.trans ?_
      rw [← Nat.add_assoc]
      cases hstep : (s.after (n + m)).step with
      | ok r =>
          rw [after_succ_of_step hstep]
          exact ((h.after (n + m)).transition (step_transition hstep)).1
      | error e => rw [after_succ_of_refused hstep]

/-- Counting the places that a name can be in. -/
lemma Ledger.flow (h : Ledger names queued found s) :
    s.counts.initial + s.counts.factors + s.counts.resolvents =
      s.unprocessed.size + s.counts.processed + s.counts.tautologies + s.counts.forwardSubsumed +
        found := by
  obtain ⟨dropped, hplaced, hlength⟩ := h.placed
  have hcount := hplaced.length_eq
  have hrecorded := h.recorded
  simp only [List.length_append, List.length_map, Archive.names, Queue.items, h.entered, hlength]
    at hcount
  rw [Queue.size]
  omega

/-- The books of the search `s` balance after `n` steps. -/
structure Balanced (s : State) (n : ℕ) : Prop where
  /-- What came in waits, was processed, was dropped as a tautology or as subsumed, or is one of the
  contradictions that were returned. -/
  flow : (s.after n).counts.initial + (s.after n).counts.factors + (s.after n).counts.resolvents =
    (s.after n).unprocessed.size + (s.after n).counts.processed + (s.after n).counts.tautologies +
      (s.after n).counts.forwardSubsumed + s.contradictions n
  /-- What was processed has an entry of its own in the archive. -/
  recorded : (s.after n).counts.processed = (s.after n).archive.entries.length
  /-- What is recorded is still among the processed clauses, or was subsumed by a later one. -/
  kept : (s.after n).archive.entries.length =
    (s.after n).processed.length + (s.after n).counts.backwardSubsumed
  /-- Whatever waits has come into the queue, and the counters say how much came. -/
  arrivals : (s.after n).unprocessed.items ⊆ s.queued n ∧ (s.queued n).length =
    (s.after n).counts.initial + (s.after n).counts.factors + (s.after n).counts.resolvents
  /-- No two clauses that came into the queue have the same name. -/
  distinct : ((s.queued n).map Clause.name).Nodup
  /-- No entry of the archive is ever replaced. -/
  lasting : ∀ m, (s.after n).archive.entries <+: (s.after (n + m)).archive.entries

/-- **The books balance** after any number of steps, whatever names the input comes with. -/
theorem bookkeeping_balances (schedule : Schedule) (settings : Settings) (names : NameSupply)
    (clauses : List Clause) (n : ℕ) :
    Balanced (State.start schedule settings names clauses) n := by
  have hstart := ledger_start schedule settings names clauses
  have hledger := hstart.after n
  exact ⟨hledger.flow, hledger.recorded.symm, hledger.recorded.trans hledger.kept.symm,
    ⟨hledger.waiting, hledger.entered⟩, hledger.issued.2.1, hstart.prefix_after n⟩

/-- Clauses that go every way.  Two have the same name and some have none; the third subsumes the first
two and the fourth, the fifth is a tautology, and the last a contradiction. -/
def everyWay : List Clause := [
  { name := "c1", literals := [⟨true, "p", [.app "a" []]⟩] },
  { literals := [⟨true, "p", [.app "b" []]⟩] },
  { name := "c1", literals := [⟨true, "p", [.var "X"]⟩] },
  { literals := [⟨true, "p", [.app "f" [.var "Y"]]⟩] },
  { literals := [⟨true, "q", []⟩, ⟨false, "q", []⟩] },
  { name := "falsum" }]

/-- The search through them, oldest first, with all that can be dropped being dropped. -/
def everyWaySearch : State :=
  .start (.start "fifo" [⟨1, .freshAge⟩])
    { deleteTautologies := true, forwardSubsumption := true, backwardSubsumption := true } {} everyWay

/-- After six steps three clauses are recorded and one of them is left, the other two having been taken
out when it came; one was dropped as subsumed, one as a tautology, and one was returned. -/
theorem everyWay_balances :
    (everyWaySearch.after 6).counts =
        { initial := 6, processed := 3, tautologies := 1, forwardSubsumed := 1, backwardSubsumed := 2 } ∧
      (everyWaySearch.after 6).unprocessed.size = 0 ∧
      (everyWaySearch.after 6).archive.names = ["c1", "c2", "c1_2"] ∧
      (everyWaySearch.after 6).processed.map Clause.name = ["c1_2"] ∧
      everyWaySearch.contradictions 6 = 1 ∧ Balanced everyWaySearch 6 :=
  ⟨by decide +kernel, by decide +kernel, by decide +kernel, by decide +kernel, by decide +kernel,
    bookkeeping_balances _ _ _ _ 6⟩

end Search

end GivenClause
