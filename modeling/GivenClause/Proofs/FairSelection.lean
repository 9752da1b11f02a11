import Mathlib
import GivenClause.Proofs.ScoredSets
import GivenClause.Proofs.Sessions

/-!
# Fair selection

No clause waits for ever in a queue whose schedule has a slot that goes by age.  When this slot is due,
the oldest entry is taken, and its turn comes once in every round.  So an entry with `r` others before
it is gone after `r + 1` rounds, whatever is put in meanwhile and however the other slots select.

**The measure.**  For an entry in the queue, count a full round for each entry that is older, and the
selections until the next turn of the slot that goes by age.  Every selection lowers this number: a
turn by age takes out an older entry, and any other selection brings that turn nearer.  No other call
raises it (`Overdue`).

Entries are told apart by their age, so a clause that is put in again is another entry.
-/

namespace GivenClause

namespace Queue

open ScoredSet

variable {α : Type}

/-! ## Ages -/

/-- A round has so many selections, the slot at position `j` goes by age and has scored so many clauses,
and the entries stand in the order of their ages. -/
structure Aged (round j scored : ℕ) (q : Queue α) : Prop where
  inTurn : q.schedule.InTurn
  total : q.schedule.total = round
  slot : ∃ ratio further, q.schedule.slots[j]? = some ⟨ratio, .age scored further⟩
  past : ∀ e ∈ q.entries, scoreAt j e ≤ scored
  ascending : q.entries.Pairwise fun e e' => scoreAt j e < scoreAt j e'

section Aged

variable {round j scored : ℕ} {q q' : Queue α}

lemma aged_empty {schedule : Schedule} (hturn : schedule.InTurn) {ratio further : ℕ}
    (hage : schedule.slots[j]? = some ⟨ratio, .age scored further⟩) :
    Aged schedule.total j scored ({ schedule } : Queue α) :=
  ⟨hturn, rfl, ⟨ratio, further, hage⟩, by simp, .nil⟩

lemma Aged.lt_length (h : Aged round j scored q) : j < q.schedule.slots.length := by
  obtain ⟨ratio, further, hage⟩ := h.slot
  exact (List.getElem?_eq_some_iff.1 hage).1

lemma Aged.turnsUntil_lt (h : Aged round j scored q) : q.schedule.turnsUntil j < round :=
  h.total ▸ h.inTurn.turnsUntil_lt h.lt_length

/-- Fewer entries, and a schedule with the same slots. -/
lemma Aged.mono (h : Aged round j scored q) (hturn : q'.schedule.InTurn)
    (hslots : q'.schedule.slots = q.schedule.slots) (hentries : q'.entries.Sublist q.entries) :
    Aged round j scored q' :=
  ⟨hturn, by rw [Schedule.total, hslots, ← h.total, Schedule.total], hslots ▸ h.slot,
    fun e he => h.past e (hentries.subset he), h.ascending.sublist hentries⟩

/-- What is put in comes behind all others and is younger than they are. -/
lemma Aged.insert [HasClause α] (h : Aged round j scored q) (x : α) :
    ∃ scored' new, Aged round j scored' (q.insert x) ∧ scored < scored' ∧
      (q.insert x).entries = q.entries ++ [new] ∧ scoreAt j new = scored + 1 := by
  obtain ⟨ratio, further, hage⟩ := h.slot
  obtain ⟨new, hentries, hnew⟩ : ∃ new, (q.insert x).entries = q.entries ++ [new] ∧
      scoreAt j new = scored + 1 :=
    ⟨_, rfl, by simp [scoreAt, hage, Weight.score]⟩
  refine ⟨scored + 1 + further, new,
    ⟨h.inTurn.evaluate (HasClause.clause x), ?_, ⟨ratio, further, ?_⟩, fun e he => ?_, ?_⟩, by omega,
    hentries, hnew⟩
  · exact (q.schedule.total_evaluate (HasClause.clause x)).trans h.total
  · simp [Queue.insert, Schedule.evaluate, hage, Weight.advance]
  · rw [hentries] at he
    push_cast
    rcases List.mem_append.1 he with he | he
    · have := h.past e he
      omega
    · rw [List.mem_singleton.1 he, hnew]
      omega
  · rw [hentries, List.pairwise_append]
    refine ⟨h.ascending, List.pairwise_singleton _ _, fun e he e' he' => ?_⟩
    rw [List.mem_singleton.1 he', hnew]
    exact Int.lt_add_one_of_le (h.past e he)

lemma Aged.insertAll [HasClause α] (h : Aged round j scored q) (xs : List α) :
    ∃ scored', Aged round j scored' (q.insertAll xs) := by
  induction xs generalizing q scored with
  | nil => exact ⟨scored, h⟩
  | cons x xs ih =>
      obtain ⟨scored', -, h', -⟩ := h.insert x
      exact ih h'

end Aged

/-! ## Selections -/

section Selection

variable {round j scored : ℕ} {q q' : Queue α} {x : α}

lemma leastFrom_of_ascending (i : ℕ) {best : Entry α} {rest : List (Entry α)}
    (h : ∀ e ∈ rest, scoreAt i best < scoreAt i e) : leastFrom i best rest = best := by
  induction rest with
  | nil => rfl
  | cons e rest ih =>
      obtain ⟨he, hrest⟩ := List.forall_mem_cons.1 h
      rw [leastFrom, if_neg he.not_gt]
      exact ih hrest

/-- **A turn by age takes the oldest entry.** -/
theorem Aged.extractBest_oldest (h : Aged round j scored q) (hdue : q.schedule.current = j)
    (hbest : q.extractBest = some (x, q')) : ∃ e, q.entries = e :: q'.entries := by
  have hfst : q.schedule.next.1 = j := q.schedule.next_fst.trans hdue
  rw [extractBest] at hbest
  split at hbest
  · cases hbest
  · rename_i e rest hentries
    have hascending := h.ascending
    rw [hentries, List.pairwise_cons] at hascending
    simp only [Option.some.injEq, Prod.mk.injEq] at hbest
    obtain ⟨-, rfl⟩ := hbest
    rw [hfst, leastFrom_of_ascending j hascending.1]
    exact ⟨e, by simp [hentries, removeScored]⟩

lemma Aged.extractBest (h : Aged round j scored q) (hbest : q.extractBest = some (x, q')) :
    Aged round j scored q' := by
  have hschedule := schedule_extractBest hbest
  exact h.mono (hschedule ▸ h.inTurn.next) (hschedule ▸ q.schedule.slots_next)
    (entries_extractBest_sublist hbest)

end Selection

/-! ## The measure -/

/-- The number of entries that are older than `e`. -/
def olderThan (j : ℕ) (e : Entry α) (q : Queue α) : ℕ :=
  q.entries.countP fun d => scoreAt j d < scoreAt j e

lemma olderThan_eq_length {round j scored : ℕ} {e : Entry α} {q : Queue α} (h : Aged round j scored q)
    {before after : List (Entry α)} (hq : q.entries = before ++ e :: after) :
    olderThan j e q = before.length := by
  have hascending := h.ascending
  rw [hq, List.pairwise_append, List.pairwise_cons] at hascending
  obtain ⟨-, ⟨hafter, -⟩, hbefore⟩ := hascending
  have hcount : before.countP (fun d => scoreAt j d < scoreAt j e) = before.length := by
    rw [List.countP_eq_length]
    exact fun d hd => decide_eq_true (hbefore d hd e List.mem_cons_self)
  have hnone : after.countP (fun d => scoreAt j d < scoreAt j e) = 0 := by
    rw [List.countP_eq_zero]
    exact fun d hd => by simpa using (hafter d hd).le
  rw [olderThan, hq, List.countP_append, List.countP_cons, hcount, hnone]
  simp

/-- The entry `e` was put in once, and if it is still there, fewer than `n` selections will be made
before it is taken. -/
structure Overdue (round j : ℕ) (e : Entry α) (n : ℕ) (q : Queue α) : Prop where
  aged : ∃ scored, Aged round j scored q ∧ scoreAt j e ≤ scored
  soon : e ∈ q.entries → olderThan j e q * round + q.schedule.turnsUntil j < n

section Overdue

variable {round j n : ℕ} {e : Entry α} {q q' : Queue α}

lemma overdue_of_aged {scored : ℕ} (h : Aged round j scored q) {before after : List (Entry α)}
    (hq : q.entries = before ++ e :: after) :
    Overdue round j e ((before.length + 1) * round) q := by
  have he : e ∈ q.entries := by simp [hq]
  have hturn := h.turnsUntil_lt
  refine ⟨⟨scored, h, h.past e he⟩, fun _ => ?_⟩
  rw [olderThan_eq_length h hq, Nat.add_mul, Nat.one_mul]
  omega

lemma Overdue.notMem (h : Overdue round j e 0 q) : e ∉ q.entries :=
  fun he => Nat.not_lt_zero _ (h.soon he)

lemma Overdue.mono {m : ℕ} (h : Overdue round j e n q) (hnm : n ≤ m) : Overdue round j e m q :=
  ⟨h.aged, fun he => (h.soon he).trans_le hnm⟩

/-- What is put in is younger than `e`, and no clause that is put in again is the same entry. -/
lemma Overdue.insert [HasClause α] (h : Overdue round j e n q) (x : α) :
    Overdue round j e n (q.insert x) := by
  obtain ⟨scored, haged, hscored⟩ := h.aged
  obtain ⟨scored', new, haged', hlater, hentries, hnew⟩ := haged.insert x
  have hyounger : scoreAt j e < scoreAt j new := by omega
  refine ⟨⟨scored', haged', by omega⟩, fun he => ?_⟩
  have hmem : e ∈ q.entries := by
    rw [hentries] at he
    rcases List.mem_append.1 he with he | he
    · exact he
    · rw [List.mem_singleton.1 he] at hyounger
      exact absurd hyounger (lt_irrefl _)
  have hsame : olderThan j e (q.insert x) = olderThan j e q := by
    simp [olderThan, hentries, hyounger.le]
  rw [hsame]
  simpa [Queue.insert] using h.soon hmem

lemma Overdue.insertAll [HasClause α] (h : Overdue round j e n q) (xs : List α) :
    Overdue round j e n (q.insertAll xs) := by
  induction xs generalizing q with
  | nil => exact h
  | cons x xs ih => exact ih (h.insert x)

/-- Taking out entries without a selection. -/
lemma Overdue.remove (h : Overdue round j e n q) {rest : List (Entry α)}
    (hrest : rest.Sublist q.entries) : Overdue round j e n { q with entries := rest } := by
  obtain ⟨scored, haged, hscored⟩ := h.aged
  refine ⟨⟨scored, haged.mono haged.inTurn rfl hrest, hscored⟩, fun he => ?_⟩
  have hsoon := h.soon (hrest.subset he)
  have hfewer : olderThan j e { q with entries := rest } ≤ olderThan j e q := hrest.countP_le
  exact (Nat.add_le_add_right (Nat.mul_le_mul_right _ hfewer) _).trans_lt hsoon

/-- **A selection brings the end of the wait nearer.** -/
theorem Overdue.extractBest {x : α} (h : Overdue round j e (n + 1) q)
    (hbest : q.extractBest = some (x, q')) : Overdue round j e n q' := by
  obtain ⟨scored, haged, hscored⟩ := h.aged
  refine ⟨⟨scored, haged.extractBest hbest, hscored⟩, fun he => ?_⟩
  have hsublist := entries_extractBest_sublist hbest
  have hsoon := h.soon (hsublist.subset he)
  have hschedule := schedule_extractBest hbest
  by_cases hturn : q.schedule.turnsUntil j = 0
  · -- the oldest entry goes, so one of those before `e`
    have hdue := haged.inTurn.current_of_turnsUntil haged.lt_length hturn
    obtain ⟨oldest, hentries⟩ := haged.extractBest_oldest hdue hbest
    have hascending := haged.ascending
    rw [hentries, List.pairwise_cons] at hascending
    have hfewer : olderThan j e q = olderThan j e q' + 1 := by
      rw [olderThan, olderThan, hentries, List.countP_cons_of_pos]
      exact decide_eq_true (hascending.1 e he)
    have hround := (haged.extractBest hbest).turnsUntil_lt
    rw [hfewer, hturn, Nat.add_mul] at hsoon
    omega
  · have hnearer := haged.inTurn.turnsUntil_next haged.lt_length hturn
    rw [← hschedule] at hnearer
    have hfewer : olderThan j e q' ≤ olderThan j e q := hsublist.countP_le
    have := Nat.mul_le_mul_right round hfewer
    omega

end Overdue

/-! ## Sequences of requests -/

section Requests

variable {round j n : ℕ} {e : Entry Labelled} {q : Queue Labelled} (clauseOf : ℕ → Clause)

lemma Aged.perform {scored : ℕ} (h : Aged round j scored q) (request : Request) :
    ∃ scored', Aged round j scored' (q.perform clauseOf request).2 := by
  have hremoves : Removes request → ∃ scored', Aged round j scored' (q.perform clauseOf request).2 := by
    intro hrequest
    obtain ⟨rest, hrest, hq⟩ := perform_of_removes clauseOf q hrequest
    exact ⟨scored, hq ▸ h.mono h.inTurn rfl hrest⟩
  cases request with
  | insert label =>
      obtain ⟨scored', -, h', -⟩ := h.insert (member clauseOf label)
      exact ⟨scored', h'⟩
  | insertAll labels => exact h.insertAll _
  | extractBest =>
      rw [Queue.perform]
      cases hbest : q.extractBest with
      | none => exact ⟨scored, h⟩
      | some taken => exact ⟨scored, h.extractBest hbest⟩
  | extractFirst | extract label | removeSubsumed c => exact hremoves trivial

lemma Aged.answerAll {scored : ℕ} (h : Aged round j scored q) (requests : List Request) :
    ∃ scored', Aged round j scored' (answerAll (Queue.perform clauseOf) q requests).2 := by
  induction requests generalizing q scored with
  | nil => exact ⟨scored, h⟩
  | cons request requests ih =>
      obtain ⟨scored', h'⟩ := h.perform clauseOf request
      exact ih h'

lemma Overdue.perform (h : Overdue round j e n q) (request : Request) :
    Overdue round j e (n - [request].count .extractBest) (q.perform clauseOf request).2 := by
  have hremoves : Removes request → Overdue round j e n (q.perform clauseOf request).2 := by
    intro hrequest
    obtain ⟨rest, hrest, hq⟩ := perform_of_removes clauseOf q hrequest
    exact hq ▸ h.remove hrest
  cases request with
  | insert label => exact h.insert _
  | insertAll labels => exact h.insertAll _
  | extractBest =>
      rw [Queue.perform]
      cases hbest : q.extractBest with
      | none =>
          have hempty : q.entries = [] := List.isEmpty_iff.1 (extractBest_eq_none_iff.1 hbest)
          exact ⟨h.aged, by simp [hempty]⟩
      | some taken =>
          have hlater : Overdue round j e (n - 1 + 1) q := h.mono (by omega)
          exact hlater.extractBest hbest
  | extractFirst | extract label | removeSubsumed c => exact hremoves trivial

/-- **Every selection counts.** -/
theorem Overdue.answerAll (h : Overdue round j e n q) (requests : List Request) :
    Overdue round j e (n - requests.count .extractBest)
      (answerAll (Queue.perform clauseOf) q requests).2 := by
  induction requests generalizing q n with
  | nil => exact h
  | cons request requests ih =>
      have hcount : n - (request :: requests).count .extractBest
          = n - [request].count .extractBest - requests.count .extractBest := by
        rw [← List.singleton_append, List.count_append, Nat.sub_sub]
      rw [hcount]
      exact ih (h.perform clauseOf request)

end Requests

end Queue

/-! ## Searches -/

namespace Search

open Queue ScoredSet

/-- The next step of the search takes the entry `e` out of the queue. -/
def Takes (s : State) (e : Entry Clause) : Prop :=
  ∃ before after queue, s.unprocessed.entries = before ++ e :: after ∧
    s.unprocessed.extractBest = some (e.item, queue) ∧ queue.entries = before ++ after

/-- What a transition does to the queue: a selection, and then conclusions are put in. -/
lemma Transition.exists_insertAll {s t : State} {w : Option Clause} (h : Transition s t w) :
    ∃ chosen queue conclusions, s.unprocessed.extractBest = some (chosen, queue) ∧
      t.unprocessed = queue.insertAll conclusions := by
  cases h with
  | refuted select | tautology select | subsumed select =>
      obtain ⟨queue, names, hqueue, -, rfl⟩ := select
      exact ⟨_, queue, [], hqueue, rfl⟩
  | inferred select =>
      obtain ⟨queue, names, hqueue, -, rfl⟩ := select
      exact ⟨_, queue, _, hqueue, rfl⟩

lemma aged_transition {round j scored : ℕ} {s t : State} {w : Option Clause}
    (h : Aged round j scored s.unprocessed) (ht : Transition s t w) :
    ∃ scored', Aged round j scored' t.unprocessed := by
  obtain ⟨chosen, queue, conclusions, hbest, hqueue⟩ := ht.exists_insertAll
  rw [hqueue]
  exact (h.extractBest hbest).insertAll conclusions

lemma entries_subset_insertAll (q : Queue Clause) (xs : List Clause) :
    q.entries ⊆ (q.insertAll xs).entries := by
  induction xs generalizing q with
  | nil => exact List.Subset.refl _
  | cons x xs ih => exact List.Subset.trans (List.subset_append_left _ _) (ih (q.insert x))

/-- A step that does not take an entry leaves it in the queue, one selection nearer to its turn. -/
lemma overdue_step {round j n : ℕ} {e : Entry Clause} {s : State} {r : Step}
    (h : Overdue round j e (n + 1) s.unprocessed) (he : e ∈ s.unprocessed.entries)
    (hstep : s.step = .ok r) (hnot : ¬ Takes s e) :
    Overdue round j e n r.state.unprocessed ∧ e ∈ r.state.unprocessed.entries := by
  obtain ⟨chosen, queue, conclusions, hbest, hqueue⟩ := (step_transition hstep).exists_insertAll
  obtain ⟨before, d, after, hs, rfl, hrest⟩ := extractBest_eq_some hbest
  have hne : e ≠ d := by
    rintro rfl
    exact hnot ⟨before, after, queue, hs, hbest, hrest⟩
  have hkept : e ∈ queue.entries := by
    rw [hs] at he
    rw [hrest]
    simpa [hne] using he
  rw [hqueue]
  exact ⟨(h.extractBest hbest).insertAll conclusions, entries_subset_insertAll queue conclusions hkept⟩

/-- A selected clause can only fail to be processed if a unification does not settle. -/
lemma process_error {s : State} {given : Clause} {fault : StepError}
    (h : s.process given = .error fault) : fault = .unsettled := by
  rw [State.process, clear_eq] at h
  split_ifs at h
  dsimp only at h
  split at h
  · exact (Except.error.inj h).symm
  · cases h

/-- While a clause waits, a step fails only if a unification does not settle. -/
lemma exists_step_of_waiting {s : State} {e : Entry Clause} (he : e ∈ s.unprocessed.entries)
    (hsettled : s.step ≠ .error .unsettled) : ∃ r, s.step = .ok r := by
  cases hstep : s.step with
  | ok r => exact ⟨r, rfl⟩
  | error fault =>
      rw [State.step] at hstep
      split at hstep
      · rename_i hbest
        rw [extractBest_eq_none_iff, Queue.isEmpty, List.isEmpty_iff] at hbest
        rw [hbest] at he
        cases he
      · rename_i chosen queue hbest
        obtain rfl := process_error hstep
        exact absurd (by rw [State.step, hbest]; exact hstep) hsettled

/-- **A waiting clause is taken in time.** -/
theorem exists_takes {round j n : ℕ} {e : Entry Clause} {s : State}
    (h : Overdue round j e n s.unprocessed) (he : e ∈ s.unprocessed.entries)
    (hsettled : ∀ i < n, (s.after i).step ≠ .error .unsettled) : ∃ i < n, Takes (s.after i) e := by
  by_contra hnever
  push Not at hnever
  -- as long as it is not taken, its time gets shorter with every step
  have hwaits : ∀ i ≤ n, Overdue round j e (n - i) (s.after i).unprocessed ∧
      e ∈ (s.after i).unprocessed.entries := by
    intro i
    induction i with
    | zero => exact fun _ => ⟨h, he⟩
    | succ i ih =>
        intro hi
        obtain ⟨hoverdue, hmem⟩ := ih (by omega)
        obtain ⟨r, hr⟩ := exists_step_of_waiting hmem (hsettled i hi)
        have hafter : s.after (i + 1) = r.state := by rw [State.after, hr]
        rw [hafter]
        rw [show n - i = n - (i + 1) + 1 by omega] at hoverdue
        exact overdue_step hoverdue hmem hr (hnever i hi)
  obtain ⟨hoverdue, hmem⟩ := hwaits n le_rfl
  rw [Nat.sub_self] at hoverdue
  exact hoverdue.notMem hmem

lemma aged_session {schedule : Schedule} (inTurn : schedule.InTurn) {j ratio scored further : ℕ}
    (byAge : schedule.slots[j]? = some ⟨ratio, .age scored further⟩) {settings : Settings}
    {names : NameSupply} {clauses : List Clause} {s : State} {returned : List Clause}
    (session : Session (State.start schedule settings names clauses) s returned) :
    ∃ scored', Aged schedule.total j scored' s.unprocessed := by
  refine (session.invariant (P := fun s => ∃ scored', Aged schedule.total j scored' s.unprocessed)
    ?_ (fun _ _ hs => hs) ?_).1
  · rintro s t w ⟨scored', hs⟩ ht
    exact aged_transition hs ht
  · exact (aged_empty inTurn byAge).insertAll _

/-- **Selection is fair.**  Let a schedule have a slot that goes by age; the age may serve other slots
too.  In a set with this schedule, whatever is asked of it, an entry with `r` entries before it is gone
after `r + 1` rounds of selections.  In a search with this schedule, after whatever calls, it is selected
within as many steps. -/
theorem selection_is_fair {schedule : Schedule} (inTurn : schedule.InTurn) {j ratio scored further : ℕ}
    (byAge : schedule.slots[j]? = some ⟨ratio, .age scored further⟩) :
    (∀ (clauseOf : ℕ → Clause) (past future : List Request) (before behind : List (Entry Labelled))
      (e : Entry Labelled),
      (serve clauseOf schedule past).2.entries = before ++ e :: behind →
      (before.length + 1) * schedule.total ≤ future.count .extractBest →
      e ∉ (serve clauseOf schedule (past ++ future)).2.entries) ∧
    ∀ (settings : Settings) (names : NameSupply) (clauses : List Clause) (s : State)
      (returned : List Clause) (before behind : List (Entry Clause)) (e : Entry Clause),
      Session (State.start schedule settings names clauses) s returned →
      s.unprocessed.entries = before ++ e :: behind →
      (∀ i < (before.length + 1) * schedule.total, (s.after i).step ≠ .error .unsettled) →
      ∃ i < (before.length + 1) * schedule.total, Takes (s.after i) e := by
  constructor
  · intro clauseOf past future before behind e hentries hcount
    rw [(Represents.serve clauseOf inTurn past).2.entries_eq] at hentries
    rw [(Represents.serve clauseOf inTurn _).2.entries_eq, answerAll_append]
    obtain ⟨scored', haged⟩ := (aged_empty inTurn byAge).answerAll clauseOf past
    have hoverdue := (overdue_of_aged haged hentries).answerAll clauseOf future
    rw [Nat.sub_eq_zero_of_le hcount] at hoverdue
    exact hoverdue.notMem
  · intro settings names clauses s returned before behind e session hentries hsettled
    obtain ⟨scored', haged⟩ := aged_session inTurn byAge session
    exact exists_takes (overdue_of_aged haged hentries) (by simp [hentries]) hsettled

/-- Two selections of the heaviest clause, and one of the oldest. -/
def heaviestFirst : Schedule := .start "heaviest" [⟨2, .symbolCount (-1) 0⟩, ⟨1, .freshAge⟩]

/-- A clause of one symbol, and one of three. -/
def light : Clause := { literals := [⟨true, "p", []⟩] }

def heavy : Clause := { literals := [⟨true, "p", [.app "f" [.app "a" []]]⟩] }

/-- Two light objects, all others are heavy. -/
def lightOrHeavy (label : ℕ) : Clause := if label < 2 then light else heavy

/-- Heavy clauses come in before every selection.  The second of two light ones is still there after
five selections and gone after the sixth; in a search, the first one is taken within three steps. -/
theorem light_is_taken :
    (⟨⟨1, light⟩, [-1, 2]⟩ : Entry Labelled) ∉ (serve lightOrHeavy heaviestFirst
        ([.insert 0, .insert 1] ++ (List.replicate 6 [.insert 2, .extractBest]).flatten)).2.entries ∧
      (⟨⟨1, light⟩, [-1, 2]⟩ : Entry Labelled) ∈ (serve lightOrHeavy heaviestFirst
        ([.insert 0, .insert 1] ++ (List.replicate 5 [.insert 2, .extractBest]).flatten)).2.entries ∧
      ∃ i < 3, Takes ((State.start heaviestFirst {} {} [light, heavy]).after i)
        ⟨{ light with name := "c1" }, [-1, 1]⟩ := by
  have hturn : heaviestFirst.InTurn := Schedule.inTurn_start _ (by simp) (by decide)
  obtain ⟨hqueue, hsearch⟩ := @selection_is_fair heaviestFirst hturn 1 1 0 0 rfl
  refine ⟨hqueue lightOrHeavy _ _ [⟨⟨0, light⟩, [-1, 1]⟩] [] _ (by decide +kernel)
    (by decide +kernel), by decide +kernel, ?_⟩
  exact hsearch {} {} [light, heavy] _ [] [] [⟨{ heavy with name := "c2" }, [-3, 2]⟩] _ .start
    (by decide +kernel) (by decide +kernel)

end Search

end GivenClause
