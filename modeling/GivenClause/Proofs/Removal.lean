import Mathlib
import GivenClause.Subsumption

/-!
# Taking members out

A member is taken out by its label, and the first row of its table that has the label goes
(`extractBy_cases`).  Removal by subsumption looks for all members that a clause subsumes, counts them,
and takes them out in this way, one after the other.

**The loop is a filter.**  Where the label of a member tells its clause, what was found goes and nothing
else (`extractEach_subsumed`): a row that stays has another label than each of them, and of several rows
with the same label all go.  So the count is that of the rows that are gone.
-/

namespace GivenClause

/-- The clauses of a list that a clause does not subsume. -/
def unsubsumed (c : Clause) (clauses : List Clause) : List Clause :=
  clauses.filter fun d => !subsumes c d

/-- The clauses of a list that a clause subsumes, by their number. -/
def subsumedCount (c : Clause) (clauses : List Clause) : ℕ := clauses.countP fun d => subsumes c d

lemma length_unsubsumed_add (c : Clause) (clauses : List Clause) :
    (unsubsumed c clauses).length + subsumedCount c clauses = clauses.length := by
  have hsplit := @List.length_eq_countP_add_countP _ (fun d => subsumes c d) clauses
  simp only [Bool.not_eq_true, Bool.decide_eq_false] at hsplit
  rw [unsubsumed, ← List.countP_eq_length_filter, subsumedCount, hsplit, Nat.add_comm]

namespace ClauseSet

variable {α : Type}

lemma takeFirst_cases (p : α → Bool) (xs : List α) :
    (takeFirst p xs = none ∧ ∀ x ∈ xs, p x = false) ∨
      ∃ before x after, xs = before ++ x :: after ∧ p x = true ∧ (∀ y ∈ before, p y = false) ∧
        takeFirst p xs = some (before ++ after) := by
  induction xs with
  | nil => exact .inl ⟨rfl, by simp⟩
  | cons x xs ih =>
      cases hx : p x with
      | true => exact .inr ⟨[], x, xs, rfl, hx, by simp, by simp [takeFirst, hx]⟩
      | false =>
          rcases ih with ⟨hnone, hall⟩ | ⟨before, y, after, rfl, hy, hbefore, hsome⟩
          · exact .inl ⟨by simp [takeFirst, hx, hnone], List.forall_mem_cons.2 ⟨hx, hall⟩⟩
          · exact .inr ⟨x :: before, y, after, rfl, hy, List.forall_mem_cons.2 ⟨hx, hbefore⟩,
              by simp [takeFirst, hx, hsome]⟩

section Rows

variable (item : α → Labelled)

/-- **What is taken out** is the first row with the label; without one there is a refusal. -/
theorem extractBy_cases (c : Labelled) (rows : List α) :
    (extractBy item c rows = .error ⟨c.clause.name⟩ ∧ ∀ x ∈ rows, (item x).label ≠ c.label) ∨
      ∃ before x after, rows = before ++ x :: after ∧ (item x).label = c.label ∧
        (∀ y ∈ before, (item y).label ≠ c.label) ∧ extractBy item c rows = .ok (before ++ after) := by
  rcases takeFirst_cases (fun x => (item x).label == c.label) rows with
    ⟨hnone, hall⟩ | ⟨before, x, after, hrows, hx, hbefore, hsome⟩
  · exact .inl ⟨by rw [extractBy, hnone], fun x hx => beq_eq_false_iff_ne.1 (hall x hx)⟩
  · exact .inr ⟨before, x, after, hrows, beq_iff_eq.1 hx,
      fun y hy => beq_eq_false_iff_ne.1 (hbefore y hy), by rw [extractBy, hsome]⟩

/-- The label of a member tells its clause. -/
def LabelsTell (rows : List α) : Prop :=
  ∀ x ∈ rows, ∀ y ∈ rows, (item x).label = (item y).label → (item x).clause = (item y).clause

variable {item}

/-- Members with other labels are taken out from behind a row. -/
lemma extractEach_cons {cs : List Labelled} {x : α} (rows : List α)
    (h : ∀ c ∈ cs, (item x).label ≠ c.label) :
    extractEach (extractBy item) cs (x :: rows) =
      (extractEach (extractBy item) cs rows).map fun rest => x :: rest := by
  induction cs generalizing rows with
  | nil => rfl
  | cons c cs ih =>
      obtain ⟨hc, hcs⟩ := List.forall_mem_cons.1 h
      have hskip : ((item x).label == c.label) = false := beq_eq_false_iff_ne.2 hc
      rw [extractEach, extractEach, extractBy, extractBy, takeFirst, hskip]
      cases takeFirst (fun y => (item y).label == c.label) rows with
      | none => rfl
      | some others => exact ih others hcs

/-- **Taking out what was found leaves the rest.** -/
theorem extractEach_subsumed (c : Clause) {rows : List α} (h : LabelsTell item rows) :
    extractEach (extractBy item) ((rows.map item).filter fun x => subsumes c x.clause) rows =
      .ok (rows.filter fun x => !subsumes c (item x).clause) := by
  induction rows with
  | nil => rfl
  | cons d rows ih =>
      have hrows : LabelsTell item rows := fun x hx y hy =>
        h x (List.mem_cons_of_mem _ hx) y (List.mem_cons_of_mem _ hy)
      cases hsub : subsumes c (item d).clause with
      | true =>
          have hfirst : extractBy item (item d) (d :: rows) = .ok rows := by
            simp [extractBy, takeFirst]
          rw [List.map_cons, List.filter_cons_of_pos (by simpa using hsub), extractEach, hfirst,
            List.filter_cons_of_neg (by simp [hsub])]
          exact ih hrows
      | false =>
          have hother : ∀ x ∈ (rows.map item).filter fun x => subsumes c x.clause,
              (item d).label ≠ x.label := by
            intro x hx hlabel
            obtain ⟨hmem, hx⟩ := List.mem_filter.1 hx
            obtain ⟨y, hy, rfl⟩ := List.mem_map.1 hmem
            rw [← h d List.mem_cons_self y (List.mem_cons_of_mem _ hy) hlabel, hsub] at hx
            cases hx
          rw [List.map_cons, List.filter_cons_of_neg (by simp [hsub]), extractEach_cons _ hother,
            ih hrows, List.filter_cons_of_pos (by simp [hsub])]
          rfl

end Rows

/-! ## Lists of clauses -/

lemma map_clause_labelled (clauses : List Clause) :
    (labelled clauses).map Labelled.clause = clauses := by
  rw [labelled, List.map_map]
  exact List.zipIdx_map_fst 0 clauses

/-- Different places have different labels. -/
lemma labelsTell_labelled (clauses : List Clause) : LabelsTell id (labelled clauses) := by
  have hplace : ∀ x ∈ labelled clauses, clauses[x.label]? = some x.clause := by
    intro x hx
    obtain ⟨p, hp, rfl⟩ := List.mem_map.1 hx
    exact List.mem_zipIdx_iff_getElem?.1 hp
  intro x hx y hy hlabel
  have hsame := hplace x hx
  rw [show x.label = y.label from hlabel, hplace y hy] at hsame
  exact (Option.some.inj hsame).symm

/-- **Removal counts what it removes.** -/
theorem removeSubsumed_labelled (c : Clause) (clauses : List Clause) :
    ∃ kept, ClauseSet.removeSubsumed c (labelled clauses) = .ok (subsumedCount c clauses, kept) ∧
      kept.map Labelled.clause = unsubsumed c clauses := by
  refine ⟨(labelled clauses).filter fun x => !subsumes c x.clause, ?_, ?_⟩
  · have hloop := extractEach_subsumed c (labelsTell_labelled clauses)
    rw [List.map_id] at hloop
    have hcount : ((labelled clauses).filter fun x => subsumes c x.clause).length =
        subsumedCount c clauses := by
      rw [← List.countP_eq_length_filter, subsumedCount]
      nth_rewrite 2 [← map_clause_labelled clauses]
      rw [List.countP_map]
      rfl
    rw [ClauseSet.removeSubsumed, GivenClause.removeSubsumed, hcount]
    show (do return (subsumedCount c clauses, ← extractEach (extractBy id) _ _)) = _
    rw [hloop]
    rfl
  · rw [unsubsumed]
    nth_rewrite 2 [← map_clause_labelled clauses]
    rw [List.filter_map]
    rfl

end ClauseSet

end GivenClause
