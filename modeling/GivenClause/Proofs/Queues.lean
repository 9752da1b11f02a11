import Mathlib
import GivenClause.Queue

/-!
# Selecting from a queue

What is put in stands behind all others (`items_insertAll`).  Selection takes out the first entry of
least score under the weight that is due and leaves the others in their order (`extractBest_least`).
-/

namespace GivenClause

namespace Queue

variable {α : Type}

@[simp] lemma items_insert [HasClause α] (q : Queue α) (x : α) :
    (q.insert x).items = q.items ++ [x] := by
  simp [insert, items]

@[simp] lemma items_insertAll [HasClause α] (q : Queue α) (xs : List α) :
    (q.insertAll xs).items = q.items ++ xs := by
  induction xs generalizing q with
  | nil => simp [insertAll]
  | cons x xs ih =>
      have h := ih (q.insert x)
      rw [insertAll] at h ⊢
      rw [List.foldl_cons, h, items_insert, List.append_assoc, List.singleton_append]

/-- The selected entry is the first candidate, or a later one that beats the candidate and is the
first with its score. -/
lemma leastFrom_cases (i : ℕ) (best : Entry α) (rest : List (Entry α)) :
    leastFrom i best rest = best ∨
      scoreAt i (leastFrom i best rest) < scoreAt i best ∧
        ∃ before after, rest = before ++ leastFrom i best rest :: after ∧
          ∀ e ∈ before, scoreAt i e ≠ scoreAt i (leastFrom i best rest) := by
  induction rest generalizing best with
  | nil => exact Or.inl rfl
  | cons e rest ih =>
      rw [leastFrom]
      split_ifs with hlt
      · right
        rcases ih e with heq | ⟨hless, before, after, hrest, hbefore⟩
        · rw [heq]
          exact ⟨hlt, [], rest, rfl, by simp⟩
        · refine ⟨hless.trans hlt, e :: before, after, ?_, ?_⟩
          · rw [List.cons_append, ← hrest]
          · intro e' he'
            rcases List.mem_cons.1 he' with rfl | he'
            · exact hless.ne'
            · exact hbefore e' he'
      · rcases ih best with heq | ⟨hless, before, after, hrest, hbefore⟩
        · exact Or.inl heq
        · refine Or.inr ⟨hless, e :: before, after, ?_, ?_⟩
          · rw [List.cons_append, ← hrest]
          · intro e' he'
            rcases List.mem_cons.1 he' with rfl | he'
            · exact (hless.trans_le (not_lt.1 hlt)).ne'
            · exact hbefore e' he'

lemma removeScored_append (i : ℕ) {e : Entry α} {before after : List (Entry α)}
    (h : ∀ e' ∈ before, scoreAt i e' ≠ scoreAt i e) :
    removeScored i (scoreAt i e) (before ++ e :: after) = before ++ after := by
  induction before with
  | nil => simp [removeScored]
  | cons e' before ih =>
      rw [List.cons_append, removeScored, if_neg (h e' List.mem_cons_self),
        ih fun e'' he'' => h e'' (List.mem_cons_of_mem e' he''), List.cons_append]

lemma leastFrom_le (i : ℕ) (best : Entry α) (rest : List (Entry α)) :
    ∀ e ∈ best :: rest, scoreAt i (leastFrom i best rest) ≤ scoreAt i e := by
  induction rest generalizing best with
  | nil => simp [leastFrom]
  | cons e rest ih =>
      obtain ⟨hbetter, hrest⟩ :=
        List.forall_mem_cons.1 (ih (if scoreAt i e < scoreAt i best then e else best))
      refine List.forall_mem_cons.2 ⟨?_, List.forall_mem_cons.2 ⟨?_, hrest⟩⟩
      all_goals
        refine hbetter.trans ?_
        split_ifs with hlt <;> omega

/-- **Selection takes out the first entry of least score** under the weight that is due, and leaves
the others in their order. -/
theorem extractBest_least {q q' : Queue α} {x : α} (h : q.extractBest = some (x, q')) :
    ∃ before e after, q.entries = before ++ e :: after ∧ x = e.item ∧
      q' = ⟨q.schedule.next.2, before ++ after⟩ ∧
      (∀ d ∈ q.entries, scoreAt q.schedule.next.1 e ≤ scoreAt q.schedule.next.1 d) ∧
      ∀ d ∈ before, scoreAt q.schedule.next.1 d ≠ scoreAt q.schedule.next.1 e := by
  rw [extractBest] at h
  split at h
  · cases h
  · rename_i e rest hentries
    simp only [Option.some.injEq, Prod.mk.injEq] at h
    obtain ⟨rfl, rfl⟩ := h
    have hleast := leastFrom_le q.schedule.next.1 e rest
    rcases leastFrom_cases q.schedule.next.1 e rest with heq | ⟨hless, before, after, hrest, hbefore⟩
    · rw [heq] at hleast
      refine ⟨[], e, rest, hentries, by rw [heq], ?_, by rwa [hentries], by simp⟩
      simp [heq, removeScored]
    · have hsplit : e :: rest = (e :: before) ++ leastFrom q.schedule.next.1 e rest :: after := by
        rw [List.cons_append, ← hrest]
      have hfirst : ∀ d ∈ e :: before,
          scoreAt q.schedule.next.1 d ≠ scoreAt q.schedule.next.1 (leastFrom q.schedule.next.1 e rest) :=
        List.forall_mem_cons.2 ⟨hless.ne', hbefore⟩
      refine ⟨e :: before, leastFrom q.schedule.next.1 e rest, after, hentries.trans hsplit, rfl, ?_,
        by rwa [hentries], hfirst⟩
      rw [Queue.mk.injEq]
      exact ⟨rfl, (congrArg (removeScored _ _) hsplit).trans (removeScored_append _ hfirst)⟩

/-- Selection takes out one entry and leaves the others in their order. -/
theorem extractBest_eq_some {q q' : Queue α} {x : α} (h : q.extractBest = some (x, q')) :
    ∃ before e after, q.entries = before ++ e :: after ∧ x = e.item ∧
      q'.entries = before ++ after := by
  obtain ⟨before, e, after, hq, hx, rfl, -⟩ := extractBest_least h
  exact ⟨before, e, after, hq, hx, rfl⟩

lemma schedule_extractBest {q q' : Queue α} {x : α} (h : q.extractBest = some (x, q')) :
    q'.schedule = q.schedule.next.2 := by
  obtain ⟨before, e, after, -, -, rfl, -⟩ := extractBest_least h
  rfl

/-- Selecting leaves a sublist. -/
lemma entries_extractBest_sublist {q q' : Queue α} {x : α} (h : q.extractBest = some (x, q')) :
    q'.entries.Sublist q.entries := by
  obtain ⟨before, e, after, hq, -, hq'⟩ := extractBest_eq_some h
  rw [hq, hq']
  exact (List.Sublist.refl before).append (List.sublist_cons_self e after)

lemma extractBest_eq_none_iff {q : Queue α} : q.extractBest = none ↔ q.isEmpty = true := by
  rw [extractBest, isEmpty]
  cases q.entries <;> simp

lemma extractBest_perm {q q' : Queue α} {x : α} (h : q.extractBest = some (x, q')) :
    q.items.Perm (x :: q'.items) := by
  obtain ⟨before, e, after, hq, rfl, hq'⟩ := extractBest_eq_some h
  rw [items, items, hq, hq', List.map_append, List.map_append, List.map_cons]
  exact List.perm_middle

end Queue

end GivenClause
