import Mathlib
import GivenClause.Inference
import GivenClause.Search.State

/-!
# Clause names are never issued twice

A supply looks for a free name among numbered candidates.  Different numbers give different
candidates, so one more candidate than there are taken names is enough to find a free one
(`candidate_firstFree_notMem`), although the search for it is cut off there.

`Issues names issued names'` says that a supply has handed out a list of names: they are new, all
different, and taken from then on.  Naming the input and naming conclusions both do that
(`issues_nameClauses`, `issues_nameConclusions`), so the names of a whole search are all different.
-/

namespace GivenClause

namespace NameSupply

/-! ## Looking for a free name -/

lemma mem_of_lt_firstFree {taken : List String} {candidate : ℕ → String} {tries n k : ℕ}
    (hn : n ≤ k) (hk : k < firstFree taken candidate tries n) : candidate k ∈ taken := by
  induction tries generalizing n with
  | zero =>
      rw [firstFree] at hk
      omega
  | succ tries ih =>
      rw [firstFree] at hk
      split_ifs at hk with hmem
      · rcases hn.eq_or_lt with rfl | hlt
        · exact hmem
        · exact ih hlt hk
      · omega

/-- Only a search that used up all its tries may end at a name that is taken. -/
lemma firstFree_eq_of_mem {taken : List String} {candidate : ℕ → String} {tries n : ℕ}
    (h : candidate (firstFree taken candidate tries n) ∈ taken) :
    firstFree taken candidate tries n = n + tries := by
  induction tries generalizing n with
  | zero => rfl
  | succ tries ih =>
      rw [firstFree] at h ⊢
      split_ifs at h ⊢ with hmem
      · rw [ih h]
        omega
      · exact absurd h hmem

/-- **A free name is found.** -/
theorem candidate_firstFree_notMem {candidate : ℕ → String} (hinj : Function.Injective candidate)
    (taken : List String) (n : ℕ) :
    candidate (firstFree taken candidate taken.length n) ∉ taken := by
  intro hmem
  have hend := firstFree_eq_of_mem hmem
  -- all candidates that were tried would be taken, and there are too many of them
  have hall : (List.range' n (taken.length + 1)).map candidate ⊆ taken := by
    intro name hname
    obtain ⟨k, hk, rfl⟩ := List.mem_map.1 hname
    rw [List.mem_range'_1] at hk
    rcases Nat.lt_or_ge k (firstFree taken candidate taken.length n) with hlt | hge
    · exact mem_of_lt_firstFree hk.1 hlt
    · have hk' : k = firstFree taken candidate taken.length n := by omega
      rw [hk']
      exact hmem
  have hnodup : ((List.range' n (taken.length + 1)).map candidate).Nodup :=
    List.Nodup.map hinj List.nodup_range'
  have hle := (hnodup.subperm hall).length_le
  rw [List.length_map, List.length_range'] at hle
  omega

lemma clauseName_injective (names : NameSupply) : Function.Injective names.clauseName := by
  intro m n h
  exact Nat.repr_injective ((String.append_right_inj _).1 h)

lemma suffixed_injective (name : String) : Function.Injective (suffixed name) := by
  intro m n h
  exact Nat.repr_injective ((String.append_right_inj _).1 h)

/-! ## Issuing names -/

/-- From `names` to `names'` the names in the list have been issued, in this order. -/
def Issues (names : NameSupply) (issued : List String) (names' : NameSupply) : Prop :=
  names'.taken = issued.reverse ++ names.taken ∧ issued.Nodup ∧ ∀ name ∈ issued, name ∉ names.taken

lemma Issues.refl (names : NameSupply) : Issues names [] names := ⟨rfl, List.nodup_nil, by simp⟩

lemma Issues.cons {names names₁ names₂ : NameSupply} {name : String} {issued : List String}
    (hname : name ∉ names.taken) (htaken : names₁.taken = name :: names.taken)
    (h : Issues names₁ issued names₂) : Issues names (name :: issued) names₂ := by
  obtain ⟨h₂, hnodup, hfresh⟩ := h
  rw [htaken] at h₂ hfresh
  refine ⟨by simp [h₂], List.nodup_cons.2 ⟨fun hmem => ?_, hnodup⟩, fun other hother => ?_⟩
  · exact hfresh name hmem List.mem_cons_self
  · rcases List.mem_cons.1 hother with rfl | hother
    · exact hname
    · exact fun hmem => hfresh other hother (List.mem_cons_of_mem _ hmem)

lemma Issues.mem_taken {names names' : NameSupply} {issued : List String}
    (h : Issues names issued names') {name : String} :
    name ∈ names'.taken ↔ name ∈ issued ∨ name ∈ names.taken := by
  rw [h.1, List.mem_append, List.mem_reverse]

lemma Issues.append {names names₁ names₂ : NameSupply} {issued more : List String}
    (h : Issues names issued names₁) (h' : Issues names₁ more names₂) :
    Issues names (issued ++ more) names₂ := by
  obtain ⟨htaken, hnodup, hfresh⟩ := h'
  refine ⟨by rw [htaken, h.1, List.reverse_append, List.append_assoc], ?_, fun name hname => ?_⟩
  · refine List.nodup_append'.2 ⟨h.2.1, hnodup, fun name hissued hmore => ?_⟩
    exact hfresh name hmore (h.mem_taken.2 (Or.inl hissued))
  · rcases List.mem_append.1 hname with hname | hname
    · exact h.2.2 name hname
    · exact fun hmem => hfresh name hname (h.mem_taken.2 (Or.inr hmem))

lemma freshClause_notMem (names : NameSupply) : names.freshClause.1 ∉ names.taken :=
  candidate_firstFree_notMem names.clauseName_injective names.taken (names.clauseCount + 1)

lemma taken_freshClause (names : NameSupply) :
    names.freshClause.2.taken = names.freshClause.1 :: names.taken := rfl

lemma claim_notMem (names : NameSupply) (name : String) : (names.claim name).1 ∉ names.taken := by
  rw [claim]
  split_ifs with hmem
  · exact candidate_firstFree_notMem (suffixed_injective name) names.taken 2
  · exact hmem

lemma taken_claim (names : NameSupply) (name : String) :
    (names.claim name).2.taken = (names.claim name).1 :: names.taken := by
  rw [claim]
  split_ifs <;> rfl

lemma assign_notMem (names : NameSupply) (name : String) : (names.assign name).1 ∉ names.taken := by
  rw [assign]
  split_ifs
  · exact names.freshClause_notMem
  · exact names.claim_notMem name

lemma taken_assign (names : NameSupply) (name : String) :
    (names.assign name).2.taken = (names.assign name).1 :: names.taken := by
  rw [assign]
  split_ifs
  · exact names.taken_freshClause
  · exact names.taken_claim name

end NameSupply

open NameSupply

/-- **Conclusions get new names.** -/
theorem issues_nameConclusions {names names' : NameSupply}
    {found : List (List String × Option Clause)} {rs : List Clause}
    (h : nameConclusions names found = (rs, names')) :
    Issues names (rs.map Clause.name) names' := by
  induction found generalizing names names' rs with
  | nil =>
      obtain ⟨rfl, rfl⟩ := Prod.mk.inj h
      exact .refl names
  | cons entry rest ih =>
      obtain ⟨support, _ | c⟩ := entry
      · exact ih h
      · obtain ⟨rfl, rfl⟩ := Prod.mk.inj h
        have hrest := @ih names.freshClause.2 _ _ rfl
        exact .cons names.freshClause_notMem names.taken_freshClause hrest

/-- **Input clauses get new names**, also those that came with a name. -/
theorem issues_nameClauses (names : NameSupply) (clauses : List Clause) :
    Issues names ((Search.nameClauses names clauses).1.map Clause.name)
      (Search.nameClauses names clauses).2 := by
  induction clauses generalizing names with
  | nil => exact .refl names
  | cons c rest ih => exact .cons (names.assign_notMem c.name) (names.taken_assign c.name) (ih _)

end GivenClause
