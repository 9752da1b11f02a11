import Mathlib
import GivenClause.Proofs.ClauseNames

/-!
# Names on request

A supply is asked for generated names and for names of the input, in any order.  A claimed string may
look like a generated name or like the variant of another one, so each request has to search: for the
next number whose name is free, or for the first variant that is.

Written as a loop, such a search has no bound of its own (`EndsAt`).  It ends at a number exactly if
that is the least one from the start on whose candidate is free (`endsAt_iff_isLeast`).  There is one,
since different numbers have different candidates and only finitely many are taken, and it is the number
that the bounded search of a supply gives (`isLeast_firstFree`).

`requests_answered` says what the answer to a request is after any history of requests.
-/

namespace GivenClause.NameSupply

/-! ## The search as a loop -/

section Search

variable {taken : List String} {candidate : ℕ → String} {n m : ℕ}

/-- Look at the candidates from `n` on, one after the other, until one is not taken: the loop ends, and
it does so at `m`. -/
inductive EndsAt (taken : List String) (candidate : ℕ → String) : ℕ → ℕ → Prop
  | free {n : ℕ} (hfree : candidate n ∉ taken) : EndsAt taken candidate n n
  | next {n m : ℕ} (hmem : candidate n ∈ taken) (later : EndsAt taken candidate (n + 1) m) :
      EndsAt taken candidate n m

/-- **The loop ends at the least free number**, and does not end if there is none. -/
theorem endsAt_iff_isLeast :
    EndsAt taken candidate n m ↔ IsLeast {k | n ≤ k ∧ candidate k ∉ taken} m := by
  constructor
  · intro h
    induction h with
    | @free n hfree => exact ⟨⟨le_rfl, hfree⟩, fun k hk => hk.1⟩
    | @next n m hmem _ ih =>
        obtain ⟨⟨hle, hfree⟩, hleast⟩ := ih
        refine ⟨⟨by omega, hfree⟩, fun k hk => hleast ⟨?_, hk.2⟩⟩
        exact lt_of_le_of_ne hk.1 fun e => hk.2 (e ▸ hmem)
  · rintro ⟨⟨hle, hfree⟩, hleast⟩
    -- from the free number back to the start, over numbers that are taken
    refine Nat.decreasingInduction' (fun k hkm hnk later => .next ?_ later) hle (.free hfree)
    by_contra hk
    exact absurd (hleast ⟨hnk, hk⟩) (by omega)

lemma le_firstFree (taken : List String) (candidate : ℕ → String) (tries n : ℕ) :
    n ≤ firstFree taken candidate tries n := by
  induction tries generalizing n with
  | zero => exact le_rfl
  | succ tries ih =>
      rw [firstFree]
      split_ifs
      · exact (Nat.le_succ n).trans (ih (n + 1))
      · exact le_rfl

lemma isLeast_firstFree (hinj : Function.Injective candidate) (taken : List String) (n : ℕ) :
    IsLeast {k | n ≤ k ∧ candidate k ∉ taken} (firstFree taken candidate taken.length n) := by
  refine ⟨⟨le_firstFree _ _ _ _, candidate_firstFree_notMem hinj taken n⟩, fun k hk => ?_⟩
  by_contra hlt
  exact hk.2 (mem_of_lt_firstFree hk.1 (not_le.1 hlt))

end Search

/-! ## Single requests -/

/-- What the loop for a claimed name looks at: the name itself as number one, then its variants. -/
def spelling (name : String) (n : ℕ) : String := if n = 1 then name else suffixed name n

lemma claim_of_notMem {names : NameSupply} {name : String} (h : name ∉ names.taken) :
    (names.claim name).1 = name := by
  rw [claim, if_neg h]

lemma claim_of_mem {names : NameSupply} {name : String} (h : name ∈ names.taken) :
    ∃ n, IsLeast {k | 2 ≤ k ∧ suffixed name k ∉ names.taken} n ∧
      (names.claim name).1 = suffixed name n := by
  refine ⟨_, isLeast_firstFree (suffixed_injective name) names.taken 2, ?_⟩
  rw [claim, if_pos h]

/-- When the name itself is taken, the loop gets as far as its first variant that is free. -/
lemma endsAt_spelling {issued : List String} {name : String} {n : ℕ} (h : name ∈ issued)
    (hn : IsLeast {k | 2 ≤ k ∧ suffixed name k ∉ issued} n) :
    EndsAt issued (spelling name) 1 n := by
  rw [endsAt_iff_isLeast]
  have hsets : {k | 1 ≤ k ∧ spelling name k ∉ issued} = {k | 2 ≤ k ∧ suffixed name k ∉ issued} := by
    ext k
    show 1 ≤ k ∧ spelling name k ∉ issued ↔ 2 ≤ k ∧ suffixed name k ∉ issued
    rw [spelling]
    split_ifs with hk
    · simp [hk, h]
    · have hle : 1 ≤ k ↔ 2 ≤ k := by omega
      rw [hle]
  rw [hsets]
  exact hn

lemma exists_freshClause (names : NameSupply) :
    ∃ n, IsLeast {k | names.clauseCount < k ∧ names.clauseName k ∉ names.taken} n ∧
      names.freshClause.1 = names.clauseName n ∧ names.freshClause.2.clauseCount = n :=
  ⟨_, isLeast_firstFree names.clauseName_injective names.taken (names.clauseCount + 1), rfl, rfl⟩

lemma clauseCount_claim (names : NameSupply) (name : String) :
    (names.claim name).2.clauseCount = names.clauseCount := by
  rw [claim]
  split_ifs <;> rfl

/-! ## Histories of requests -/

/-- What a supply can be asked for. -/
inductive Request where
  /-- A generated name. -/
  | generate
  /-- This name, or a variant of it. -/
  | claim (name : String)
  deriving Repr, DecidableEq

/-- The answer to a request, and the supply after it. -/
def answer (names : NameSupply) : Request → String × NameSupply
  | .generate => names.freshClause
  | .claim name => names.claim name

/-- The answers to several requests. -/
def answerAll : NameSupply → List Request → List String × NameSupply
  | names, [] => ([], names)
  | names, request :: requests =>
    ((names.answer request).1 :: (answerAll (names.answer request).2 requests).1,
      (answerAll (names.answer request).2 requests).2)

lemma answer_notMem (names : NameSupply) (request : Request) :
    (names.answer request).1 ∉ names.taken := by
  cases request with
  | generate => exact names.freshClause_notMem
  | claim name => exact names.claim_notMem name

lemma taken_answer (names : NameSupply) (request : Request) :
    (names.answer request).2.taken = (names.answer request).1 :: names.taken := by
  cases request with
  | generate => exact names.taken_freshClause
  | claim name => exact names.taken_claim name

lemma clauseStem_answer (names : NameSupply) (request : Request) :
    (names.answer request).2.clauseStem = names.clauseStem := by
  cases request with
  | generate => rfl
  | claim name =>
      rw [answer, claim]
      split_ifs <;> rfl

/-- **All answers are different**, and they are what has been taken since. -/
theorem issues_answerAll (names : NameSupply) (requests : List Request) :
    Issues names (names.answerAll requests).1 (names.answerAll requests).2 := by
  induction requests generalizing names with
  | nil => exact .refl names
  | cons request requests ih =>
      exact .cons (names.answer_notMem request) (names.taken_answer request) (ih _)

lemma clauseStem_answerAll (names : NameSupply) (requests : List Request) :
    (names.answerAll requests).2.clauseStem = names.clauseStem := by
  induction requests generalizing names with
  | nil => rfl
  | cons request requests ih => exact (ih _).trans (names.clauseStem_answer request)

/-- **Every request is answered with the first name that is free.**  Ask a new supply, with any stems,
for generated names and for any strings, in any order.  The names it issues are all different.  A
further claim gets the name itself if that has not been issued, and otherwise the variant with the least
number from two on that has not been issued.  A further generated name consists of the stem and the
least number above the count whose name has not been issued, and that number becomes the count, which
claims leave as it is.  The loops that look for these numbers end. -/
theorem requests_answered (clauseStem variableStem : String) (requests : List Request) :
    ∃ issued names, answerAll { clauseStem, variableStem } requests = (issued, names) ∧
      issued.Nodup ∧
      (∀ name, name ∉ issued →
        EndsAt issued (spelling name) 1 1 ∧ (names.claim name).1 = name) ∧
      (∀ name ∈ issued, ∃ n, EndsAt issued (spelling name) 1 n ∧
        IsLeast {k | 2 ≤ k ∧ name ++ "_" ++ toString k ∉ issued} n ∧
        (names.claim name).1 = name ++ "_" ++ toString n) ∧
      (∀ name, (names.claim name).2.clauseCount = names.clauseCount) ∧
      ∃ n, EndsAt issued (fun k => clauseStem ++ toString k) (names.clauseCount + 1) n ∧
        IsLeast {k | names.clauseCount < k ∧ clauseStem ++ toString k ∉ issued} n ∧
        names.freshClause.1 = clauseStem ++ toString n ∧ names.freshClause.2.clauseCount = n := by
  have hissues := issues_answerAll { clauseStem, variableStem } requests
  have hstem := clauseStem_answerAll { clauseStem, variableStem } requests
  revert hissues hstem
  generalize answerAll { clauseStem, variableStem } requests = answers
  obtain ⟨issued, names⟩ := answers
  intro hissues hstem
  have hmem : ∀ name, name ∈ names.taken ↔ name ∈ issued := by
    intro name
    rw [hissues.mem_taken]
    simp
  refine ⟨issued, names, rfl, hissues.2.1, fun name hname => ⟨?_, ?_⟩, fun name hname => ?_,
    names.clauseCount_claim, ?_⟩
  · exact .free hname
  · exact claim_of_notMem (mt (hmem name).1 hname)
  · obtain ⟨n, hleast, hclaim⟩ := claim_of_mem ((hmem name).2 hname)
    simp only [hmem] at hleast
    exact ⟨n, endsAt_spelling hname hleast, hleast, hclaim⟩
  · obtain ⟨n, hleast, hfresh, hcount⟩ := names.exists_freshClause
    have hname : names.clauseName = fun k => clauseStem ++ toString k := by
      funext k
      rw [clauseName, hstem]
    simp only [hmem, hname] at hleast
    exact ⟨n, endsAt_iff_isLeast.2 hleast, hleast, hfresh.trans (congrFun hname n), hcount⟩

/-- A variant that was claimed before is passed over. -/
example : (({ taken := ["x", "x_2"] } : NameSupply).claim "x").1 = "x_3" := by
  decide +kernel

end GivenClause.NameSupply
