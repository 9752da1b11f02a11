import Mathlib
import GivenClause.Proofs.CycleTreatment

/-!
# When the loop without the occurs check ends

Without the occurs check a variable may be bound to a larger term that contains it.  Such a binding is
called **cyclic** here.  It does not eliminate its variable, so the equations that are left can become
larger and more numerous, and there are problems on which the loop never ends.

**The exact condition.**  A binding that is not cyclic removes its variable for good, and a cyclic one
brings in no variable (`length_distinct_eliminate`).  So all but as many bindings as there are
variables are cyclic (`exists_pursue_of_cyclicBindings`), and the loop ends exactly if its cyclic
bindings come to an end (`ends_iff`).

**One equation over and over.**  Suppose `x = t` is asked for several times.  After every binding the
equations that are left have the form `u = u[x := t]` (`against`).  If `x` occurs `n` times on their
left-hand sides and `k` times in `t`, one more binding takes `n` to `k * (n - 1)` (`reduce_against`,
`occurrences_replace`).  This comes down to zero if `n ≤ 1` or `k ≤ 1`, and never otherwise.
-/

namespace GivenClause

namespace Term

lemma replace_of_notMem {x : String} {u : Term} (h : x ∉ u.vars) (t : Term) :
    u.replace x t = u := by
  refine (bind_congr fun y hy => ?_).trans (bind_pure u)
  exact if_neg fun e : y = x => h (e ▸ hy)

lemma eq_var_of_replace_eq_self {x : String} {t u : Term} (h : u.replace x t = u)
    (hx : x ∈ u.vars) : t = .var x := by
  simpa using eq_var_of_bind_eq_self h hx

end Term

namespace Unification

/-! ## Cyclic bindings -/

/-- How many of the next `n` bindings are cyclic. -/
def cyclicBindings : ℕ → List Equation → ℕ
  | 0, _ => 0
  | n + 1, eqs =>
    match reduce eqs with
    | .bind x t rest =>
      (if x ∈ t.vars then 1 else 0) + cyclicBindings n (eliminate x t rest)
    | _ => 0

lemma cyclicBindings_of_bind {eqs rest : List Equation} {x : String} {t : Term}
    (h : reduce eqs = .bind x t rest) (n : ℕ) : cyclicBindings (n + 1) eqs =
      (if x ∈ t.vars then 1 else 0) + cyclicBindings n (eliminate x t rest) := by
  rw [cyclicBindings, h]

lemma cyclicBindings_of_no_bind {eqs : List Equation}
    (h : ∀ x t rest, reduce eqs ≠ .bind x t rest) (n : ℕ) : cyclicBindings n eqs = 0 := by
  cases n with
  | zero => rfl
  | succ n =>
      rw [cyclicBindings]
      split
      · rename_i x t rest hreduce
        exact absurd hreduce (h x t rest)
      · rfl

/-- **One round or none.**  Either the loop is over, whatever the budget, or it asks for a binding,
which has to be paid for. -/
lemma over_or_bind (s : Substitution) (eqs : List Equation) :
    (∃ answer, (∀ budget, pursue budget s eqs = .ok answer) ∧ ∀ n, cyclicBindings n eqs = 0) ∨
    ∃ x t rest, reduce eqs = .bind x t rest ∧ pursue 0 s eqs = .error {} := by
  cases hreduce : reduce eqs with
  | solved =>
      exact Or.inl ⟨_, fun budget => pursue_of_solved hreduce budget s,
        cyclicBindings_of_no_bind (by simp [hreduce])⟩
  | clash =>
      exact Or.inl ⟨_, fun budget => pursue_of_clash hreduce budget s,
        cyclicBindings_of_no_bind (by simp [hreduce])⟩
  | bind x t rest => exact Or.inr ⟨x, t, rest, rfl, by rw [pursue, hreduce]⟩

/-- More budget does not change an answer. -/
lemma pursue_mono {budget more : ℕ} (hle : budget ≤ more) {s : Substitution} {eqs : List Equation}
    {answer : Option Substitution} (h : pursue budget s eqs = .ok answer) :
    pursue more s eqs = .ok answer := by
  induction budget generalizing more s eqs with
  | zero =>
      obtain ⟨found, hover, -⟩ | ⟨x, t, rest, -, hstuck⟩ := over_or_bind s eqs
      · rw [← h, hover, hover]
      · rw [hstuck] at h
        cases h
  | succ budget ih =>
      obtain ⟨found, hover, -⟩ | ⟨x, t, rest, hreduce, -⟩ := over_or_bind s eqs
      · rw [← h, hover, hover]
      · obtain ⟨more, rfl⟩ := Nat.exists_eq_add_of_le' (Nat.one_le_of_lt hle)
        rw [pursue_of_bind hreduce] at h ⊢
        exact ih (by omega) h

lemma mem_vars_eliminate {x y : String} {t : Term} {eqs : List Equation}
    (h : y ∈ vars (eliminate x t eqs)) : y ∈ t.vars ∨ y ∈ vars eqs := by
  simp only [vars, eliminate, List.flatMap_map, List.mem_flatMap, List.mem_append] at h ⊢
  obtain ⟨e, he, hy | hy⟩ := h
  · exact (Term.mem_vars_replace hy).imp_right fun hy => ⟨e, he, Or.inl hy.2⟩
  · exact (Term.mem_vars_replace hy).imp_right fun hy => ⟨e, he, Or.inr hy.2⟩

/-- **What a binding does to the variables.**  One that is not cyclic leaves fewer of them, a cyclic
one no more. -/
lemma length_distinct_eliminate {eqs rest : List Equation} {x : String} {t : Term}
    (h : reduce eqs = .bind x t rest) :
    (vars (eliminate x t rest)).eraseDups.length + (if x ∈ t.vars then 0 else 1)
      ≤ (vars eqs).eraseDups.length := by
  obtain ⟨hx, ht, hrest⟩ := vars_of_reduce h
  split_ifs with hoccurs
  · refine (nodup_eraseDups _).length_le_of_subset fun y hy => List.mem_eraseDups.2 ?_
    exact (mem_vars_eliminate (List.mem_eraseDups.1 hy)).elim (fun h => ht h) fun h => hrest h
  · exact length_eraseDups_lt hx fun y hy =>
      (vars_eliminate hoccurs hy).imp_right (Or.elim · (fun h => ht h) fun h => hrest h)

/-- **Cyclic bindings and variables pay for everything**: a budget for both is enough. -/
theorem exists_pursue_of_cyclicBindings {budget : ℕ} {eqs : List Equation}
    (h : cyclicBindings (budget + 1) eqs + (vars eqs).eraseDups.length ≤ budget)
    (s : Substitution) : ∃ answer, pursue budget s eqs = .ok answer := by
  induction budget generalizing eqs s with
  | zero =>
      obtain ⟨answer, hover, -⟩ | ⟨x, t, rest, hreduce, -⟩ := over_or_bind s eqs
      · exact ⟨answer, hover 0⟩
      · have := List.length_pos_of_mem (List.mem_eraseDups.2 (vars_of_reduce hreduce).1)
        omega
  | succ budget ih =>
      obtain ⟨answer, hover, -⟩ | ⟨x, t, rest, hreduce, -⟩ := over_or_bind s eqs
      · exact ⟨answer, hover _⟩
      · have hround := length_distinct_eliminate hreduce
        rw [cyclicBindings_of_bind hreduce] at h
        rw [pursue_of_bind hreduce]
        refine ih ?_ _
        split_ifs at h hround <;> omega

/-- A loop that has ended made no more cyclic bindings than its budget allowed. -/
theorem cyclicBindings_le_of_pursue {budget : ℕ} {s : Substitution} {eqs : List Equation}
    {answer : Option Substitution} (h : pursue budget s eqs = .ok answer) (n : ℕ) :
    cyclicBindings n eqs ≤ budget := by
  induction n generalizing budget s eqs with
  | zero => exact Nat.zero_le _
  | succ n ih =>
      obtain ⟨-, -, hnone⟩ | ⟨x, t, rest, hreduce, hstuck⟩ := over_or_bind s eqs
      · rw [hnone]
        exact Nat.zero_le _
      · cases budget with
        | zero =>
            rw [hstuck] at h
            cases h
        | succ budget =>
            rw [pursue_of_bind hreduce] at h
            have := ih h
            rw [cyclicBindings_of_bind hreduce]
            split_ifs <;> omega

/-! ## Ending -/

/-- Following cycles from the start, or only after the first one, takes the same course; what the
bindings before the first cycle cost is not charged. -/
lemma exists_follow_eq_pursue (eqs : List Equation) :
    ∃ rounds, ∀ budget,
      unifyEquations (.follow budget) eqs = pursue (rounds + budget) .empty eqs := by
  obtain ⟨rounds, -, hpursue⟩ := exists_pursue_eq .empty eqs
  exact ⟨rounds, fun budget => by rw [unifyEquations_follow, hpursue]⟩

/-- No budget is enough. -/
def Endless (eqs : List Equation) : Prop := ∀ budget s, pursue budget s eqs = .error {}

lemma Endless.of_bind {eqs rest : List Equation} {x : String} {t : Term}
    (h : reduce eqs = .bind x t rest) (hrest : Endless (eliminate x t rest)) : Endless eqs := by
  intro budget s
  cases budget with
  | zero => rw [pursue, h]
  | succ budget => rw [pursue_of_bind h, hrest]

lemma Endless.unifyEquations {eqs : List Equation} (h : Endless eqs) (budget : ℕ) :
    unifyEquations (.follow budget) eqs = .error {} := by
  obtain ⟨rounds, hrounds⟩ := exists_follow_eq_pursue eqs
  rw [hrounds, h]

/-- Without the occurs check the loop comes to an end: from some budget on it has an answer, which
does not change any more. -/
def Ends (ss ts : List Term) : Prop :=
  ∃ answer enough, ∀ budget, enough ≤ budget → unifyLists (.follow budget) ss ts = .ok answer

lemma ends_iff_pursue {ss ts : List Term} (h : ss.length = ts.length) :
    Ends ss ts ↔ ∃ budget answer, pursue budget .empty (argumentEquations ss ts) = .ok answer := by
  obtain ⟨rounds, hrounds⟩ := exists_follow_eq_pursue (argumentEquations ss ts)
  have hlists : ∀ budget, unifyLists (.follow budget) ss ts
      = pursue (rounds + budget) .empty (argumentEquations ss ts) := by
    intro budget
    rw [unifyLists, if_pos h, hrounds]
  constructor
  · rintro ⟨answer, enough, hanswer⟩
    exact ⟨rounds + enough, answer, by rw [← hlists, hanswer enough le_rfl]⟩
  · rintro ⟨budget, answer, hanswer⟩
    refine ⟨answer, budget, fun more hle => ?_⟩
    rw [hlists]
    exact pursue_mono (by omega) hanswer

/-- **The loop ends exactly if its cyclic bindings do.** -/
theorem ends_iff {ss ts : List Term} (h : ss.length = ts.length) :
    Ends ss ts ↔ ∃ k, ∀ n, cyclicBindings n (argumentEquations ss ts) ≤ k := by
  rw [ends_iff_pursue h]
  constructor
  · rintro ⟨budget, answer, hanswer⟩
    exact ⟨budget, cyclicBindings_le_of_pursue hanswer⟩
  · rintro ⟨k, hk⟩
    exact ⟨_, exists_pursue_of_cyclicBindings (Nat.add_le_add_right (hk _) _) .empty⟩

/-- A unifiable problem has no cycle to follow. -/
lemma ends_of_unifier {ss ts : List Term} (h : ss.length = ts.length) {θ : String → Term}
    (hθ : ss.map (Term.bind θ) = ts.map (Term.bind θ)) : Ends ss ts := by
  obtain ⟨σ, hσ⟩ := unifyLists_of_unifier h hθ
  exact ⟨some σ, 0, fun budget _ => hσ (.follow budget)⟩

/-! ## One equation over and over -/

lemma reduce_var {x : String} {t : Term} (h : t ≠ .var x) (rest : List Equation) :
    reduce ((.var x, t) :: rest) = .bind x t rest := by
  rw [reduce, if_neg h.symm]

lemma reduce_app {ss ts : List Term} (h : ss ≠ ts) (hlength : ss.length = ts.length) (f : String)
    (rest : List Equation) :
    reduce ((.app f ss, .app f ts) :: rest) = reduce (argumentEquations ss ts ++ rest) := by
  rw [reduce, if_neg (by simpa using h), if_pos ⟨rfl, hlength⟩]

/-- Each term set equal to itself with `x` replaced by `t`.  For `x` itself this is the equation
`x = t`. -/
def against (x : String) (t : Term) (us : List Term) : List Equation :=
  us.map fun u => (u, u.replace x t)

/-- The number of occurrences of a variable in a list of terms. -/
def occurrences (x : String) (us : List Term) : ℕ := (us.flatMap Term.vars).count x

lemma eliminate_against (x : String) (t : Term) (us : List Term) :
    eliminate x t (against x t us) = against x t (us.map fun u => u.replace x t) := by
  simp [eliminate, against]

/-- Taking such an equation apart gives such equations again. -/
lemma argumentEquations_replace (x : String) (t : Term) (args us : List Term) :
    argumentEquations args (args.map fun u => u.replace x t) ++ against x t us
      = against x t (args.reverse ++ us) := by
  rw [argumentEquations, ← List.map_prod_left_eq_zip, against, against, List.map_append,
    List.map_reverse]

lemma occurrences_cons (x : String) (u : Term) (us : List Term) :
    occurrences x (u :: us) = u.vars.count x + occurrences x us := by
  simp [occurrences]

lemma occurrences_app (x f : String) (args us : List Term) :
    occurrences x (.app f args :: us) = occurrences x (args.reverse ++ us) := by
  simp only [occurrences, List.flatMap_cons, List.flatMap_append, Term.vars_app]
  exact (((List.reverse_perm args).symm.flatMap_right _).append_right _).count_eq x

/-- Replacing `x` by `t` multiplies the occurrences of `x`. -/
lemma occurrences_replace (x : String) (t : Term) (us : List Term) :
    occurrences x (us.map fun u => u.replace x t) = t.vars.count x * occurrences x us := by
  have hcount : ∀ ys : List String,
      (ys.flatMap fun y => (if y = x then t else Term.var y).vars).count x
        = t.vars.count x * ys.count x := by
    intro ys
    induction ys with
    | nil => simp
    | cons y ys ih =>
        rw [List.flatMap_cons, List.count_append, ih, List.count_cons]
        by_cases hy : y = x
        · simp [hy, Nat.mul_add, Nat.add_comm]
        · simp [hy]
  rw [occurrences, occurrences, ← hcount, List.flatMap_map, List.flatMap_assoc]
  refine congrArg (List.count x) (List.flatMap_congr fun u _ => ?_)
  rw [Term.replace, Term.vars_bind]

/-- **One round.**  Such equations are solved if `x` is nowhere left.  Otherwise they ask for `x = t`,
and what stays has one occurrence of `x` fewer. -/
theorem reduce_against {x : String} {t : Term} (hne : t ≠ .var x) (us : List Term) :
    occurrences x us = 0 ∧ reduce (against x t us) = .solved ∨
      ∃ us', reduce (against x t us) = .bind x t (against x t us') ∧
        occurrences x us = occurrences x us' + 1 := by
  -- a term is put aside or replaced by its arguments, so the symbols become fewer
  induction hn : leftSize (against x t us) using Nat.strong_induction_on generalizing us with
  | _ n ih =>
  cases us with
  | nil => exact Or.inl ⟨rfl, by rw [against, List.map_nil, reduce]⟩
  | cons u us =>
      have hcons : against x t (u :: us) = (u, u.replace x t) :: against x t us := rfl
      have hn : u.size + leftSize (against x t us) = n := hn
      rw [hcons]
      by_cases hx : x ∈ u.vars
      · cases u with
        | var y =>
            obtain rfl : x = y := by simpa using hx
            refine Or.inr ⟨us, ?_, ?_⟩
            · rw [Term.replace_var, if_pos rfl, reduce_var hne]
            · simp [occurrences_cons, Nat.add_comm]
        | app f args =>
            have happ : (Term.app f args).replace x t = .app f (args.map fun u => u.replace x t) :=
              Term.bind_app _ f args
            have hdiffer : args ≠ args.map fun u => u.replace x t := by
              intro e
              rw [← e] at happ
              exact hne (Term.eq_var_of_replace_eq_self happ hx)
            have hle := leftSize_argumentEquations args (args.map fun u => u.replace x t)
            rw [happ, reduce_app hdiffer (List.length_map _).symm, argumentEquations_replace,
              occurrences_app]
            refine ih _ ?_ _ rfl
            rw [← argumentEquations_replace, leftSize_append, ← hn, Term.size]
            omega
      · have hsize := u.size_pos
        rw [Term.replace_of_notMem hx, reduce_cons_self, occurrences_cons,
          List.count_eq_zero_of_not_mem hx, Nat.zero_add]
        exact ih _ (by omega) us rfl

/-- **Two occurrences in the value and two places to put it: the loop never ends.** -/
theorem endless_against {x : String} {t : Term} (ht : 2 ≤ t.vars.count x) {us : List Term}
    (hus : 2 ≤ occurrences x us) : Endless (against x t us) := by
  have hne : t ≠ .var x := by
    rintro rfl
    simp at ht
  intro budget s
  induction budget generalizing us s with
  | zero =>
      obtain ⟨hzero, -⟩ | ⟨us', hreduce, -⟩ := reduce_against hne us
      · omega
      · rw [pursue, hreduce]
  | succ budget ih =>
      obtain ⟨hzero, -⟩ | ⟨us', hreduce, hcount⟩ := reduce_against hne us
      · omega
      · rw [pursue_of_bind hreduce, eliminate_against]
        refine ih ?_ _
        calc 2 ≤ 2 * occurrences x us' := by omega
          _ ≤ t.vars.count x * occurrences x us' := Nat.mul_le_mul_right _ ht
          _ = occurrences x (us'.map fun u => u.replace x t) := (occurrences_replace x t us').symm

/-- Otherwise every binding leaves fewer occurrences, and the loop ends. -/
theorem exists_pursue_against {x : String} {t : Term} (hne : t ≠ .var x) {us : List Term}
    (h : occurrences x us ≤ 1 ∨ t.vars.count x ≤ 1) {budget : ℕ} (hle : occurrences x us ≤ budget)
    (s : Substitution) : ∃ answer, pursue budget s (against x t us) = .ok answer := by
  induction budget generalizing us s with
  | zero =>
      obtain ⟨-, hreduce⟩ | ⟨us', -, hcount⟩ := reduce_against hne us
      · exact ⟨_, pursue_of_solved hreduce _ s⟩
      · omega
  | succ budget ih =>
      obtain ⟨-, hreduce⟩ | ⟨us', hreduce, hcount⟩ := reduce_against hne us
      · exact ⟨_, pursue_of_solved hreduce _ s⟩
      · have hfewer : occurrences x (us'.map fun u => u.replace x t) ≤ occurrences x us' := by
          rw [occurrences_replace]
          rcases h with h | h
          · have hzero : occurrences x us' = 0 := by omega
            simp [hzero]
          · exact (Nat.mul_le_mul_right _ h).trans (Nat.one_mul _).le
        rw [pursue_of_bind hreduce, eliminate_against]
        exact ih (h.imp_left fun h => by omega) (by omega) _

lemma reduce_against_self (x : String) (us : List Term) :
    reduce (against x (.var x) us) = .solved := by
  induction us with
  | nil => rw [against, List.map_nil, reduce]
  | cons u us ih =>
      have hself : u.replace x (.var x) = u := by
        refine (Term.bind_congr fun y _ => ?_).trans (Term.bind_pure u)
        split_ifs with hy
        · rw [hy]
        · rfl
      show reduce ((u, u.replace x (.var x)) :: against x (.var x) us) = .solved
      rw [hself, reduce_cons_self, ih]

lemma argumentEquations_replicate (n : ℕ) (x : String) (t : Term) :
    argumentEquations (List.replicate n (.var x)) (List.replicate n t)
      = against x t (List.replicate n (.var x)) := by
  simp [argumentEquations, against]

/-- **A repeated equation.**  The loop ends on `n` copies of `x = t` exactly if `n` is at most one or
`x` occurs in `t` at most once. -/
theorem ends_replicate_iff (n : ℕ) (x : String) (t : Term) :
    Ends (List.replicate n (.var x)) (List.replicate n t) ↔ n ≤ 1 ∨ t.vars.count x ≤ 1 := by
  have hcount : occurrences x (List.replicate n (.var x)) = n := by
    simp [occurrences, List.flatMap_replicate]
  rw [ends_iff_pursue (by simp), argumentEquations_replicate]
  by_cases ht : t = .var x
  · subst ht
    exact iff_of_true ⟨0, _, pursue_of_solved (reduce_against_self x _) 0 .empty⟩ (by simp)
  · constructor
    · rintro ⟨budget, answer, hanswer⟩
      by_contra hmany
      rw [not_or, not_le, not_le] at hmany
      rw [endless_against hmany.2 (by omega)] at hanswer
      cases hanswer
    · intro h
      exact ⟨n, exists_pursue_against ht (by rwa [hcount]) hcount.le .empty⟩

end Unification

open Unification

/-- **When unification without the occurs check ends.**  On two lists of one length it ends exactly if
only finitely many of its bindings are cyclic, which is the case if the lists have a unifier.  On `n`
copies of an equation `x = t` it ends exactly if `n` is at most one or `x` occurs in `t` at most
once. -/
theorem unchecked_unification_ends_iff (ss ts : List Term) (hlength : ss.length = ts.length) :
    (Ends ss ts ↔ ∃ k, ∀ n, cyclicBindings n (argumentEquations ss ts) ≤ k) ∧
    (∀ θ : String → Term, ss.map (Term.bind θ) = ts.map (Term.bind θ) → Ends ss ts) ∧
    ∀ (n : ℕ) (x : String) (t : Term), ss = List.replicate n (.var x) → ts = List.replicate n t →
      (Ends ss ts ↔ n ≤ 1 ∨ t.vars.count x ≤ 1) := by
  refine ⟨ends_iff hlength, fun θ hθ => ends_of_unifier hlength hθ, ?_⟩
  rintro n x t rfl rfl
  exact ends_replicate_iff n x t

/-- For two copies of `X = s(X)` there is no unifier.  Both bindings are cyclic, and then the loop is
over. -/
theorem climbing_ends :
    Ends (List.replicate 2 (.var "X")) (List.replicate 2 (.app "s" [.var "X"])) ∧
    cyclicBindings 5 (argumentEquations (List.replicate 2 (.var "X"))
      (List.replicate 2 (.app "s" [.var "X"]))) = 2 ∧
    (∃ k, ∀ n, cyclicBindings n (argumentEquations (List.replicate 2 (.var "X"))
      (List.replicate 2 (.app "s" [.var "X"]))) ≤ k) ∧
    Ends [.var "X", .var "X"] [.var "Y", .app "s" [.var "Z"]] := by
  obtain ⟨hcyclic, -, hcopies⟩ := unchecked_unification_ends_iff
    (List.replicate 2 (.var "X")) (List.replicate 2 (.app "s" [.var "X"])) (by simp)
  have hends := (hcopies 2 "X" (.app "s" [.var "X"]) rfl rfl).2 (Or.inr (by decide))
  refine ⟨hends, by decide +kernel, hcyclic.1 hends, ?_⟩
  exact (unchecked_unification_ends_iff [.var "X", .var "X"] [.var "Y", .app "s" [.var "Z"]] rfl).2.1
    (fun x => if x = "Z" then .var "Z" else .app "s" [.var "Z"]) (by decide)

/-- **Unification without the occurs check need not end**: no budget is enough for two copies of
`X = f(X,X)`.  Two clauses without a common variable can come to that, here `~p(Y,Y,f(Y,Y))` and
`p(X,X,X)`. -/
theorem doubling_never_ends :
    (∀ budget, unifyLists (.follow budget) [.var "X", .var "X"]
      [.app "f" [.var "X", .var "X"], .app "f" [.var "X", .var "X"]] = .error {}) ∧
    ∀ budget, resolve (.follow budget)
      { literals := [⟨false, "p", [.var "Y", .var "Y", .app "f" [.var "Y", .var "Y"]]⟩] } 0
      { literals := [⟨true, "p", [.var "X", .var "X", .var "X"]⟩] } 0 = .error {} := by
  have hdoubling : ∀ x, Endless (against x (.app "f" [.var x, .var x]) [.var x, .var x]) :=
    fun x => endless_against (by simp) (by simp [occurrences])
  constructor
  · exact (hdoubling "X").unifyEquations
  · have hreduce : reduce [(.app "p" [.var "Y", .var "Y", .app "f" [.var "Y", .var "Y"]],
        .app "p" [.var "X", .var "X", .var "X"])] = .bind "X" (.app "f" [.var "Y", .var "Y"])
          [(.var "Y", .var "X"), (.var "Y", .var "X")] := by decide +kernel
    intro budget
    exact congrArg (fun unified => unified >>= _)
      ((Endless.of_bind hreduce (hdoubling "Y")).unifyEquations budget)

end GivenClause
