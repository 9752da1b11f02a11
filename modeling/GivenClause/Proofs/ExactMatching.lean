import Mathlib
import GivenClause.Proofs.SubsumptionOrder

/-!
# One-way matching, exactly

Matching answers whether a substitution can be extended so that it takes a pattern to a target.  That
the answer is right was shown with the set of maps that agree with the growing substitution
(`extend_iff`).  This file adds what the substitution looks like afterwards: on success the variables of
the pattern that were unbound are bound behind the others, in the order in which they first occur
(`domain_extend`); on failure nothing has changed.  Together this is `matching_exact_and_atomic`.

The variables that are still unbound depend on what was bound before, so along an argument list they
are those of the first argument and then those that its match has left over (`unbound_append`).
-/

namespace GivenClause.Substitution

variable {s s' : Substitution}

lemma binds_iff {x : String} : s.binds x = true ↔ x ∈ s.domain := by
  rw [binds, find?, domain, ← Bool.not_eq_false, Option.isSome_eq_false_iff, Option.isNone_iff_eq_none]
  constructor
  · intro h
    by_contra hx
    exact h (lookup_eq_none_of_notMem hx)
  · intro hx hnone
    obtain ⟨b, hb, rfl⟩ := List.mem_map.1 hx
    have hne := List.lookup_eq_none_iff.1 hnone b hb
    simp at hne

/-! ## The variables that a match binds -/

/-- The variables of a list that have no binding, each once, in the order in which they first occur. -/
def unbound (s : Substitution) (xs : List String) : List String :=
  (xs.filter fun x => !s.binds x).eraseDups

lemma mem_unbound {x : String} {xs : List String} :
    x ∈ s.unbound xs ↔ x ∈ xs ∧ x ∉ s.domain := by
  rw [unbound, List.mem_eraseDups, List.mem_filter, ← binds_iff]
  simp

/-- Once the unbound variables of `xs` have been bound, those that are left of `ys` are the ones that do
not occur in `xs`. -/
lemma unbound_append {xs : List String} (h : s'.domain = s.domain ++ s.unbound xs)
    (ys : List String) : s.unbound (xs ++ ys) = s.unbound xs ++ s'.unbound ys := by
  have hleft : (ys.filter fun x => !s.binds x).removeAll (xs.filter fun x => !s.binds x)
      = ys.filter fun x => !s'.binds x := by
    rw [List.removeAll, List.filter_filter]
    refine List.filter_congr fun x _ => ?_
    have hbound : s'.binds x = (s.binds x || decide (x ∈ xs)) := by
      rw [Bool.eq_iff_iff, Bool.or_eq_true, decide_eq_true_eq, binds_iff, binds_iff, h,
        List.mem_append, mem_unbound]
      tauto
    rw [hbound]
    cases hx : s.binds x <;> simp [hx]
  rw [unbound, List.filter_append, List.eraseDups_append, hleft]
  rfl

/-- Along two argument lists of one length, if it is so for the arguments. -/
lemma domain_extendList {args : List Term}
    (ih : ∀ t ∈ args, ∀ (u : Term) {s : Substitution}, (extend t u s).1 = true →
      (extend t u s).2.domain = s.domain ++ s.unbound t.vars)
    {targets : List Term} (hlength : args.length = targets.length)
    (h : (extendList args targets s).1 = true) :
    (extendList args targets s).2.domain = s.domain ++ s.unbound (args.flatMap Term.vars) := by
  induction args generalizing targets s with
  | nil =>
      cases targets with
      | nil => simp [extendList, unbound]
      | cons u us => simp at hlength
  | cons t ts ihts =>
      cases targets with
      | nil => simp at hlength
      | cons u us =>
          have hhead := @ih t List.mem_cons_self u s
          rw [extendList] at h ⊢
          cases hext : extend t u s with
          | mk success s' =>
              rw [hext] at hhead
              simp only [hext] at h ⊢
              cases success with
              | false => cases h
              | true =>
                  have hdomain := hhead rfl
                  have htail := ihts (fun t' ht' => ih t' (List.mem_cons_of_mem t ht'))
                    (by simpa using hlength) h
                  rw [List.flatMap_cons, unbound_append hdomain, ← List.append_assoc, ← hdomain]
                  exact htail

/-- **A match binds the unbound variables of its pattern**, in the order in which they first occur. -/
theorem domain_extend (pattern target : Term) (h : (extend pattern target s).1 = true) :
    (extend pattern target s).2.domain = s.domain ++ s.unbound pattern.vars := by
  induction pattern generalizing target s with
  | var x =>
      rw [extend]
      cases hx : s.find? x with
      | some t => simp [unbound, binds, hx]
      | none =>
          have hassign := assign_of_lookup_eq_none hx target
          simp [unbound, binds, hx, domain, insert, hassign, List.eraseDups_cons]
  | app f args ih =>
      cases target with
      | var y => simp [extend] at h
      | app g targets =>
          rw [extend] at h ⊢
          split_ifs at h ⊢ with hsame
          rw [Term.vars_app]
          exact domain_extendList (fun t ht u => ih t ht u) hsame.2 h

/-! ## The whole match -/

lemma matchTerm_fst (s : Substitution) (pattern target : Term) :
    (s.matchTerm pattern target).1 = (extend pattern target s).1 := by
  rw [matchTerm]
  cases extend pattern target s with
  | mk success s' => cases success <;> rfl

lemma matchTerm_snd {pattern target : Term} (h : (extend pattern target s).1 = true) :
    (s.matchTerm pattern target).2 = (extend pattern target s).2 := by
  rw [matchTerm]
  cases hext : extend pattern target s with
  | mk success s' =>
      rw [hext] at h
      cases success with
      | true => rfl
      | false => cases h

/-- To agree with a substitution is to agree with it on the variables that it binds. -/
lemma agrees_iff {σ : String → Term} :
    s.Agrees σ ↔ ∀ x, s.binds x = true → σ x = s.value x := by
  constructor
  · intro h x hx
    obtain ⟨t, ht⟩ := Option.isSome_iff_exists.1 hx
    rw [h x t ht, value_of_find? ht]
  · intro h x t ht
    rw [h x (by rw [binds, ht]; rfl), value_of_find? ht]

/-- **Matching is exact, and all or nothing.**  A match succeeds if and only if some substitution that
agrees with the given one on the variables bound there takes the pattern to the target.  Then the old
bindings stand as they were, behind them and on the trail come the variables of the pattern that were
unbound, in the order in which they first occur, and the pattern is taken to the target.  A match that
fails leaves bindings, trail and mark as they were. -/
theorem matching_exact_and_atomic {s : Substitution} (built : s.Built) (pattern target : Term) :
    ((s.matchTerm pattern target).1 = true ↔
      ∃ θ : Substitution, (∀ x, s.binds x = true → θ.value x = s.value x) ∧
        θ.apply pattern = target) ∧
    ((s.matchTerm pattern target).1 = true →
      ∃ new : List (String × Term),
        (s.matchTerm pattern target).2.bindings = s.bindings ++ new ∧
        (s.matchTerm pattern target).2.trail = (new.map Prod.fst).reverse ++ s.trail ∧
        new.map Prod.fst = (pattern.vars.filter fun x => !s.binds x).eraseDups ∧
        (s.matchTerm pattern target).2.apply pattern = target) ∧
    ((s.matchTerm pattern target).1 = false → (s.matchTerm pattern target).2 = s) := by
  have hexact := extend_iff pattern target s
  rw [matchTerm_fst]
  refine ⟨⟨fun h => ?_, ?_⟩, fun h => ?_, fun h => ?_⟩
  · obtain ⟨hagrees, htarget⟩ := (hexact _).1 ⟨h, agrees_value _⟩
    exact ⟨_, agrees_iff.1 hagrees, htarget⟩
  · rintro ⟨θ, hagrees, htarget⟩
    exact ((hexact θ.value).2 ⟨agrees_iff.2 hagrees, htarget⟩).1
  · obtain ⟨new, hbindings, htrail⟩ := (extend_extends pattern target built.distinct).further
    have hdomain := domain_extend pattern target h
    rw [domain, hbindings, List.map_append] at hdomain
    rw [matchTerm_snd h]
    exact ⟨new, hbindings, htrail, List.append_cancel_left hdomain,
      ((hexact _).1 ⟨h, agrees_value _⟩).2⟩
  · exact matchTerm_of_fails built.distinct ((matchTerm_fst s pattern target).trans h)

/-- `{Y<-a,X<-X}`. -/
def pinned : Substitution := (ofList [("Y", .app "a" [])]).insert "X" (.var "X")

/-- `f(Z,X,W,Z,Y)`. -/
def row : Term := .app "f" [.var "Z", .var "X", .var "W", .var "Z", .var "Y"]

/-- `f(W,X,w,W,y)`. -/
def rowOver (w y : Term) : Term := .app "f" [.var "W", .var "X", w, .var "W", y]

/-- Pattern and targets share variables.  `f(W,X,W,W,a)` is matched with `Z<-W` and `W<-W`.  In
`f(W,X,b,W,b)` the last argument fails, after two variables have been bound. -/
theorem pinned_matched :
    pinned.Built ∧
    (∃ new, (pinned.matchTerm row (rowOver (.var "W") (.app "a" []))).2.bindings
      = pinned.bindings ++ new ∧ new.map Prod.fst = ["Z", "W"]) ∧
    (pinned.matchTerm row (rowOver (.app "b" []) (.app "b" []))).2 = pinned ∧
    ¬ ∃ θ : Substitution, (∀ x, pinned.binds x = true → θ.value x = pinned.value x) ∧
      θ.apply row = rowOver (.app "b" []) (.app "b" []) := by
  have hbuilt : pinned.Built := .insert (.ofList _) _ _
  obtain ⟨-, hmatched, -⟩ :=
    matching_exact_and_atomic hbuilt row (rowOver (.var "W") (.app "a" []))
  obtain ⟨hexact, -, hfailed⟩ :=
    matching_exact_and_atomic hbuilt row (rowOver (.app "b" []) (.app "b" []))
  obtain ⟨new, hbindings, -, hnew, -⟩ := hmatched (by decide +kernel)
  refine ⟨hbuilt, ⟨new, hbindings, ?_⟩, hfailed (by decide +kernel), fun h => ?_⟩
  · rw [hnew]
    decide +kernel
  · exact absurd (hexact.2 h) (by decide +kernel)

end GivenClause.Substitution
