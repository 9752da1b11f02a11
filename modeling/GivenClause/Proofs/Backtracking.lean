import Mathlib
import GivenClause.Matching
import GivenClause.Proofs.Composition

/-!
# Taking back bindings

A search makes its bindings on one substitution and takes them back over the trail.  This restores
the substitution exactly, for two reasons.  Matching binds only variables that were unbound, so its
bindings stand behind the old ones and on top of the trail (`Extends`).  And no variable is bound
twice, so that undoing the new bindings does not touch the old ones (`backtrack_of_extends`).

In particular a match that fails returns the substitution it was given (`matchTerm_of_fails`).

That no variable is bound twice holds of every substitution that can arise (`Built.distinct`).
-/

namespace GivenClause.Substitution

/-! ## Further bindings -/

/-- The bindings of the first substitution, and behind them bindings of further variables, which are
noted on top of its trail. -/
structure Extends (s s' : Substitution) : Prop where
  distinct : s'.Distinct
  further : ∃ new : List (String × Term), s'.bindings = s.bindings ++ new ∧
    s'.trail = (new.map Prod.fst).reverse ++ s.trail

variable {s s' s'' : Substitution}

lemma Extends.refl (hs : s.Distinct) : s.Extends s := ⟨hs, [], by simp, by simp⟩

lemma Extends.trans (h : s.Extends s') (h' : s'.Extends s'') : s.Extends s'' := by
  obtain ⟨new, hbindings, htrail⟩ := h.further
  obtain ⟨new', hbindings', htrail'⟩ := h'.further
  refine ⟨h'.distinct, new ++ new', ?_, ?_⟩
  · rw [hbindings', hbindings, List.append_assoc]
  · rw [htrail', htrail, List.map_append, List.reverse_append, List.append_assoc]

lemma assign_of_lookup_eq_none {x : String} {bindings : List (String × Term)}
    (h : bindings.lookup x = none) (t : Term) : assign x t bindings = bindings ++ [(x, t)] := by
  induction bindings with
  | nil => rfl
  | cons b rest ih =>
      obtain ⟨y, u⟩ := b
      rw [List.lookup_cons] at h
      cases hxy : x == y with
      | true => simp [hxy] at h
      | false =>
          rw [hxy] at h
          have hyx : y ≠ x := fun e => by simp [e] at hxy
          rw [assign, if_neg hyx, ih h, List.cons_append]

lemma extends_insert (hs : s.Distinct) {x : String} (hx : s.find? x = none) (t : Term) :
    s.Extends (s.insert x t) := by
  refine ⟨nodup_keys_assign x t hs, [(x, t)], assign_of_lookup_eq_none hx t, ?_⟩
  simp [insert, binds, hx]

/-! ## Undoing -/

/-- A trail that is not longer than the mark is left alone. -/
lemma unwind_of_length_le {mark : ℕ} {trail : List String} (h : trail.length ≤ mark)
    (bindings : List (String × Term)) : unwind mark trail bindings = ⟨bindings, trail⟩ := by
  cases trail with
  | nil => rfl
  | cons x trail =>
      rw [List.length_cons] at h
      rw [unwind, if_pos (Nat.lt_of_succ_le h)]

/-- Dropping the binding of a variable that is bound once. -/
lemma erase_append_cons {y : String} {u : Term} {before behind : List (String × Term)}
    (h : y ∉ before.map Prod.fst ∧ y ∉ behind.map Prod.fst) :
    erase y (before ++ (y, u) :: behind) = before ++ behind := by
  have hkept : ∀ {bindings : List (String × Term)}, y ∉ bindings.map Prod.fst →
      erase y bindings = bindings := by
    intro bindings hy
    refine List.filter_eq_self.2 fun b hb => decide_eq_true ?_
    rintro rfl
    exact hy (List.mem_map_of_mem hb)
  rw [erase, List.filter_append, List.filter_cons_of_neg (by simp)]
  exact congrArg₂ (· ++ ·) (hkept h.1) (hkept h.2)

/-- Undoing the variables on top of a trail drops their bindings. -/
lemma unwind_append {bindings new : List (String × Term)} (trail : List String)
    (h : ((bindings ++ new).map Prod.fst).Nodup) :
    unwind trail.length ((new.map Prod.fst).reverse ++ trail) (bindings ++ new)
      = ⟨bindings, trail⟩ := by
  induction new using List.reverseRecOn with
  | nil => simpa using unwind_of_length_le le_rfl bindings
  | append_singleton new b ih =>
      rw [← List.append_assoc, List.map_append, List.nodup_append'] at h
      obtain ⟨hnodup, -, hapart⟩ := h
      have herase : erase b.1 (bindings ++ new ++ [b]) = bindings ++ new :=
        (erase_append_cons ⟨fun hmem => hapart hmem (by simp), by simp⟩).trans (List.append_nil _)
      have hlong : ¬ ((new.map Prod.fst).reverse ++ trail).length < trail.length := by simp
      rw [List.map_append, List.reverse_append, ← List.append_assoc]
      show unwind trail.length (b.1 :: ((new.map Prod.fst).reverse ++ trail)) _ = _
      rw [unwind, if_neg hlong, herase, ih hnodup]

/-- **Backtracking restores** the substitution that was there when the mark was taken. -/
theorem backtrack_of_extends (h : s.Extends s') : s'.backtrack s.mark = s := by
  obtain ⟨new, hbindings, htrail⟩ := h.further
  have hnodup : ((s.bindings ++ new).map Prod.fst).Nodup := hbindings ▸ h.distinct
  rw [backtrack, mark, hbindings, htrail, unwind_append s.trail hnodup]

/-! ## Matching -/

lemma extendList_extends {args : List Term}
    (ih : ∀ t ∈ args, ∀ (u : Term) {s : Substitution}, s.Distinct → s.Extends (extend t u s).2)
    (targets : List Term) (hs : s.Distinct) : s.Extends (extendList args targets s).2 := by
  induction args generalizing targets s with
  | nil => exact Extends.refl hs
  | cons t ts ihts =>
      cases targets with
      | nil => exact Extends.refl hs
      | cons u us =>
          have hhead := ih t List.mem_cons_self u hs
          rw [extendList]
          cases hext : extend t u s with
          | mk success s' =>
              rw [hext] at hhead
              cases success with
              | true =>
                  exact hhead.trans
                    (ihts (fun t' ht' => ih t' (List.mem_cons_of_mem t ht')) us hhead.distinct)
              | false => exact hhead

/-- **Matching only binds further variables**, whether it succeeds or not. -/
theorem extend_extends (pattern target : Term) (hs : s.Distinct) :
    s.Extends (extend pattern target s).2 := by
  induction pattern generalizing target s with
  | var x =>
      rw [extend]
      cases hx : s.find? x with
      | some t => exact Extends.refl hs
      | none => exact extends_insert hs hx target
  | app f args ih =>
      cases target with
      | var y => exact Extends.refl hs
      | app g targets =>
          rw [extend]
          split_ifs
          · exact extendList_extends (fun t ht u => ih t ht u) targets hs
          · exact Extends.refl hs

/-- **A match that fails changes nothing.** -/
theorem matchTerm_of_fails {pattern target : Term} (hs : s.Distinct)
    (h : (s.matchTerm pattern target).1 = false) : (s.matchTerm pattern target).2 = s := by
  have hextends := extend_extends pattern target hs
  rw [matchTerm] at h ⊢
  cases hext : extend pattern target s with
  | mk success s' =>
      rw [hext] at h hextends
      cases success with
      | true => cases h
      | false => exact backtrack_of_extends hextends

lemma matchTerm_extends (pattern target : Term) (hs : s.Distinct) :
    s.Extends (s.matchTerm pattern target).2 := by
  cases h : (s.matchTerm pattern target).1 with
  | false =>
      rw [matchTerm_of_fails hs h]
      exact Extends.refl hs
  | true =>
      have hextends := extend_extends pattern target hs
      rw [matchTerm] at h ⊢
      cases hext : extend pattern target s with
      | mk success s' =>
          rw [hext] at h hextends
          cases success with
          | true => exact hextends
          | false => cases h

/-! ## Substitutions that can arise -/

/-- The substitutions that result from a list of bindings by any sequence of operations: binding a
variable, with or without bindings to itself, composing, matching, and going back to a position of the
trail, be it one that the trail does not have. -/
inductive Built : Substitution → Prop
  | ofList (pairs : List (String × Term)) : Built (ofList pairs)
  | insert {s : Substitution} (h : Built s) (x : String) (t : Term) : Built (s.insert x t)
  | add {s : Substitution} (h : Built s) (x : String) (t : Term) : Built (s.add x t)
  | compose {s : Substitution} (h : Built s) (x : String) (t : Term) : Built (s.compose x t)
  | matchTerm {s : Substitution} (h : Built s) (pattern target : Term) :
      Built (s.matchTerm pattern target).2
  | backtrack {s : Substitution} (h : Built s) (position : ℤ) : Built (s.backtrackTo position).1

lemma unwind_sublist (mark : ℕ) (trail : List String) (bindings : List (String × Term)) :
    (unwind mark trail bindings).bindings.Sublist bindings := by
  induction trail generalizing bindings with
  | nil => exact List.Sublist.refl _
  | cons x trail ih =>
      rw [unwind]
      split_ifs
      · exact List.Sublist.refl _
      · exact (ih (erase x bindings)).trans List.filter_sublist

lemma Distinct.backtrack (h : s.Distinct) (mark : ℕ) : (s.backtrack mark).Distinct :=
  List.Sublist.nodup ((unwind_sublist mark s.trail s.bindings).map Prod.fst) h

lemma distinct_foldl_add (pairs : List (String × Term)) :
    (pairs.foldl (fun s b => s.add b.1 b.2) empty).Distinct := by
  induction pairs using List.reverseRecOn with
  | nil => exact distinct_empty
  | append_singleton pairs b ih =>
      rw [List.foldl_append]
      exact ih.add b.1 b.2

/-- **No operation binds a variable twice.** -/
theorem Built.distinct (h : s.Built) : s.Distinct := by
  induction h with
  | ofList pairs => exact distinct_foldl_add _
  | insert _ x t ih => exact nodup_keys_assign x t ih
  | add _ x t ih => exact ih.add x t
  | compose _ x t ih => exact ih.compose x t
  | matchTerm _ pattern target ih => exact (matchTerm_extends pattern target ih).distinct
  | backtrack _ position ih =>
      rw [backtrackTo]
      split_ifs
      · exact ih.backtrack 0
      · exact ih.backtrack position.toNat

end GivenClause.Substitution
