import Mathlib
import GivenClause.Substitution

/-!
# Composing a binding into a substitution

Bindings are kept in a list, and `compose` rewrites all of them, drops those that have become
`X<-X`, and may append one.  This file shows that the list bookkeeping amounts to one equation:
`value_compose`, the value of a variable after `compose x t` is its old value with `x` replaced
by `t`.

The equation needs every variable to be bound at most once (`Distinct`): dropping the first of two
bindings of a variable would uncover the second.  All operations keep that.
-/

namespace GivenClause

/-! ## Replacing one variable -/

namespace Term

@[simp] lemma replace_var (x y : String) (t : Term) :
    (Term.var y).replace x t = if y = x then t else .var y := rfl

/-- A replacement that yields `x` itself has replaced `x` by `x`. -/
lemma eq_var_of_replace_eq_var {x : String} {t u : Term} (h : u.replace x t = .var x) :
    t = .var x := by
  cases u with
  | var y =>
      rw [replace_var] at h
      split_ifs at h with hy
      · exact h
      · exact absurd (Term.var.inj h) hy
  | app f args => simp [replace] at h

lemma mem_vars_replace {x y : String} {t u : Term} (h : y ∈ (u.replace x t).vars) :
    y ∈ t.vars ∨ y ≠ x ∧ y ∈ u.vars := by
  rw [replace, vars_bind, List.mem_flatMap] at h
  obtain ⟨z, hz, hy⟩ := h
  split_ifs at hy with hzx
  · exact Or.inl hy
  · rw [vars_var, List.mem_singleton] at hy
    subst hy
    exact Or.inr ⟨hzx, hz⟩

/-- A term is only left alone by a map that leaves its variables alone. -/
lemma eq_var_of_bind_eq_self {σ : String → Term} {u : Term} (h : u.bind σ = u) {x : String}
    (hx : x ∈ u.vars) : σ x = .var x := by
  induction u with
  | var y =>
      rw [vars_var, List.mem_singleton] at hx
      rw [hx]
      exact h
  | app f args ih =>
      rw [vars_app, List.mem_flatMap] at hx
      obtain ⟨t, ht, hx⟩ := hx
      rw [bind_app, Term.app.injEq] at h
      have hargs : args.map (Term.bind σ) = args.map id := by rw [h.2, List.map_id]
      exact ih t ht (List.map_inj_left.1 hargs t ht) hx

/-- Whoever sends `x` to where `t` goes does not notice that `x` has been replaced by `t`. -/
lemma bind_replace_of_eq {σ : String → Term} {x : String} {t : Term} (h : σ x = t.bind σ)
    (u : Term) : (u.replace x t).bind σ = u.bind σ := by
  rw [replace, bind_bind]
  refine bind_congr fun y _ => ?_
  split_ifs with hy
  · rw [hy, h]
  · rfl

end Term

/-! ## Looking up in association lists -/

lemma lookup_map_snd {α β γ : Type} [BEq α] (f : β → γ) (x : α) (bindings : List (α × β)) :
    (bindings.map fun b => (b.1, f b.2)).lookup x = (bindings.lookup x).map f := by
  induction bindings with
  | nil => rfl
  | cons b rest ih =>
      rw [List.map_cons, List.lookup_cons, List.lookup_cons, ih]
      cases x == b.1 <;> rfl

lemma lookup_eq_none_of_notMem {β : Type} {x : String} {bindings : List (String × β)}
    (h : x ∉ bindings.map Prod.fst) : bindings.lookup x = none := by
  rw [List.lookup_eq_none_iff]
  intro b hb
  simp only [bne_iff_ne, ne_eq]
  exact fun e => h (e ▸ List.mem_map_of_mem hb)

/-- Filtering a list with distinct keys filters what is found. -/
lemma lookup_filter {β : Type} (p : String × β → Bool) (x : String) {bindings : List (String × β)}
    (h : (bindings.map Prod.fst).Nodup) :
    (bindings.filter p).lookup x = (bindings.lookup x).filter fun u => p (x, u) := by
  induction bindings with
  | nil => rfl
  | cons b rest ih =>
      obtain ⟨y, u⟩ := b
      rw [List.map_cons, List.nodup_cons] at h
      obtain ⟨hy, hrest⟩ := h
      by_cases hxy : x = y
      · subst hxy
        have hnone : (rest.filter p).lookup x = none := by
          refine lookup_eq_none_of_notMem fun hx => hy ?_
          obtain ⟨b, hb, hbx⟩ := List.mem_map.1 hx
          exact List.mem_map.2 ⟨b, List.mem_of_mem_filter hb, hbx⟩
        cases hp : p (x, u) <;> simp [hp, hnone, Option.filter_some]
      · have hne : (x == y) = false := by simpa using hxy
        cases hp : p (y, u) <;> simp [List.lookup_cons, hp, hne, ih hrest]

namespace Substitution

/-! ## Values -/

@[simp] lemma value_empty (x : String) : empty.value x = .var x := rfl

@[simp] lemma find?_empty (x : String) : empty.find? x = none := rfl

lemma value_of_find? {s : Substitution} {x : String} {t : Term} (h : s.find? x = some t) :
    s.value x = t := by
  rw [value, h, Option.getD_some]

lemma value_of_not_binds {s : Substitution} {x : String} (h : s.binds x = false) :
    s.value x = .var x := by
  rw [binds, Option.isSome_eq_false_iff, Option.isNone_iff_eq_none] at h
  rw [value, h, Option.getD_none]

lemma lookup_assign (x y : String) (t : Term) (bindings : List (String × Term)) :
    (assign x t bindings).lookup y = if y = x then some t else bindings.lookup y := by
  induction bindings with
  | nil =>
      rw [assign, List.lookup_cons]
      by_cases h : y = x
      · simp [h]
      · have : (y == x) = false := by simpa using h
        simp [this, h]
  | cons b rest ih =>
      obtain ⟨z, u⟩ := b
      rw [assign]
      split_ifs with hz hy hy
      · subst hz hy; simp
      · have : (y == z) = false := by rw [hz]; simpa using hy
        simp [List.lookup_cons, this]
      · have : (y == z) = false := by rw [hy]; simpa using fun e : x = z => hz e.symm
        rw [List.lookup_cons, this, ih, if_pos hy]
      · cases hyz : y == z
        · rw [List.lookup_cons, hyz, ih, if_neg hy, List.lookup_cons, hyz]
        · rw [List.lookup_cons, hyz, List.lookup_cons, hyz]

lemma find?_insert (s : Substitution) (x y : String) (t : Term) :
    (s.insert x t).find? y = if y = x then some t else s.find? y :=
  lookup_assign x y t s.bindings

lemma value_insert (s : Substitution) (x y : String) (t : Term) :
    (s.insert x t).value y = if y = x then t else s.value y := by
  rw [value, find?_insert]
  split_ifs <;> rfl

/-- On finitely many variables a substitution can do what any map does. -/
lemma exists_value_eq (θ : String → Term) (xs : List String) :
    ∃ s : Substitution, ∀ x ∈ xs, s.value x = θ x := by
  induction xs with
  | nil => exact ⟨empty, by simp⟩
  | cons y ys ih =>
      obtain ⟨s, hs⟩ := ih
      refine ⟨s.insert y (θ y), fun x hx => ?_⟩
      rw [value_insert]
      split_ifs with hxy
      · rw [hxy]
      · exact hs x ((List.mem_cons.1 hx).resolve_left hxy)

/-- `add` leaves out a binding of a variable to itself.  If the variable was unbound, its value is
still the term. -/
lemma value_add {s : Substitution} {x : String} (h : s.binds x = false) (y : String) (t : Term) :
    (s.add x t).value y = if y = x then t else s.value y := by
  rw [add]
  split_ifs with ht hy hy
  · rw [hy, value_of_not_binds h, ht]
  · rfl
  · rw [value_insert, if_pos hy]
  · rw [value_insert, if_neg hy]

/-! ## Every variable is bound at most once -/

/-- No variable has two bindings. -/
def Distinct (s : Substitution) : Prop := s.domain.Nodup

lemma distinct_empty : empty.Distinct := List.nodup_nil

lemma mem_keys_assign {x y : String} {t : Term} {bindings : List (String × Term)}
    (h : y ∈ (assign x t bindings).map Prod.fst) : y = x ∨ y ∈ bindings.map Prod.fst := by
  induction bindings with
  | nil => simpa [assign] using h
  | cons b rest ih =>
      obtain ⟨z, u⟩ := b
      rw [assign] at h
      split_ifs at h with hz
      · exact Or.inr h
      · rw [List.map_cons, List.mem_cons] at h ⊢
        rcases h with h | h
        · exact Or.inr (Or.inl h)
        · exact (ih h).imp_right Or.inr

lemma nodup_keys_assign (x : String) (t : Term) {bindings : List (String × Term)}
    (h : (bindings.map Prod.fst).Nodup) : ((assign x t bindings).map Prod.fst).Nodup := by
  induction bindings with
  | nil => simp [assign]
  | cons b rest ih =>
      obtain ⟨z, u⟩ := b
      rw [assign]
      split_ifs with hz
      · exact h
      · rw [List.map_cons, List.nodup_cons] at h ⊢
        refine ⟨fun hmem => ?_, ih h.2⟩
        rcases mem_keys_assign hmem with e | hmem
        · exact hz e
        · exact h.1 hmem

lemma Distinct.add {s : Substitution} (h : s.Distinct) (x : String) (t : Term) :
    (s.add x t).Distinct := by
  rw [Substitution.add]
  split_ifs
  · exact h
  · exact nodup_keys_assign x t h

/-! ## Composition -/

/-- The bindings that are left when `x<-t` has been pushed into all values. -/
def pushed (s : Substitution) (x : String) (t : Term) : List (String × Term) :=
  (s.bindings.map fun b => (b.1, b.2.replace x t)).filter fun b => decide (b.2 ≠ .var b.1)

/-- The bindings that `x<-t` turns into bindings of a variable to itself. -/
def idled (s : Substitution) (x : String) (t : Term) : List (String × Term) :=
  (s.bindings.map fun b => (b.1, b.2.replace x t)).filter fun b => decide (b.2 = .var b.1)

/-- `compose` in two moves: push the binding into the values, then add it if there is room. -/
lemma compose_eq (s : Substitution) (x : String) (t : Term) :
    ∃ s' : Substitution, s'.bindings = s.pushed x t ∧
      s'.trail = (s.idled x t).foldl (fun trail b => trail.erase b.1) s.trail ∧
      s.compose x t = if s'.binds x then s' else s'.add x t := by
  refine ⟨_, ?_, ?_, rfl⟩
  · show (List.partition _ _).2 = _
    rw [List.partition_eq_filter_filter, pushed]
    refine List.filter_congr fun b _ => ?_
    simp
  · show (List.partition _ _).1.foldl _ _ = _
    rw [List.partition_eq_filter_filter, idled]

lemma lookup_pushed {s : Substitution} (h : s.Distinct) (x y : String) (t : Term) :
    (s.pushed x t).lookup y
      = ((s.find? y).map fun u => u.replace x t).filter fun u => decide (u ≠ .var y) := by
  rw [pushed, lookup_filter, lookup_map_snd (fun u : Term => u.replace x t)]
  · rfl
  · rw [List.map_map]
    exact h

lemma nodup_keys_pushed {s : Substitution} (h : s.Distinct) (x : String) (t : Term) :
    ((s.pushed x t).map Prod.fst).Nodup := by
  have hsub : ((s.pushed x t).map Prod.fst).Sublist s.domain := by
    rw [pushed, domain]
    refine (List.filter_sublist.map Prod.fst).trans ?_
    rw [List.map_map]
    exact List.Sublist.refl _
  exact List.Sublist.nodup hsub h

lemma Distinct.compose {s : Substitution} (h : s.Distinct) (x : String) (t : Term) :
    (s.compose x t).Distinct := by
  obtain ⟨s', hs', -, hcompose⟩ := s.compose_eq x t
  have hd : s'.Distinct := by
    rw [Distinct, domain, hs']
    exact nodup_keys_pushed h x t
  rw [hcompose]
  split_ifs
  · exact hd
  · exact hd.add x t

/-- **Composition.**  After `compose x t` a variable stands for its old value with `x` replaced
by `t`.  The one delicate case is a binding of `x` that has become `x<-x` and was dropped: then
`t` was `x` itself, so nothing is added in its place. -/
theorem value_compose {s : Substitution} (h : s.Distinct) (x y : String) (t : Term) :
    (s.compose x t).value y = (s.value y).replace x t := by
  obtain ⟨s', hs', -, hcompose⟩ := s.compose_eq x t
  have hfind : ∀ z, s'.find? z
      = ((s.find? z).map fun u => u.replace x t).filter fun u => decide (u ≠ .var z) := by
    intro z
    rw [find?, hs', lookup_pushed h]
  -- away from `x` the first move has done everything
  have hpushed : ∀ z, (s.find? z).isSome ∨ z ≠ x → s'.value z = (s.value z).replace x t := by
    intro z hz
    rw [value, hfind, value]
    cases hu : s.find? z with
    | none =>
        have hne : z ≠ x := by simpa [hu] using hz
        simp [hne]
    | some u =>
        by_cases hidle : u.replace x t = .var z
        · simp [hidle, Option.filter_some]
        · simp [hidle, Option.filter_some]
  rw [hcompose]
  cases hx : s'.binds x with
  | true =>
      rw [if_pos rfl]
      refine hpushed y ?_
      by_cases hyx : y = x
      · left
        rw [binds, hfind, Option.isSome_iff_exists] at hx
        obtain ⟨u, hu⟩ := hx
        rw [Option.filter_eq_some_iff] at hu
        obtain ⟨v, hv, -⟩ := Option.map_eq_some_iff.1 hu.1
        rw [hyx, hv, Option.isSome_some]
      · exact Or.inr hyx
  | false =>
      rw [if_neg Bool.false_ne_true, value_add hx]
      split_ifs with hyx
      · subst hyx
        cases hu : s.find? y with
        | none => simp [value, hu]
        | some u =>
            rw [value_of_find? hu]
            rw [binds, hfind, hu] at hx
            have hidle : u.replace y t = .var y := by
              by_contra hne
              simp [hne] at hx
            rw [hidle, Term.eq_var_of_replace_eq_var hidle]
      · exact hpushed y (Or.inr hyx)

end Substitution

end GivenClause
