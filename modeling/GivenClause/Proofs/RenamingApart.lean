import Mathlib
import GivenClause.Proofs.Instances

/-!
# Renaming apart

`Clause.freshCopy` goes through the variables of a clause and numbers them.  Two things make it less
than obvious that the result is a renaming: a variable whose fresh name happens to be its own is not
recorded, so it may be numbered again at its next occurrence; and the clause may already use names
of the supply.

The invariant of the loop (`Numbered`) therefore does not speak about the recorded bindings but
about the numbers: every variable that has been met stands for the name of a number that was issued
in this very call, and different variables have different numbers.  `freshCopy_eq` is what it comes
to at the end of the loop: the copy is a variant of the clause with all its variables among the
names issued.
-/

namespace GivenClause

namespace NameSupply

lemma variableName_injective (names : NameSupply) : Function.Injective names.variableName := by
  intro m n h
  exact Nat.repr_injective ((String.append_right_inj _).1 h)

end NameSupply

namespace Clause

open Substitution

/-- The variables of `met` stand for the names of different numbers behind the count of `names`, and
no other variable is bound. -/
structure Numbered (names : NameSupply) (met : Set String) (state : NameSupply × Substitution) :
    Prop where
  supply : state.1 = { names with variableCount := state.1.variableCount }
  count_le : names.variableCount ≤ state.1.variableCount
  bound : ∀ x, state.2.binds x = true → x ∈ met
  numbers : ∃ κ : String → ℕ, Set.InjOn κ met ∧ ∀ x ∈ met,
    names.variableCount < κ x ∧ κ x ≤ state.1.variableCount ∧
      state.2.value x = .var (names.variableName (κ x))

lemma numbered_start (names : NameSupply) : Numbered names ∅ (names, .empty) where
  supply := rfl
  count_le := le_refl _
  bound := by simp [binds]
  numbers := ⟨fun _ => 0, by simp, by simp⟩

/-- One variable more.  If it is not bound it gets the next number, which is new; whether the
binding is recorded makes no difference to what the variable stands for. -/
lemma Numbered.freshen {names : NameSupply} {met : Set String} {state : NameSupply × Substitution}
    (h : Numbered names met state) (x : String) :
    Numbered names (insert x met) (freshen state x) := by
  obtain ⟨supply, s⟩ := state
  obtain ⟨hsupply, hle, hbound, κ, hinj, hκ⟩ := h
  rw [Clause.freshen]
  cases hx : s.binds x with
  | true =>
      rw [if_pos rfl, Set.insert_eq_of_mem (hbound x hx)]
      exact ⟨hsupply, hle, hbound, κ, hinj, hκ⟩
  | false =>
      rw [if_neg Bool.false_ne_true]
      simp only [NameSupply.freshVariable]
      set n := supply.variableCount + 1 with hn
      have hname : supply.variableName n = names.variableName n := by
        rw [show supply = { names with variableCount := supply.variableCount } from hsupply]
        rfl
      have hvalue : ∀ y, (s.add x (.var (supply.variableName n))).value y
          = if y = x then .var (names.variableName n) else s.value y := by
        intro y
        rw [value_add hx, hname]
      have hlt : ∀ y ∈ met, κ y < n := fun y hy => by have := (hκ y hy).2.1; simp only at this; omega
      refine ⟨?_, ?_, fun y hy => ?_, Function.update κ x n, ?_, fun y hy => ?_⟩
      · rw [show supply = { names with variableCount := supply.variableCount } from hsupply]
      · simp only at hle ⊢
        omega
      · by_cases hyx : y = x
        · exact Or.inl hyx
        · refine Or.inr (hbound y ?_)
          have : (s.add x (.var (supply.variableName n))).find? y = s.find? y := by
            rw [Substitution.add]
            split_ifs
            · rfl
            · rw [find?_insert, if_neg hyx]
          rwa [binds, this] at hy
      · -- the new number is larger than all before
        intro y hy z hz hyz
        by_cases hyx : y = x <;> by_cases hzx : z = x
        · rw [hyx, hzx]
        · rw [hyx, Function.update_self, Function.update_of_ne hzx] at hyz
          exact absurd hyz.symm (hlt z (hz.resolve_left hzx)).ne
        · rw [hzx, Function.update_self, Function.update_of_ne hyx] at hyz
          exact absurd hyz (hlt y (hy.resolve_left hyx)).ne
        · rw [Function.update_of_ne hyx, Function.update_of_ne hzx] at hyz
          exact hinj (hy.resolve_left hyx) (hz.resolve_left hzx) hyz
      · rw [hvalue]
        by_cases hyx : y = x
        · rw [hyx, Function.update_self, if_pos rfl]
          simp only at hle
          exact ⟨by omega, le_refl _, rfl⟩
        · obtain ⟨hlow, hhigh, hval⟩ := hκ y (hy.resolve_left hyx)
          rw [Function.update_of_ne hyx, if_neg hyx]
          exact ⟨hlow, (hlt y (hy.resolve_left hyx)).le, hval⟩

lemma Numbered.foldl {names : NameSupply} {met : Set String} {state : NameSupply × Substitution}
    (h : Numbered names met state) (xs : List String) :
    Numbered names (met ∪ {x | x ∈ xs}) (xs.foldl Clause.freshen state) := by
  induction xs generalizing met state with
  | nil => simpa using h
  | cons x xs ih =>
      have hset : met ∪ {y | y ∈ x :: xs} = insert x met ∪ {y | y ∈ xs} := by
        ext y
        simp only [List.mem_cons, Set.mem_union, Set.mem_ofPred_eq, Set.mem_insert_iff]
        tauto
      rw [hset, List.foldl_cons]
      exact ih (h.freshen x)

lemma mem_flatMap_sortedVars {c : Clause} {x : String} :
    x ∈ c.literals.flatMap Literal.sortedVars ↔ x ∈ varsOf c.literals := by
  simp only [varsOf, List.mem_flatMap, Literal.sortedVars, Text.mem_sortedNames]

/-- **A fresh copy is a renaming into names issued for it.**  Only the literals change, and of the
supply only the count of variables. -/
theorem freshCopy_eq {names names' : NameSupply} {c given : Clause}
    (h : c.freshCopy names = (given, names')) :
    names' = { names with variableCount := names'.variableCount } ∧
      names.variableCount ≤ names'.variableCount ∧
      ∃ κ : String → ℕ, Set.InjOn κ {x | x ∈ varsOf c.literals} ∧
        (∀ x ∈ varsOf c.literals,
          names.variableCount < κ x ∧ κ x ≤ names'.variableCount) ∧
        given = { c with
          literals := bindAll (fun x => .var (names.variableName (κ x))) c.literals } := by
  have hloop := (numbered_start names).foldl (c.literals.flatMap Literal.sortedVars)
  rw [Set.empty_union] at hloop
  rw [freshCopy, freshRenaming] at h
  generalize (c.literals.flatMap Literal.sortedVars).foldl Clause.freshen (names, .empty) = state
    at hloop h
  obtain ⟨supply, s⟩ := state
  obtain ⟨rfl, rfl⟩ := Prod.mk.inj h
  obtain ⟨hsupply, hle, -, κ, hinj, hκ⟩ := hloop
  simp only [mem_flatMap_sortedVars] at hinj hκ
  refine ⟨hsupply, hle, κ, hinj, fun x hx => ⟨(hκ x hx).1, (hκ x hx).2.1⟩, ?_⟩
  have hliterals : c.literals.map (Literal.instantiate s)
      = bindAll (fun x => .var (names.variableName (κ x))) c.literals :=
    bindAll_congr fun x hx => (hκ x hx).2.2
  rw [instantiate, hliterals]

/-- A fresh copy is a variant. -/
theorem variant_of_freshCopy {names names' : NameSupply} {c given : Clause}
    (h : c.freshCopy names = (given, names')) : Variant c.literals given.literals := by
  obtain ⟨-, -, κ, hinj, -, rfl⟩ := freshCopy_eq h
  exact ⟨fun x => names.variableName (κ x), names.variableName_injective.comp_injOn hinj, rfl⟩

/-- All variables of a fresh copy have numbers behind those that were issued before. -/
theorem mem_vars_freshCopy {names names' : NameSupply} {c given : Clause}
    (h : c.freshCopy names = (given, names')) {y : String} (hy : y ∈ varsOf given.literals) :
    ∃ k, names.variableCount < k ∧ k ≤ names'.variableCount ∧ y = names.variableName k := by
  obtain ⟨-, -, κ, -, hκ, rfl⟩ := freshCopy_eq h
  obtain ⟨x, hx, hyx⟩ := mem_varsOf_bindAll.1 hy
  rw [Term.vars_var, List.mem_singleton] at hyx
  exact ⟨κ x, (hκ x hx).1, (hκ x hx).2, hyx⟩

end Clause

end GivenClause
