/-!
# Indices into lists

An index is counted from zero, or from the end if it is negative.  Indices are words of 64 bits; an
integer that does not fit into one is refused as such, whatever the list.
-/

namespace GivenClause

/-- Why an integer picks no item of a list. -/
inductive IndexError where
  /-- The list has no such item. -/
  | outOfRange
  /-- The integer is too large for an index. -/
  | oversized
  deriving Repr, DecidableEq

namespace Index

/-- Whether an integer fits into a word of 64 bits. -/
def fits (i : Int) : Bool := -9223372036854775808 ≤ i && i ≤ 9223372036854775807

/-- The place of an index, counted from zero. -/
def place? (length : Nat) (i : Int) : Option Nat :=
  let j := if i < 0 then i + length else i
  if 0 ≤ j ∧ j < length then some j.toNat else none

/-- The item at an index. -/
def get {α : Type} (xs : List α) (i : Int) : Except IndexError α :=
  match (place? xs.length i).bind fun j => xs[j]? with
  | some x => .ok x
  | none => .error (if fits i then .outOfRange else .oversized)

/-- The list without the item at an index. -/
def delete {α : Type} (xs : List α) (i : Int) : Except IndexError (List α) :=
  match place? xs.length i with
  | some j => .ok (xs.eraseIdx j)
  | none => .error (if fits i then .outOfRange else .oversized)

/-- The item at an index, and the list without it. -/
def pop {α : Type} (xs : List α) (i : Int) : Except IndexError (α × List α) := do
  return (← get xs i, ← delete xs i)

theorem place?_natCast {length j : Nat} (h : j < length) : place? length j = some j := by
  simp only [place?]
  split
  · omega
  · rw [if_pos ⟨by omega, by omega⟩, Int.toNat_natCast]

/-- An index from zero on picks the item at that place. -/
theorem get_natCast {α : Type} {xs : List α} {j : Nat} (h : j < xs.length) :
    get xs j = .ok xs[j] := by
  simp only [get, place?_natCast h, Option.bind_some, List.getElem?_eq_getElem h]

theorem delete_natCast {α : Type} {xs : List α} {j : Nat} (h : j < xs.length) :
    delete xs j = .ok (xs.eraseIdx j) := by
  simp only [delete, place?_natCast h]

theorem pop_natCast {α : Type} {xs : List α} {j : Nat} (h : j < xs.length) :
    pop xs j = .ok (xs[j], xs.eraseIdx j) := by
  rw [pop, get_natCast h, delete_natCast h]
  rfl

end Index

end GivenClause
