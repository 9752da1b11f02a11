/-!
# Sorted names

Names are compared character by character, by code point.  `sortedNames` puts the distinct names
of a list in ascending order.
-/

namespace GivenClause.Text

/-- Insert a name into an ascending list that may hold it already. -/
def insertName (name : String) : List String → List String
  | [] => [name]
  | next :: rest =>
    if name < next then name :: next :: rest
    else if name = next then next :: rest
    else next :: insertName name rest

/-- The distinct names of a list, in ascending order. -/
def sortedNames (names : List String) : List String := names.foldr insertName []

theorem mem_insertName {name x : String} {names : List String} :
    x ∈ insertName name names ↔ x = name ∨ x ∈ names := by
  fun_induction insertName name names with
  | case1 => simp
  | case2 => simp
  | case3 rest h => simp +contextual
  | case4 next rest _ _ ih => simp only [List.mem_cons, ih]; exact or_left_comm

theorem mem_sortedNames {x : String} {names : List String} :
    x ∈ sortedNames names ↔ x ∈ names := by
  induction names with
  | nil => rfl
  | cons name names ih =>
    rw [sortedNames, List.foldr_cons, mem_insertName, List.mem_cons]
    exact or_congr_right ih

end GivenClause.Text
