/-!
# Name supplies

A search gives every clause a name of its own and every given clause fresh variables.  The supply
remembers which clause names are taken.

* `claim` reserves a name of the input; a name that is taken gets the first free suffix `_2`, `_3`, …
* `freshClause` generates the stem and the next number whose name is free.
* `freshVariable` numbers variables; they need no check, since a clause is always renamed as a whole.
-/

namespace GivenClause

/-- The stems of generated names, how far each count has come, and the clause names in use. -/
structure NameSupply where
  clauseStem : String := "c"
  variableStem : String := "X"
  clauseCount : Nat := 0
  variableCount : Nat := 0
  taken : List String := []
  deriving Repr, DecidableEq, Inhabited

namespace NameSupply

/-- The first number from `n` on whose candidate is not taken, looking at `tries` numbers.  Different
numbers have different candidates, so as many tries as there are taken names always suffice. -/
def firstFree (taken : List String) (candidate : Nat → String) : Nat → Nat → Nat
  | 0, n => n
  | tries + 1, n =>
    if candidate n ∈ taken then firstFree taken candidate tries (n + 1) else n

/-- Mark a name as taken. -/
def take (names : NameSupply) (name : String) : NameSupply :=
  { names with taken := name :: names.taken }

/-- The name of a generated clause. -/
def clauseName (names : NameSupply) (n : Nat) : String := names.clauseStem ++ toString n

/-- The name of a fresh variable. -/
def variableName (names : NameSupply) (n : Nat) : String := names.variableStem ++ toString n

/-- A variant of a name that is taken. -/
def suffixed (name : String) (n : Nat) : String := name ++ "_" ++ toString n

/-- A new clause name: the stem and the next number that is free. -/
def freshClause (names : NameSupply) : String × NameSupply :=
  let n := firstFree names.taken names.clauseName names.taken.length (names.clauseCount + 1)
  (names.clauseName n, { names with clauseCount := n }.take (names.clauseName n))

/-- Reserve a name: itself if it is free, else its first free variant, counted from two. -/
def claim (names : NameSupply) (name : String) : String × NameSupply :=
  if name ∈ names.taken then
    let n := firstFree names.taken (suffixed name) names.taken.length 2
    (suffixed name n, names.take (suffixed name n))
  else (name, names.take name)

/-- A fresh variable. -/
def freshVariable (names : NameSupply) : String × NameSupply :=
  let n := names.variableCount + 1
  (names.variableName n, { names with variableCount := n })

/-- Reserve the name of an input clause; a clause without a name gets a generated one. -/
def assign (names : NameSupply) (name : String) : String × NameSupply :=
  if name = "" then names.freshClause else names.claim name

end NameSupply

end GivenClause
