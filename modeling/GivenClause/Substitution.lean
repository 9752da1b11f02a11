import GivenClause.Term

/-!
# Substitutions

A substitution is a finite list of bindings `X<-t` in the order in which their variables were
first bound, together with a **trail** that records the bound variables, the latest first.  The
trail lets a search try a binding and undo it: `mark` notes a position and `backtrack` returns to
it.

* `apply` replaces all bound variables at once, and does not look into what it has put in.
* `insert` binds a variable whatever the term; `add` skips a binding of a variable to itself.
* `compose` follows the whole substitution by one more binding, so that afterwards
  applying it is applying the old one and then `X<-t`.
-/

namespace GivenClause

/-- Bindings, oldest first, and the trail of bound variables, latest first. -/
structure Substitution where
  bindings : List (String × Term) := []
  trail : List String := []
  deriving Repr, DecidableEq, Inhabited

namespace Substitution

/-- The substitution that binds nothing. -/
def empty : Substitution := {}

/-! ## Looking up and applying -/

/-- The term a variable is bound to. -/
def find? (s : Substitution) (x : String) : Option Term := s.bindings.lookup x

/-- Whether a variable is bound. -/
def binds (s : Substitution) (x : String) : Bool := (s.find? x).isSome

/-- What a variable stands for: its binding, or itself. -/
def value (s : Substitution) (x : String) : Term := (s.find? x).getD (.var x)

/-- Replace every bound variable of a term, all at once. -/
def apply (s : Substitution) (t : Term) : Term := t.bind s.value

/-- The bound variables, in binding order. -/
def domain (s : Substitution) : List String := s.bindings.map Prod.fst

/-- The number of bindings. -/
def size (s : Substitution) : Nat := s.bindings.length

/-- Equality as maps: the order of the bindings does not count. -/
def sameMap (s s' : Substitution) : Bool :=
  s.size == s'.size && s.bindings.all fun (x, t) => s'.find? x == some t

/-! ## Binding -/

/-- Set the value of `x`: in place if it is there, at the end if it is new. -/
def assign (x : String) (t : Term) : List (String × Term) → List (String × Term)
  | [] => [(x, t)]
  | (y, u) :: rest => if y = x then (y, t) :: rest else (y, u) :: assign x t rest

/-- Bind `x` to `t`, a binding of `x` to itself included. -/
def insert (s : Substitution) (x : String) (t : Term) : Substitution where
  bindings := assign x t s.bindings
  trail := if s.binds x then s.trail else x :: s.trail

/-- Bind `x` to `t`, unless `t` is `x` itself. -/
def add (s : Substitution) (x : String) (t : Term) : Substitution :=
  if t = .var x then s else s.insert x t

/-- The substitution with these bindings.  The last value given for a variable counts, at the
place of the first; bindings of a variable to itself are left out. -/
def ofList (pairs : List (String × Term)) : Substitution :=
  (pairs.foldl (fun bound (x, t) => assign x t bound) []).foldl (fun s (x, t) => s.add x t) empty

/-- The substitution with these bindings, those of a variable to itself included. -/
def ofPinned (pairs : List (String × Term)) : Substitution :=
  pairs.foldl (fun s (x, t) => s.insert x t) empty

/-- Follow a substitution by `x<-t`: the new binding is applied to every value, what has become a
binding of a variable to itself is dropped, and `x<-t` is added if `x` is not bound. -/
def compose (s : Substitution) (x : String) (t : Term) : Substitution :=
  let moved := s.bindings.map fun (y, u) => (y, u.replace x t)
  let (idle, kept) := moved.partition fun (y, u) => u = .var y
  let s' : Substitution :=
    { bindings := kept, trail := idle.foldl (fun trail (y, _) => trail.erase y) s.trail }
  if s'.binds x then s' else s'.add x t

/-! ## The trail -/

/-- The position of the trail, to be given to `backtrack`. -/
def mark (s : Substitution) : Nat := s.trail.length

/-- Drop the binding of a variable. -/
def erase (x : String) (bindings : List (String × Term)) : List (String × Term) :=
  bindings.filter fun (y, _) => y ≠ x

/-- Undo the latest bindings until only `mark` variables are left on the trail. -/
def unwind (mark : Nat) : List String → List (String × Term) → Substitution
  | [], bindings => { bindings, trail := [] }
  | x :: trail, bindings =>
    if trail.length < mark then { bindings, trail := x :: trail }
    else unwind mark trail (erase x bindings)

/-- Undo every binding made after the trail stood at `mark`. -/
def backtrack (s : Substitution) (mark : Nat) : Substitution := unwind mark s.trail s.bindings

/-- The trail was asked for more than it holds. -/
inductive TrailError where
  | exhausted
  deriving Repr, DecidableEq

/-- Backtracking to any integer.  No mark is negative, so a negative position undoes every binding
and then finds the trail exhausted. -/
def backtrackTo (s : Substitution) (position : Int) : Substitution × Option TrailError :=
  if position < 0 then (s.backtrack 0, some .exhausted)
  else (s.backtrack position.toNat, none)

/-! ## Text -/

/-- A substitution as `{X<-a,Y<-f(X)}`, in binding order. -/
def render (s : Substitution) : String :=
  "\x7b" ++ Text.join "," (s.bindings.map fun (x, t) => x ++ "<-" ++ t.render) ++ "\x7d"

/-- The substitution labelled as one, for diagnostics. -/
def inspect (s : Substitution) : String := "Substitution(" ++ s.render ++ ")"

end Substitution

end GivenClause
