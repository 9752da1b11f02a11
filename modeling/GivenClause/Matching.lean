import GivenClause.Substitution

/-!
# One-way matching

Matching extends a substitution so that a pattern becomes a given target; only variables of the
pattern are bound.  A variable that matches itself is bound to itself, so that it stays fixed for
the rest of the match.

The matcher threads one substitution from left to right and stops at the first conflict; what it
had bound by then is undone over the trail, so a failed match leaves the substitution it was given.
-/

namespace GivenClause.Substitution

mutual

/-- Extend a substitution so that it takes the pattern to the target.  After a conflict the
bindings made on the way are still there. -/
def extend : Term → Term → Substitution → Bool × Substitution
  | .var x, target, s =>
    match s.find? x with
    | some t => (t = target, s)
    | none => (true, s.insert x target)
  | .app _ _, .var _, s => (false, s)
  | .app f args, .app g targets, s =>
    if f = g ∧ args.length = targets.length then extendList args targets s else (false, s)

/-- Extend a substitution along two argument lists, from left to right. -/
def extendList : List Term → List Term → Substitution → Bool × Substitution
  | t :: ts, u :: us, s =>
    match extend t u s with
    | (true, s') => extendList ts us s'
    | (false, s') => (false, s')
  | [], _, s => (true, s)
  | _ :: _, [], s => (true, s)

end

/-- Match a pattern against a target: whether it succeeded, and the extended substitution, or on
failure the substitution as it was. -/
def matchTerm (s : Substitution) (pattern target : Term) : Bool × Substitution :=
  match extend pattern target s with
  | (true, s') => (true, s')
  | (false, s') => (false, s'.backtrack s.mark)

end GivenClause.Substitution
