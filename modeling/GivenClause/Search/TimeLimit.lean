import GivenClause.Seconds

/-!
# Time limits

A run is stopped after so many seconds, or at the first opportunity.
-/

namespace GivenClause

/-- When a run is to be stopped. -/
inductive TimeLimit where
  | atOnce
  | after (s : Seconds)
  deriving Repr, DecidableEq

/-- Whether a run of a given duration has reached the limit. -/
def TimeLimit.reached (elapsed : Seconds) : TimeLimit → Bool
  | .atOnce => true
  | .after s => s.atMost elapsed

end GivenClause
