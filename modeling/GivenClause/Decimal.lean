import GivenClause.Rounding

/-!
# Decimal text with a fixed number of places

A rational number is rounded to a number of places, a half going to the even neighbour.  A negative
number keeps its sign even if nothing else of it is left.
-/

namespace GivenClause.Decimal

open Rounding

/-- The text of `units / 10 ^ places` for a natural number of units. -/
def point (places units : Nat) : List Char :=
  let digits := Nat.toDigits 10 units
  let padded := List.replicate (places + 1 - digits.length) '0' ++ digits
  let whole := padded.take (padded.length - places)
  if places = 0 then whole else whole ++ '.' :: padded.drop (padded.length - places)

/-- A number without its sign, rounded, in units of the last place. -/
def units (places : Nat) (q : Rat) : Nat :=
  roundDiv (q.num.natAbs * Nat.pow 10 places) q.den

/-- A text behind the sign of a number. -/
def signed (q : Rat) (text : List Char) : String :=
  String.ofList (if q < 0 then '-' :: text else text)

/-- A number rounded to `places` places. -/
def fixed (places : Nat) (q : Rat) : String := signed q (point places (units places q))

example : fixed 3 (1 / 8) = "0.125" := by decide +kernel
example : fixed 3 12 = "12.000" := by decide +kernel
example : fixed 0 (5 / 2) = "2" := by decide +kernel

end GivenClause.Decimal
