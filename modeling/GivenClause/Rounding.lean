/-!
# Rounding to the nearest number

A quotient is rounded to an integer, a half going to the even neighbour.  In the same way a rational
number is rounded to a binary one, which has at most 53 significant bits, none of them worth less
than `2 ^ -1074`.
-/

namespace GivenClause.Rounding

/-- The integer nearest to `num / den`; a half goes to the even neighbour. -/
def roundDiv (num den : Nat) : Nat :=
  let quotient := num / den
  let twice := 2 * (num % den)
  if twice < den then quotient
  else if den < twice then quotient + 1
  else if quotient % 2 = 0 then quotient else quotient + 1

/-- The power of a base with an integer as exponent. -/
def power (base : Nat) : Int → Rat
  | .ofNat e => mkRat (Nat.pow base e) 1
  | .negSucc e => mkRat 1 (Nat.pow base (e + 1))

/-- The fraction `num / den` counted in units of `base ^ e`. -/
def inUnits (base : Nat) (e : Int) (num den : Nat) : Nat × Nat :=
  match e with
  | .ofNat e => (num, den * Nat.pow base e)
  | .negSucc e => (num * Nat.pow base (e + 1), den)

/-- The bits of a significand. -/
def significantBits : Nat := 53

/-- The exponent of the smallest binary number. -/
def leastExponent : Int := -1074

/-- The exponent of the last significant bit of `num / den`. -/
def lastBit (num den : Nat) : Int :=
  let top : Int := Int.subNatNat num.log2 (den.log2 + significantBits - 1)
  let (n, d) := inUnits 2 top num den
  max (if n < Nat.pow 2 (significantBits - 1) * d then top - 1 else top) leastExponent

/-- The binary number nearest to a rational one, however large; a tie goes to the one whose last bit
is zero. -/
def binary (q : Rat) : Rat :=
  if q = 0 then 0
  else
    let e := lastBit q.num.natAbs q.den
    let (n, d) := inUnits 2 e q.num.natAbs q.den
    let magnitude := mkRat (roundDiv n d) 1 * power 2 e
    if q < 0 then -magnitude else magnitude

example : binary (1 / 2) = 1 / 2 := by decide +kernel
example : binary 9007199254740993 = 9007199254740992 := by decide +kernel
example : binary (-9007199254740995) = -9007199254740996 := by decide +kernel

end GivenClause.Rounding
