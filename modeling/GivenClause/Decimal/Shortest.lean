import GivenClause.Decimal

/-!
# The shortest decimal text of a binary number

A binary number is written with the fewest digits that read back as the same number, that is, with
the fewest digits of a decimal that rounds to it.  Of two such decimals the nearer one is taken.
Seventeen digits are always enough.

Numbers from `10 ^ -4` up to `10 ^ 16` are written with a point and at least one place; smaller and
larger ones have an exponent with a sign and at least two digits.
-/

namespace GivenClause.Decimal

open Rounding

/-- The number of digits of a natural number. -/
def width (n : Nat) : Nat := (Nat.toDigits 10 n).length

/-- The number of digits in front of the point of a positive number.  Zeros between the point and
the first digit count as negative. -/
def pointPlace (num den : Nat) : Int :=
  if den ≤ num then width (num / den) else Int.subNatNat 1 (width ((den - 1) / num))

/-- A decimal number: the value of its digits, and the power of ten that goes with them. -/
structure Scaled where
  digits : Nat
  exponent : Int
  deriving Repr, DecidableEq

/-- The value of a decimal number. -/
def Scaled.value (s : Scaled) : Rat := mkRat s.digits 1 * power 10 s.exponent

/-- The decimal number with `count` digits that is nearest to a positive binary number, if one of
the two neighbours with so many digits reads back. -/
def withDigits? (count : Nat) (q : Rat) : Option Scaled :=
  let exponent := Int.subNatNat 0 count + pointPlace q.num.natAbs q.den
  let (n, d) := inUnits 10 exponent q.num.natAbs q.den
  let readsBack (digits : Nat) : Bool := binary (Scaled.value ⟨digits, exponent⟩) = q
  match readsBack (n / d), readsBack (n / d + 1) with
  | false, false => none
  | true, false => some ⟨n / d, exponent⟩
  | false, true => some ⟨n / d + 1, exponent⟩
  | true, true => some ⟨roundDiv n d, exponent⟩

/-- The digits that are enough for every binary number. -/
def mostDigits : Nat := 17

/-- The shortest decimal number that reads back as a positive binary one. -/
def shortest? (q : Rat) : Option Scaled :=
  (List.range mostDigits).findSome? fun count => withDigits? (count + 1) q

/-- The digits of a decimal number without the zeros at their end, and how many of them, or zeros,
stand in front of the point. -/
def Scaled.significant (s : Scaled) : List Char × Int :=
  let digits := Nat.toDigits 10 s.digits
  ((digits.reverse.dropWhile (· = '0')).reverse, digits.length + s.exponent)

/-- Digits with a point behind the first `place` of them. -/
def positional (digits : List Char) (place : Int) : List Char :=
  match place with
  | .negSucc gap => '0' :: '.' :: List.replicate (gap + 1) '0' ++ digits
  | .ofNat 0 => '0' :: '.' :: digits
  | .ofNat place =>
    let whole := digits.take place ++ List.replicate (place - digits.length) '0'
    let places := digits.drop place
    whole ++ '.' :: if places.isEmpty then ['0'] else places

/-- Digits with a point behind the first one and an exponent. -/
def scientific (digits : List Char) (exponent : Int) : List Char :=
  let mantissa :=
    match digits with
    | first :: second :: rest => first :: '.' :: second :: rest
    | digits => digits
  let size := Nat.toDigits 10 exponent.natAbs
  mantissa ++ 'e' :: (if exponent < 0 then '-' else '+')
    :: (List.replicate (2 - size.length) '0' ++ size)

/-- The characters of a positive decimal number. -/
def Scaled.chars (s : Scaled) : List Char :=
  let (digits, place) := s.significant
  if -4 < place ∧ place ≤ 16 then positional digits place else scientific digits (place - 1)

/-- A number rounded to at most `places` places and to a binary number, in its shortest text. -/
def shortest (places : Nat) (q : Rat) : String :=
  let rounded := binary (mkRat (units places q) (Nat.pow 10 places))
  let chars := if rounded = 0 then none else (shortest? rounded).map Scaled.chars
  signed q (chars.getD ['0', '.', '0'])

example : shortest 6 0 = "0.0" := by decide +kernel
example : shortest 6 (1 / 2) = "0.5" := by decide +kernel
example : shortest 6 12 = "12.0" := by decide +kernel
example : shortest 6 (binary 100000000000000000000000) = "1e+23" := by decide +kernel
example : shortest 6 (binary 5629499534213121 / 10) = "562949953421312.1" := by decide +kernel

end GivenClause.Decimal
