import GivenClause.Seconds
import GivenClause.Text.Blank
import GivenClause.Text.Digit

/-!
# Reading times

`Seconds.ofText?` reads a number of seconds in decimal notation: a sign, digits with an optional
point and exponent, underscores between digits, or one of the words `inf`, `infinity` and `nan`.
Blanks around it do not count.
-/

namespace GivenClause.Seconds

/-! ## The value of a decimal -/

/-- The time `digits * 10 ^ exponent`, rounded.  Far beyond the range of binary numbers the power of
ten is not worked out. -/
def ofDecimal (negative : Bool) (digits : Nat) (exponent : Int) : Seconds :=
  let magnitude := Decimal.width digits + exponent
  if digits = 0 ∨ magnitude < -400 then .finite 0
  else if 400 < magnitude then .infinite negative
  else
    let value := Decimal.Scaled.value ⟨digits, exponent⟩
    ofRat (if negative then -value else value)

/-! ## The notation -/

/-- Blanks and digits of all scripts in their plain form. -/
def plain (c : Char) : Char :=
  if c.toNat < 127 then c
  else if Text.isBlank c then ' '
  else
    match Text.digitValue? c with
    | some d => Char.ofNat ('0'.toNat + d)
    | none => '?'

/-- The blanks that may surround a number. -/
def isMargin (c : Char) : Bool := c == ' ' || (9 ≤ c.toNat && c.toNat ≤ 13)

/-- Without blanks at either end. -/
def trim (text : List Char) : List Char :=
  ((text.dropWhile isMargin).reverse.dropWhile isMargin).reverse

/-- Without the underscores that divide groups of digits: each has a digit on both sides. -/
def ungroup (previous : Char) : List Char → Option (List Char)
  | [] => if previous = '_' then none else some []
  | c :: rest =>
    if c = '_' then if previous.isDigit then ungroup c rest else none
    else if previous = '_' ∧ !c.isDigit then none
    else (ungroup c rest).map (c :: ·)

/-- The value of a run of digits. -/
def digitsValue (digits : List Char) : Nat :=
  digits.foldl (fun value c => 10 * value + (c.toNat - '0'.toNat)) 0

/-- The sign in front of a number, and what follows it. -/
def takeSign : List Char → Bool × List Char
  | '-' :: rest => (true, rest)
  | '+' :: rest => (false, rest)
  | text => (false, text)

/-- The exponent behind the digits, if it is well formed. -/
def exponent? : List Char → Option Int
  | [] => some 0
  | c :: rest =>
    if c.toLower = 'e' then
      let (negative, digits) := takeSign rest
      if digits.isEmpty || !digits.all Char.isDigit then none
      else some (if negative then -(digitsValue digits : Int) else digitsValue digits)
    else none

/-- A number without its sign. -/
def unsigned? (negative : Bool) (text : List Char) : Option Seconds :=
  let word := String.ofList (text.map Char.toLower)
  if word = "inf" ∨ word = "infinity" then some (.infinite negative)
  else if word = "nan" then some .undefined
  else
    let whole := text.takeWhile Char.isDigit
    let rest := text.dropWhile Char.isDigit
    let (places, rest) :=
      match rest with
      | '.' :: after => (after.takeWhile Char.isDigit, after.dropWhile Char.isDigit)
      | _ => ([], rest)
    if whole.isEmpty && places.isEmpty then none
    else
      (exponent? rest).map fun e =>
        ofDecimal negative (digitsValue (whole ++ places)) (e - places.length)

/-- Read a number of seconds. -/
def ofText? (text : String) : Option Seconds := do
  let plainText ← ungroup ' ' (trim (text.toList.map plain))
  let (negative, rest) := takeSign plainText
  unsigned? negative rest

end GivenClause.Seconds
