import GivenClause.Decimal.Shortest

/-!
# Seconds

Times are counted in seconds.  The results of `Seconds.ofRat`, `+`, `-` and `Seconds.times` are
rounded to binary numbers: what lies beyond their range is infinite, and a difference of infinite
times is undefined.  Comparisons are exact, and nothing compares with an undefined time.
-/

namespace GivenClause

/-- A number of seconds. -/
inductive Seconds where
  | finite (q : Rat)
  | infinite (negative : Bool)
  | undefined
  deriving Repr, DecidableEq

namespace Seconds

/-- The bound of binary numbers. -/
def bound : Rat := mkRat (Nat.pow 2 1024) 1

/-- A rational number of seconds, rounded. -/
def ofRat (q : Rat) : Seconds :=
  let rounded := Rounding.binary q
  if bound ≤ rounded then .infinite false
  else if rounded ≤ -bound then .infinite true
  else .finite rounded

/-- The sum of two times. -/
def add : Seconds → Seconds → Seconds
  | .finite p, .finite q => ofRat (p + q)
  | .undefined, _ => .undefined
  | _, .undefined => .undefined
  | .infinite b, .finite _ => .infinite b
  | .finite _, .infinite b => .infinite b
  | .infinite a, .infinite b => if a = b then .infinite a else .undefined

/-- The time that lies as far on the other side of zero. -/
def neg : Seconds → Seconds
  | .finite q => .finite (-q)
  | .infinite b => .infinite (!b)
  | .undefined => .undefined

instance : Add Seconds := ⟨add⟩

instance : Sub Seconds := ⟨fun s t => s.add t.neg⟩

/-- So many times a time. -/
def times (k : Nat) : Seconds → Seconds
  | .finite q => ofRat (mkRat k 1 * q)
  | .infinite b => if k = 0 then .undefined else .infinite b
  | .undefined => .undefined

/-- Whether the first time is at most the second. -/
def atMost : Seconds → Seconds → Bool
  | .finite p, .finite q => decide (p ≤ q)
  | .undefined, _ => false
  | _, .undefined => false
  | .infinite true, _ => true
  | _, .infinite false => true
  | _, _ => false

/-- The text of a time that is no finite number. -/
def orSpecial (finite : Rat → String) (infinity notANumber : String) : Seconds → String
  | .finite q => finite q
  | .infinite false => infinity
  | .infinite true => "-" ++ infinity
  | .undefined => notANumber

/-- A time with a fixed number of places. -/
def fixed (places : Nat) : Seconds → String := orSpecial (Decimal.fixed places) "inf" "nan"

/-- A time rounded to at most so many places, in its shortest text. -/
def shortest (places : Nat) : Seconds → String :=
  orSpecial (Decimal.shortest places) "Infinity" "NaN"

end Seconds

end GivenClause
