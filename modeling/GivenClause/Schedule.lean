import GivenClause.Clause
import GivenClause.Text.Quoted

/-!
# Selection schedules

A weight gives every clause an integer, and the clause of least weight is selected next.  A
schedule combines several weights in a round robin: with ratios 5 and 1, five clauses are selected
by the first weight, one by the second, and so on.

* `Weight.symbolCount` counts symbols; `Weight.age` numbers the clauses as they come; `Weight.other` is
  whatever a caller may bring.
* `Schedule.evaluate` scores a clause under all weights.
* `Schedule.next` tells which weight is due and moves on.
-/

namespace GivenClause

/-- A function from clauses to integers, possibly with a count of its own. -/
inductive Weight where
  /-- So much for each symbol and so much for each variable occurrence. -/
  | symbolCount (perSymbol perVariable : Int)
  /-- The number of clauses scored so far, the present one included.  An age that serves further slots
  scores the clause for each of them as well, so that its count moves on by so many more. -/
  | age (scored : Nat) (further : Nat := 0)
  /-- Any other score, with its name.  Whatever it looks at, keeps or shares, over a number of clauses it
  gives them some values, and these are all that a schedule sees of it. -/
  | other (name : String) (values : List Int)
  deriving Repr, DecidableEq

namespace Weight

/-- Symbols count two and variables one. -/
def standardCount : Weight := .symbolCount 2 1

/-- Age, with no clause scored yet. -/
def freshAge : Weight := .age 0

/-- The score of a clause. -/
def score (c : Clause) : Weight → Int
  | .symbolCount perSymbol perVariable => c.weight perSymbol perVariable
  | .age scored _ => scored + 1
  | .other _ values => values.headD 0

/-- The weight after it has scored a clause. -/
def advance : Weight → Weight
  | .symbolCount perSymbol perVariable => .symbolCount perSymbol perVariable
  | .age scored further => .age (scored + 1 + further) further
  | .other name values => .other name values.tail

/-- The name of a weight, with its parameters. -/
def render : Weight → String
  | .symbolCount perSymbol perVariable =>
    "SymbolCount(" ++ toString perSymbol ++ "," ++ toString perVariable ++ ")"
  | .age _ _ => "FIFO"
  | .other name _ => name

end Weight

/-- A weight and how many selections in a row it makes. -/
structure Slot where
  ratio : Nat
  weight : Weight
  deriving Repr, DecidableEq

/-- Slots in turn: `current` is the position of the slot that is due and `remaining` the number of
selections it still has. -/
structure Schedule where
  name : String
  slots : List Slot
  current : Nat
  remaining : Nat
  deriving Repr, DecidableEq

/-- Why there is no such schedule. -/
inductive ScheduleError where
  | noWeights
  | ratioNotPositive
  | unknown (name : String)
  deriving Repr, DecidableEq

namespace Schedule

/-- The ratio of a slot. -/
def ratioAt (slots : List Slot) (i : Nat) : Nat := (slots[i]?.map Slot.ratio).getD 0

/-- The schedule that starts with the first of these slots. -/
def start (name : String) (slots : List Slot) : Schedule :=
  { name, slots, current := 0, remaining := ratioAt slots 0 }

/-- A schedule from its ratios and weights.  There has to be a weight, and every ratio has to be
positive. -/
def ofRatios (name : String) (ratios : List (Int × Weight)) : Except ScheduleError Schedule :=
  if ratios.isEmpty then .error .noWeights
  else if ratios.any fun (r, _) => r < 1 then .error .ratioNotPositive
  else .ok (start name (ratios.map fun (r, w) => ⟨r.toNat, w⟩))

/-- The position of the slot that is due, and the schedule after its selection. -/
def next (s : Schedule) : Nat × Schedule :=
  if s.remaining = 1 then
    let following := (s.current + 1) % s.slots.length
    (s.current, { s with current := following, remaining := ratioAt s.slots following })
  else (s.current, { s with remaining := s.remaining - 1 })

/-- The scores of a clause under all weights, and the schedule after scoring it. -/
def evaluate (s : Schedule) (c : Clause) : List Int × Schedule :=
  (s.slots.map fun slot => slot.weight.score c,
    { s with slots := s.slots.map fun slot => { slot with weight := slot.weight.advance } })

/-- The schedule with its name, ratios and weights. -/
def render (s : Schedule) : String :=
  let slots := s.slots.map fun slot =>
    "(" ++ toString slot.ratio ++ ", " ++ slot.weight.render ++ ")"
  "EvalStructure(" ++ Text.quoted s.name ++ ": [" ++ Text.join ", " slots ++ "])"

/-! ## The named schedules -/

/-- The schedules that have a name. -/
def registry : List (String × List Slot) := [
  ("fifo", [⟨1, .freshAge⟩]),
  ("symbol_count", [⟨1, .standardCount⟩]),
  ("pick_given_2", [⟨2, .standardCount⟩, ⟨1, .freshAge⟩]),
  ("pick_given_5", [⟨5, .standardCount⟩, ⟨1, .freshAge⟩])]

/-- The names of the named schedules. -/
def names : List String := registry.map Prod.fst

/-- The name of the schedule that is used when none is chosen. -/
def defaultName : String := "pick_given_5"

/-- The schedule that is used when none is chosen. -/
def standard : Schedule := start defaultName [⟨5, .standardCount⟩, ⟨1, .freshAge⟩]

/-- The schedule of a name. -/
def named (name : String) : Except ScheduleError Schedule :=
  match registry.lookup name with
  | some slots => .ok (start name slots)
  | none => .error (.unknown name)

end Schedule

/-- The wording of an error. -/
def ScheduleError.message : ScheduleError → String
  | .noWeights => "an evaluation schedule needs at least one weight function"
  | .ratioNotPositive => "ratios must be positive"
  | .unknown name =>
    "Unknown evaluation " ++ Text.quoted name ++ ". Available: " ++ Text.join ", " Schedule.names

end GivenClause
