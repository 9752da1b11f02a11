import GivenClause.Format.Statement
import GivenClause.Text.Blank

/-!
# Reading texts

The entry points of the reader.  A text that is refused is refused at a place; `ReadError` says what
stands there, by line and column counted from one.  Mostly it is the place at which reading stopped.
But blanks and comments are looked for at every character, also inside words and inside other
comments, and one that runs on past this place takes the report along (`reported`).

Formulas that are not in clause normal form begin with the keyword `fof`; finding one where it
cannot stand gets a message of its own.
-/

namespace GivenClause.Format

/-- A line and a column, counted from one. -/
structure Position where
  line : Nat := 1
  column : Nat := 1
  deriving Repr, DecidableEq

/-- The position behind a character. -/
def Position.next (p : Position) (c : Char) : Position :=
  if c = '\n' then { line := p.line + 1 } else { p with column := p.column + 1 }

/-- Why a text cannot be read. -/
inductive ReadError where
  /-- The text ends where something more is needed. -/
  | endOfText
  /-- A character that fits nowhere. -/
  | unexpected (at_ : Position) (c : Char)
  /-- A formula that is not in clause normal form. -/
  | unsupportedFormula (at_ : Position)
  deriving Repr, DecidableEq

/-- The characters that end a line of a message. -/
def endsLine (c : Char) : Bool :=
  [0xA, 0xB, 0xC, 0xD, 0x1C, 0x1D, 0x1E, 0x85, 0x2028, 0x2029].contains c.toNat

/-- The place of an error in front of its description. -/
def located (p : Position) (description : String) : String :=
  "line " ++ toString p.line ++ ", column " ++ toString p.column ++ ": " ++ description

namespace ReadError

/-- The wording of an error, on one line: a character that would end the line ends the message. -/
def message : ReadError → String
  | .endOfText => "Unexpected end-of-input. Expected one of: "
  | .unexpected p c =>
    let opening := "No terminal matches '"
    let place := "line " ++ toString p.line ++ " col " ++ toString p.column
    located p <|
      if endsLine c then opening
      else opening ++ c.toString ++ "' in the current parser context, at " ++ place
  | .unsupportedFormula p =>
    located p "fof statements are not supported, only clause normal form (cnf)"

/-- Where the error is, if it is not at the end of the text. -/
def position? : ReadError → Option Position
  | .endOfText => none
  | .unexpected p _ => some p
  | .unsupportedFormula p => some p

end ReadError

/-- Whether a text begins with a formula that is not in clause normal form. -/
def beginsFormula (text : List Char) : Bool :=
  match dropWord ['f', 'o', 'f'] (text.dropWhile Text.isBlank) with
  | some after => (after.dropWhile Text.isBlank).head? == some '('
  | none => false

/-- Where a refusal is reported: at the first place, not before the one at which reading stopped,
such that all blanks and comments that begin up to there end with its character.  `ahead` characters
are left to the place at which reading stopped, and `covered` to the end of blanks and comments that
have begun. -/
def reported (ahead covered : Nat) : Place → Place
  | [] => []
  | c :: rest =>
    let covered := max covered (layoutLength (c :: rest))
    if ahead = 0 ∧ covered ≤ 1 then c :: rest else reported (ahead - 1) (covered - 1) rest

/-- The error of a text, reported at `rest`. -/
def errorAt (text rest : List Char) : ReadError :=
  match rest with
  | [] => .endOfText
  | c :: _ =>
    let place := (text.take (text.length - rest.length)).foldl Position.next {}
    if beginsFormula rest then .unsupportedFormula place else .unexpected place c

/-- The error of a text that could be read up to `rest`. -/
def errorFrom (text rest : List Char) : ReadError :=
  errorAt text (if rest.isEmpty then [] else reported (text.length - rest.length) 0 text)

/-- Read a text by a function that reports the place at which it gave up. -/
def readBy {α : Type} (read : List Char → Except Place α) (text : String) :
    Except ReadError α :=
  match read text.toList with
  | .ok value => .ok value
  | .error rest => .error (errorFrom text.toList rest)

/-- Read a term. -/
def readTerm (text : String) : Except ReadError Term := readBy (whole term) text

/-- Read a literal. -/
def readLiteral (text : String) : Except ReadError Literal := readBy (whole literal) text

/-- Read a single clause statement. -/
def readClause (text : String) : Except ReadError Clause := readBy (whole clauseStatement) text

/-- Read the statements of a file. -/
def readStatements (text : String) : Except ReadError (List Statement) :=
  readBy (fun cs => statements (skipLayout cs)) text

end GivenClause.Format
