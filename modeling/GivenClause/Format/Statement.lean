import GivenClause.Clause
import GivenClause.Format.Lexeme

/-!
# Reading statements

The grammar of clause files, read by recursive descent.  One symbol of look-ahead decides every
choice, so reading never goes back, and a text that is refused is refused at the furthest place at
which any derivation could still ask for a lexeme.

* A file is a sequence of statements `cnf(name,role,formula,annotations).` and
  `include('file',[names]).`; annotations and the selection of names may be missing.
* A formula is a disjunction of literals, with or without brackets around it.
* A literal is an atom, an equation or a disequation, with or without `~` in front; `~a!=b` is the
  equation and `~a=b` the disequation.  A lone variable is not an atom.
* The literal `$false` stands for nothing in a disjunction and is dropped.

Annotations are only recognised; they have no meaning here.

**What is assumed.**  The grammar is meant for the parser library lark.  That lark, given this grammar,
accepts the texts that these functions read, with the same meaning, and stops in the others at the same
place is not proved anywhere: the functions stand for it.
-/

namespace GivenClause.Format

/-! ## Putting pieces together -/

namespace Taken

variable {text : List Char} {α β : Type}

/-- A piece that stands behind another one, seen from the start of the first. -/
def before (a : Taken text α) (b : Taken a.rest β) : Taken text β where
  value := b.value
  rest := b.rest
  shorter := Nat.lt_trans b.shorter a.shorter

/-- The same piece with another value. -/
def as (a : Taken text α) (value : β) : Taken text β where
  value := value
  rest := a.rest
  shorter := a.shorter

end Taken

/-- One or more items with a symbol between neighbours. -/
def separated {α : Type} (separator : Symbol) (item : (text : List Char) → Except Place (Taken text α))
    (text : List Char) : Except Place (Taken text (List α)) := do
  let first ← item text
  match takeSymbol separator first.rest with
  | .error _ => return first.as [first.value]
  | .ok mark => do
    let more ← separated separator item mark.rest
    return (first.before (mark.before more)).as (first.value :: more.value)
termination_by text.length
decreasing_by exact Nat.lt_trans mark.shorter first.shorter

/-! ## Terms -/

mutual

/-- A variable, or a function symbol with its arguments in brackets, if it has any. -/
def term (text : List Char) : Except Place (Taken text Term) :=
  match take .variableName text with
  | .ok x => .ok (x.as (.var x.value))
  | .error _ => do
    let f ← take .functor text
    match takeSymbol .openParen f.rest with
    | .error _ => return f.as (.app f.value [])
    | .ok opening => do
      let args ← terms opening.rest
      let closing ← takeSymbol .closeParen args.rest
      return (f.before (opening.before (args.before closing))).as (.app f.value args.value)
termination_by 2 * text.length
decreasing_by
  have := opening.shorter
  have := f.shorter
  omega

/-- One or more terms with commas between them. -/
def terms (text : List Char) : Except Place (Taken text (List Term)) := do
  let first ← term text
  match takeSymbol .comma first.rest with
  | .error _ => return first.as [first.value]
  | .ok mark => do
    let more ← terms mark.rest
    return (first.before (mark.before more)).as (first.value :: more.value)
termination_by 2 * text.length + 1
decreasing_by
  · omega
  · have := mark.shorter
    have := first.shorter
    omega

end

/-! ## Literals and formulas -/

/-- What follows the sign of a literal: an atom, an equation, or a disequation, which turns the sign
around. -/
def signed (positive : Bool) (text : List Char) : Except Place (Taken text Literal) := do
  let lhs ← term text
  match takeSymbol .equals lhs.rest with
  | .ok mark => do
    let rhs ← term mark.rest
    return (lhs.before (mark.before rhs)).as ⟨positive, Literal.equality, [lhs.value, rhs.value]⟩
  | .error _ =>
    match takeSymbol .differs lhs.rest with
    | .ok mark => do
      let rhs ← term mark.rest
      return (lhs.before (mark.before rhs)).as
        ⟨!positive, Literal.equality, [lhs.value, rhs.value]⟩
    | .error place =>
      match lhs.value with
      | .app p args => return lhs.as ⟨positive, p, args⟩
      | .var _ => .error place

/-- A literal. -/
def literal (text : List Char) : Except Place (Taken text Literal) :=
  match takeSymbol .tilde text with
  | .ok mark => do
    let l ← signed false mark.rest
    return mark.before l
  | .error _ => signed true text

/-- The literal that a disjunction can do without. -/
def falsum : Literal := ⟨true, "$false", []⟩

/-- A disjunction of literals, without those that are plainly false. -/
def disjunction (text : List Char) : Except Place (Taken text (List Literal)) := do
  let ls ← separated .bar literal text
  return ls.as (ls.value.filter (· ≠ falsum))

/-- A disjunction, with or without brackets around it. -/
def formula (text : List Char) : Except Place (Taken text (List Literal)) :=
  match takeSymbol .openParen text with
  | .ok opening => do
    let ls ← disjunction opening.rest
    let closing ← takeSymbol .closeParen ls.rest
    return (opening.before (ls.before closing)).as ls.value
  | .error _ => disjunction text

/-! ## General terms

Annotations are made of them. -/

mutual

/-- A word with its arguments, a variable, a number, or a list in square brackets. -/
def generalTerm (text : List Char) : Except Place (Taken text Unit) :=
  match take .plainData text with
  | .ok word => .ok (word.as ())
  | .error _ =>
    match takeSymbol .openBracket text with
    | .ok opening =>
      match takeSymbol .closeBracket opening.rest with
      | .ok closing => .ok ((opening.before closing).as ())
      | .error _ => do
        let items ← generalTerms opening.rest
        let closing ← takeSymbol .closeBracket items.rest
        return (opening.before (items.before closing)).as ()
    | .error _ => do
      let word ← take .atomicWord text
      match takeSymbol .openParen word.rest with
      | .error _ => return word.as ()
      | .ok opening => do
        let args ← generalTerms opening.rest
        let closing ← takeSymbol .closeParen args.rest
        return (word.before (opening.before (args.before closing))).as ()
termination_by 2 * text.length
decreasing_by
  · have := opening.shorter
    omega
  · have := opening.shorter
    have := word.shorter
    omega

/-- One or more general terms with commas between them. -/
def generalTerms (text : List Char) : Except Place (Taken text Unit) := do
  let first ← generalTerm text
  match takeSymbol .comma first.rest with
  | .error _ => return first.as ()
  | .ok mark => do
    let more ← generalTerms mark.rest
    return (first.before (mark.before more)).as ()
termination_by 2 * text.length + 1
decreasing_by
  · omega
  · have := mark.shorter
    have := first.shorter
    omega

end

/-! ## Statements -/

/-- A statement of a clause file. -/
inductive Statement where
  /-- A clause. -/
  | clause (c : Clause)
  /-- The clauses of another file: all of them, or those with the names selected. -/
  | inclusion (file : String) (selection : Option (List String))
  deriving Repr, DecidableEq

/-- The end of a statement. -/
def closing (text : List Char) : Except Place (Taken text Unit) := do
  let bracket ← takeSymbol .closeParen text
  let period ← takeSymbol .period bracket.rest
  return (bracket.before period).as ()

/-- The end of a clause statement, with or without annotations. -/
def clauseEnd (text : List Char) : Except Place (Taken text Unit) :=
  match takeSymbol .comma text with
  | .error _ => closing text
  | .ok mark => do
    let notes ← generalTerms mark.rest
    let close ← closing notes.rest
    return mark.before (notes.before close)

/-- A clause statement `cnf(name,role,formula).` -/
def clauseStatement (text : List Char) : Except Place (Taken text Clause) := do
  let keyword ← takeSymbol .cnfKeyword text
  let opening ← takeSymbol .openParen keyword.rest
  let name ← take .name opening.rest
  let mark ← takeSymbol .comma name.rest
  let role ← take .role mark.rest
  let mark' ← takeSymbol .comma role.rest
  let body ← formula mark'.rest
  let close ← clauseEnd body.rest
  let whole :=
    keyword.before (opening.before (name.before (mark.before (role.before (mark'.before
      (body.before close))))))
  return whole.as
    { literals := body.value, name := name.value, role := Role.normalize role.value }

/-- The end of an inclusion, with or without a selection of names. -/
def inclusionEnd (text : List Char) : Except Place (Taken text (Option (List String))) :=
  match takeSymbol .comma text with
  | .error _ => do
    let close ← closing text
    return close.as none
  | .ok mark => do
    let opening ← takeSymbol .openBracket mark.rest
    let names ← separated .comma (take .name) opening.rest
    let bracket ← takeSymbol .closeBracket names.rest
    let close ← closing bracket.rest
    let whole := mark.before (opening.before (names.before (bracket.before close)))
    return whole.as (some names.value)

/-- A quoted word without its quotes. -/
def unquote (word : String) : String := String.ofList (word.toList.drop 1).dropLast

/-- An inclusion `include('file').` -/
def inclusion (text : List Char) : Except Place (Taken text Statement) := do
  let keyword ← takeSymbol .includeKeyword text
  let opening ← takeSymbol .openParen keyword.rest
  let file ← take .fileName opening.rest
  let rest ← inclusionEnd file.rest
  return (keyword.before (opening.before (file.before rest))).as
    (.inclusion (unquote file.value) rest.value)

/-- A statement. -/
def statement (text : List Char) : Except Place (Taken text Statement) :=
  match takeSymbol .includeKeyword text with
  | .ok _ => inclusion text
  | .error _ => do
    let c ← clauseStatement text
    return c.as (.clause c.value)

/-- The statements of a file. -/
def statements (text : List Char) : Except Place (List Statement) :=
  if text.isEmpty then .ok []
  else do
    let first ← statement text
    let more ← statements first.rest
    return first.value :: more
termination_by text.length
decreasing_by exact first.shorter

/-- Read a whole text as one phrase, layout around it allowed. -/
def whole {α : Type} (phrase : (text : List Char) → Except Place (Taken text α)) (text : List Char) :
    Except Place α := do
  let found ← phrase (skipLayout text)
  if found.rest.isEmpty then return found.value else .error found.rest

end GivenClause.Format
