import GivenClause.Term
import GivenClause.Text.Uppercase

/-!
# Terms from names

The case convention of the clause format: a name that begins with an upper-case character is a
variable, any other name is a function symbol.  `Term.ofName` builds a term by this rule and
refuses to give a variable arguments.
-/

namespace GivenClause.Term

/-- An argument is a term, or a name that is still to be read by the case convention. -/
inductive Argument where
  | name (text : String)
  | term (value : Term)

/-- A variable was given arguments. -/
structure AppliedVariable where
  name : String
  deriving Repr, DecidableEq

/-- The wording of the refusal. -/
def AppliedVariable.message (e : AppliedVariable) : String :=
  "variable " ++ e.name ++ " cannot take arguments"

/-- Whether a name denotes a variable: its first character is upper case. -/
def isVariableName (name : String) : Bool :=
  match name.toList with
  | [] => false
  | c :: _ => Text.isUppercase c

/-- A lone name: a variable or a constant. -/
def ofSymbol (name : String) : Term :=
  if isVariableName name then .var name else .app name []

/-- The term that an argument stands for. -/
def Argument.toTerm : Argument → Term
  | .name text => ofSymbol text
  | .term value => value

/-- The term with this head and these arguments. -/
def ofName (name : String) (args : List Argument) : Except AppliedVariable Term :=
  if isVariableName name then
    if args.isEmpty then .ok (.var name) else .error ⟨name⟩
  else .ok (.app name (args.map Argument.toTerm))

end GivenClause.Term
