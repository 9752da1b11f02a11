import Mathlib
import GivenClause.Proofs.CanonicalClauses
import GivenClause.Proofs.Tokens

/-!
# The grammar of clause files

The grammar rule by rule, apart from any way of reading it.  A `Tree` is a derivation: there is one
constructor for each alternative of a rule, and `Tree.tokens` is the sequence of tokens it derives.
`Tree.denote` is what a derivation means.  It goes from the leaves up, and has no means of its own to
tell a variable from an atom; so an atom that turns out to be a variable is refused.

* `Tree.exists_denote`: this never happens, since no rule for atoms leads to a variable.
-/

namespace GivenClause.Format

/-- What the rules of the grammar are about. -/
inductive Nonterminal where
  | file
  | inclusion
  | selection
  | name
  | clause
  | annotations
  | formula
  | disjunction
  | literal
  | atomicFormula
  | equation
  | singleTerm
  | term
  | functionTerm
  | variableTerm
  | generalTerm
  | generalData
  | generalList
  /-- One or more of an item, with a symbol between neighbours. -/
  | several (separator : Symbol) (item : Nonterminal)
  /-- An item or nothing. -/
  | optional (item : Nonterminal)
  /-- An item in round brackets. -/
  | bracketed (item : Nonterminal)

/-- What derivations mean.  Annotations have no meaning. -/
@[reducible]
def Nonterminal.Value : Nonterminal → Type
  | .file => List Statement
  | .inclusion => Statement
  | .selection => List String
  | .name => String
  | .clause => Clause
  | .annotations | .generalTerm | .generalData | .generalList => Unit
  | .formula | .disjunction => List Literal
  | .literal => Literal
  | .atomicFormula | .equation | .singleTerm | .term | .functionTerm | .variableTerm => Term
  | .several _ item => List item.Value
  | .optional item => Option item.Value
  | .bracketed item => item.Value

/-- Derivations. -/
inductive Tree : Nonterminal → Type
  -- file: any number of clauses and inclusions
  | endOfFile : Tree .file
  | thenClause (first : Tree .clause) (rest : Tree .file) : Tree .file
  | thenInclusion (first : Tree .inclusion) (rest : Tree .file) : Tree .file
  -- inclusion: include ( FILE selection? ) .
  | inclusion (file : String) (selection : Tree (.optional .selection)) : Tree .inclusion
  -- selection: , [ NAME , … , NAME ]
  | selection (names : Tree (.several .comma .name)) : Tree .selection
  | name (word : String) : Tree .name
  -- clause: cnf ( NAME , ROLE , formula annotations? ) .
  | clause (name role : String) (body : Tree .formula)
      (annotations : Tree (.optional .annotations)) : Tree .clause
  -- annotations: , general , … , general
  | annotations (items : Tree (.several .comma .generalTerm)) : Tree .annotations
  -- formula: disjunction, or ( disjunction )
  | bare (body : Tree .disjunction) : Tree .formula
  | inBrackets (body : Tree (.bracketed .disjunction)) : Tree .formula
  -- disjunction: literal | … | literal
  | disjunction (literals : Tree (.several .bar .literal)) : Tree .disjunction
  -- literal: atom, ~ atom, term != term, or ~ term != term
  | positive (atom : Tree .atomicFormula) : Tree .literal
  | negative (atom : Tree .atomicFormula) : Tree .literal
  | disequation (lhs rhs : Tree .term) : Tree .literal
  | negatedDisequation (lhs rhs : Tree .term) : Tree .literal
  -- atom: equation or function term
  | atomOfEquation (equation : Tree .equation) : Tree .atomicFormula
  | atomOfFunction (function : Tree .functionTerm) : Tree .atomicFormula
  -- equation: term = term
  | equation (lhs rhs : Tree .term) : Tree .equation
  | singleTerm (term : Tree .term) : Tree .singleTerm
  -- term: function term or variable
  | termOfFunction (function : Tree .functionTerm) : Tree .term
  | termOfVariable (name : Tree .variableTerm) : Tree .term
  -- function term: FUNCTOR, or FUNCTOR ( term , … , term )
  | functionTerm (head : String) (args : Tree (.optional (.bracketed (.several .comma .term)))) :
      Tree .functionTerm
  | variableTerm (word : String) : Tree .variableTerm
  -- general: data or list
  | generalOfData (data : Tree .generalData) : Tree .generalTerm
  | generalOfList (list : Tree .generalList) : Tree .generalTerm
  -- data: WORD, WORD ( general , … , general ), VARIABLE, or INTEGER
  | dataWord (word : String) (args : Tree (.optional (.bracketed (.several .comma .generalTerm)))) :
      Tree .generalData
  | dataVariable (word : String) : Tree .generalData
  | dataInteger (word : String) : Tree .generalData
  -- list: [ ], or [ general , … , general ]
  | generalList (items : Tree (.optional (.several .comma .generalTerm))) : Tree .generalList
  -- the rules for lists, for what may be left out, and for brackets
  | one {separator : Symbol} {item : Nonterminal} (first : Tree item) :
      Tree (.several separator item)
  | more {separator : Symbol} {item : Nonterminal} (first : Tree item)
      (rest : Tree (.several separator item)) : Tree (.several separator item)
  | absent {item : Nonterminal} : Tree (.optional item)
  | present {item : Nonterminal} (tree : Tree item) : Tree (.optional item)
  | brackets {item : Nonterminal} (tree : Tree item) : Tree (.bracketed item)

/-- A number of an annotation. -/
def Terminal.integer : Terminal := .word [.integer]

/-- The equation between two terms, as a term. -/
def equated (lhs rhs : Term) : Term := .app Literal.equality [lhs, rhs]

namespace Tree

/-- The tokens that are derived. -/
@[simp]
def tokens {n : Nonterminal} : Tree n → List Token
  | .endOfFile => []
  | .thenClause first rest => first.tokens ++ rest.tokens
  | .thenInclusion first rest => first.tokens ++ rest.tokens
  | .inclusion file chosen =>
    .symbol .includeKeyword :: .symbol .openParen :: ⟨.fileName, file⟩ ::
      (chosen.tokens ++ [.symbol .closeParen, .symbol .period])
  | .selection names =>
    .symbol .comma :: .symbol .openBracket :: (names.tokens ++ [.symbol .closeBracket])
  | .name word => [⟨.name, word⟩]
  | .clause label role body notes =>
    .symbol .cnfKeyword :: .symbol .openParen :: ⟨.name, label⟩ :: .symbol .comma :: ⟨.role, role⟩ ::
      .symbol .comma ::
        (body.tokens ++ (notes.tokens ++ [.symbol .closeParen, .symbol .period]))
  | .annotations items => .symbol .comma :: items.tokens
  | .bare ls => ls.tokens
  | .inBrackets ls => ls.tokens
  | .disjunction literals => literals.tokens
  | .positive atom => atom.tokens
  | .negative atom => .symbol .tilde :: atom.tokens
  | .disequation lhs rhs => lhs.tokens ++ .symbol .differs :: rhs.tokens
  | .negatedDisequation lhs rhs =>
    .symbol .tilde :: (lhs.tokens ++ .symbol .differs :: rhs.tokens)
  | .atomOfEquation atom => atom.tokens
  | .atomOfFunction atom => atom.tokens
  | .equation lhs rhs => lhs.tokens ++ .symbol .equals :: rhs.tokens
  | .singleTerm t => t.tokens
  | .termOfFunction t => t.tokens
  | .termOfVariable t => t.tokens
  | .functionTerm head args => ⟨.functor, head⟩ :: args.tokens
  | .variableTerm word => [⟨.variableName, word⟩]
  | .generalOfData data => data.tokens
  | .generalOfList list => list.tokens
  | .dataWord word args => ⟨.atomicWord, word⟩ :: args.tokens
  | .dataVariable word => [⟨.variableName, word⟩]
  | .dataInteger word => [⟨.integer, word⟩]
  | .generalList items => .symbol .openBracket :: (items.tokens ++ [.symbol .closeBracket])
  | .one first => first.tokens
  | @more separator _ first rest => first.tokens ++ .symbol separator :: rest.tokens
  | .absent => []
  | .present tree => tree.tokens
  | .brackets tree => .symbol .openParen :: (tree.tokens ++ [.symbol .closeParen])

/-- What a derivation means. -/
@[simp]
def denote {n : Nonterminal} : Tree n → Except Literal.VariableAtom n.Value
  | .endOfFile => .ok []
  | .thenClause first rest => do return .clause (← first.denote) :: (← rest.denote)
  | .thenInclusion first rest => do return (← first.denote) :: (← rest.denote)
  | .inclusion file chosen => do return .inclusion (unquote file) (← chosen.denote)
  | .selection names => names.denote
  | .name word => .ok word
  | .clause label role body _ => do
    return { literals := ← body.denote, name := label, role := Role.normalize role }
  | .annotations _ => .ok ()
  | .bare body => body.denote
  | .inBrackets body => body.denote
  | .disjunction literals => do return (← literals.denote).filter (· ≠ falsum)
  | .positive atom => do Literal.ofTerm true (← atom.denote)
  | .negative atom => do Literal.ofTerm false (← atom.denote)
  | .disequation lhs rhs => do Literal.ofTerm false (equated (← lhs.denote) (← rhs.denote))
  | .negatedDisequation lhs rhs => do Literal.ofTerm true (equated (← lhs.denote) (← rhs.denote))
  | .atomOfEquation atom => atom.denote
  | .atomOfFunction atom => atom.denote
  | .equation lhs rhs => do return equated (← lhs.denote) (← rhs.denote)
  | .singleTerm t => t.denote
  | .termOfFunction t => t.denote
  | .termOfVariable t => t.denote
  | .functionTerm head args => do return .app head ((← args.denote).getD [])
  | .variableTerm word => .ok (.var word)
  | .generalOfData _ => .ok ()
  | .generalOfList _ => .ok ()
  | .dataWord _ _ => .ok ()
  | .dataVariable _ => .ok ()
  | .dataInteger _ => .ok ()
  | .generalList _ => .ok ()
  | .one first => do return [← first.denote]
  | .more first rest => do return (← first.denote) :: (← rest.denote)
  | .absent => .ok none
  | .present tree => do return some (← tree.denote)
  | .brackets tree => tree.denote

/-- The rules for atoms lead to no variable. -/
lemma exists_app_of_denote {atom : Tree .atomicFormula} {t : Term} (h : atom.denote = .ok t) :
    ∃ p args, t = .app p args := by
  cases atom with
  | atomOfEquation atom =>
      cases atom with
      | equation lhs rhs =>
          obtain ⟨l, -, h⟩ := bind_eq_ok h
          obtain ⟨r, -, h⟩ := bind_eq_ok h
          cases h
          exact ⟨_, _, rfl⟩
  | atomOfFunction atom =>
      cases atom with
      | functionTerm head args =>
          obtain ⟨as, -, h⟩ := bind_eq_ok h
          cases h
          exact ⟨_, _, rfl⟩

/-- **Every derivation has a meaning**: none is refused for a variable in the place of an atom. -/
theorem exists_denote {n : Nonterminal} (tree : Tree n) : ∃ value, tree.denote = .ok value := by
  induction tree with
  | endOfFile | name | annotations | variableTerm | generalOfData | generalOfList | dataWord
  | dataVariable | dataInteger | generalList | absent => exact ⟨_, rfl⟩
  | selection _ ih | bare _ ih | inBrackets _ ih | atomOfEquation _ ih | atomOfFunction _ ih
  | singleTerm _ ih | termOfFunction _ ih | termOfVariable _ ih | brackets _ ih => exact ih
  | inclusion _ _ ih | clause _ _ _ _ ih _ | disjunction _ ih | functionTerm _ _ ih | one _ ih
  | present _ ih =>
      obtain ⟨value, hvalue⟩ := ih
      exact ⟨_, by rw [denote, hvalue]; rfl⟩
  | thenClause _ _ ihf ihr | thenInclusion _ _ ihf ihr | equation _ _ ihf ihr | more _ _ ihf ihr
  | disequation _ _ ihf ihr | negatedDisequation _ _ ihf ihr =>
      obtain ⟨first, hfirst⟩ := ihf
      obtain ⟨rest, hrest⟩ := ihr
      exact ⟨_, by rw [denote, hfirst, hrest]; rfl⟩
  | positive _ ih | negative _ ih =>
      obtain ⟨t, ht⟩ := ih
      obtain ⟨p, args, rfl⟩ := exists_app_of_denote ht
      exact ⟨_, by rw [denote, ht]; rfl⟩

end Tree

end GivenClause.Format
