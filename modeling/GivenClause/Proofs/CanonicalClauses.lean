import Mathlib
import GivenClause.Problem.Load
import GivenClause.Proofs.Computations
import GivenClause.Proofs.Words

/-!
# Canonical clauses

A clause is canonical if it is spelled with words that the clause format has, and carries nothing that
the format has no place for: no support, no rationale of its own, and no literal that a disjunction
does without.

**Reading gives canonical clauses** (`canonical_of_loadText`), from a text and from whatever files it
includes.  Each reader is looked at once, and the argument follows the order in which they call each
other; `terms_eq_separated` takes the argument lists of terms back to the general lists with a symbol
between neighbours.
-/

namespace GivenClause

open Format

/-- Variables are upper-case words, and all other symbols are heads of terms. -/
inductive Term.Canonical : Term → Prop
  | var {x : String} (word : Terminal.variableName.Accepts x) : Canonical (.var x)
  | app {f : String} {ts : List Term} (word : Terminal.functor.Accepts f)
      (args : ∀ t ∈ ts, Canonical t) : Canonical (.app f ts)

/-- Like a term with the predicate as its head, or an equation. -/
structure Literal.Canonical (l : Literal) : Prop where
  word : Terminal.functor.Accepts l.predicate ∨
    l.predicate = Literal.equality ∧ l.args.length = 2
  args : ∀ t ∈ l.args, t.Canonical

/-- A clause as the clause format has it. -/
structure Clause.Canonical (c : Clause) : Prop where
  name : Terminal.name.Accepts c.name
  role : c.role ∈ [Role.assumption, Role.negatedGoal, Role.plain]
  literals : ∀ l ∈ c.literals, l.Canonical
  noFalsum : falsum ∉ c.literals
  support : c.support = []
  rationale : c.rationale = "input"

namespace Format

/-! ## Lists -/

/-- What holds of every item holds of the members of a list.  Only texts that are no longer than the
whole have to be considered. -/
lemma forall_of_separated {α : Type} {P : α → Prop} {separator : Symbol}
    {item : (text : List Char) → Except Place (Taken text α)} {text : List Char}
    {r : Taken text (List α)}
    (hitem : ∀ part : List Char, part.length ≤ text.length →
      ∀ a : Taken part α, item part = .ok a → P a.value)
    (h : separated separator item text = .ok r) : ∀ a ∈ r.value, P a := by
  rw [separated] at h
  obtain ⟨first, hfirst, h⟩ := bind_eq_ok h
  have hP := hitem text le_rfl first hfirst
  split at h
  · cases h
    exact List.forall_mem_singleton.2 hP
  · rename_i mark hmark
    obtain ⟨more, hmore, h⟩ := bind_eq_ok h
    cases h
    have hshorter : mark.rest.length < text.length := mark.shorter.trans first.shorter
    have hrest := forall_of_separated (fun part hpart => hitem part (hpart.trans hshorter.le)) hmore
    exact List.forall_mem_cons.2 ⟨hP, hrest⟩
termination_by text.length

/-- The arguments of a term are a list with commas. -/
theorem terms_eq_separated (text : List Char) : terms text = separated .comma term text := by
  rw [terms, separated]
  refine bind_congr fun first => ?_
  cases takeSymbol .comma first.rest with
  | error e => rfl
  | ok mark =>
      have hshorter : mark.rest.length < text.length := mark.shorter.trans first.shorter
      dsimp only
      rw [terms_eq_separated mark.rest]
termination_by text.length

/-! ## Terms, literals and formulas -/

theorem canonical_of_term {text : List Char} {r : Taken text Term} (h : term text = .ok r) :
    r.value.Canonical := by
  rw [term] at h
  split at h
  · rename_i x hx
    cases h
    exact .var (Terminal.accepts_of_take hx)
  · obtain ⟨f, hf, h⟩ := bind_eq_ok h
    have hword := Terminal.accepts_of_take hf
    split at h
    · cases h
      exact .app hword (by simp)
    · rename_i opening hopening
      obtain ⟨args, hargs, h⟩ := bind_eq_ok h
      obtain ⟨closing, hclosing, h⟩ := bind_eq_ok h
      cases h
      rw [terms_eq_separated] at hargs
      have hshorter : opening.rest.length < text.length := opening.shorter.trans f.shorter
      refine .app hword (forall_of_separated (fun part hpart a ha => ?_) hargs)
      have hpart : part.length < text.length := hpart.trans_lt hshorter
      exact canonical_of_term ha
termination_by text.length

lemma canonical_equation {positive : Bool} {lhs rhs : Term} (hlhs : lhs.Canonical)
    (hrhs : rhs.Canonical) : Literal.Canonical ⟨positive, Literal.equality, [lhs, rhs]⟩ where
  word := Or.inr ⟨rfl, rfl⟩
  args := List.forall_mem_cons.2 ⟨hlhs, List.forall_mem_singleton.2 hrhs⟩

lemma canonical_of_signed {positive : Bool} {text : List Char} {r : Taken text Literal}
    (h : signed positive text = .ok r) : r.value.Canonical := by
  rw [signed] at h
  obtain ⟨lhs, hlhs, h⟩ := bind_eq_ok h
  have hl := canonical_of_term hlhs
  split at h
  · obtain ⟨rhs, hrhs, h⟩ := bind_eq_ok h
    cases h
    exact canonical_equation hl (canonical_of_term hrhs)
  · split at h
    · obtain ⟨rhs, hrhs, h⟩ := bind_eq_ok h
      cases h
      exact canonical_equation hl (canonical_of_term hrhs)
    · split at h
      · rename_i p args hvalue
        cases h
        rw [hvalue] at hl
        cases hl with
        | app word args => exact ⟨Or.inl word, args⟩
      · cases h

lemma canonical_of_literal {text : List Char} {r : Taken text Literal} (h : literal text = .ok r) :
    r.value.Canonical := by
  rw [literal] at h
  split at h
  · obtain ⟨l, hl, h⟩ := bind_eq_ok h
    cases h
    exact (canonical_of_signed hl : l.value.Canonical)
  · exact canonical_of_signed h

/-- What a formula may contain. -/
def CanonicalBody (ls : List Literal) : Prop := (∀ l ∈ ls, l.Canonical) ∧ falsum ∉ ls

lemma canonical_of_disjunction {text : List Char} {r : Taken text (List Literal)}
    (h : disjunction text = .ok r) : CanonicalBody r.value := by
  obtain ⟨ls, hls, h⟩ := bind_eq_ok h
  cases h
  have hall := forall_of_separated (fun _ _ _ ha => canonical_of_literal ha) hls
  refine ⟨fun l hl => hall l (List.mem_filter.1 hl).1, fun hfalsum => ?_⟩
  simpa using (List.mem_filter.1 hfalsum).2

lemma canonical_of_formula {text : List Char} {r : Taken text (List Literal)}
    (h : formula text = .ok r) : CanonicalBody r.value := by
  rw [formula] at h
  split at h
  · obtain ⟨ls, hls, h⟩ := bind_eq_ok h
    obtain ⟨closing, -, h⟩ := bind_eq_ok h
    cases h
    exact (canonical_of_disjunction hls : CanonicalBody ls.value)
  · exact canonical_of_disjunction h

/-! ## Statements -/

lemma normalize_mem (role : String) :
    Role.normalize role ∈ [Role.assumption, Role.negatedGoal, Role.plain] := by
  rw [Role.normalize]
  split_ifs with h
  · rcases h with rfl | rfl <;> simp
  · simp

lemma canonical_of_clauseStatement {text : List Char} {r : Taken text Clause}
    (h : clauseStatement text = .ok r) : r.value.Canonical := by
  obtain ⟨keyword, -, h⟩ := bind_eq_ok h
  obtain ⟨opening, -, h⟩ := bind_eq_ok h
  obtain ⟨name, hname, h⟩ := bind_eq_ok h
  obtain ⟨mark, -, h⟩ := bind_eq_ok h
  obtain ⟨role, -, h⟩ := bind_eq_ok h
  obtain ⟨mark', -, h⟩ := bind_eq_ok h
  obtain ⟨body, hbody, h⟩ := bind_eq_ok h
  obtain ⟨close, -, h⟩ := bind_eq_ok h
  cases h
  obtain ⟨hliterals, hfalsum⟩ := canonical_of_formula hbody
  exact ⟨Terminal.accepts_of_take hname, normalize_mem role.value, hliterals, hfalsum, rfl, rfl⟩

/-- The clauses among some statements are canonical. -/
def CanonicalStatements (found : List Statement) : Prop :=
  ∀ c, Statement.clause c ∈ found → c.Canonical

lemma canonical_of_statement {text : List Char} {r : Taken text Statement} {c : Clause}
    (h : statement text = .ok r) (hc : r.value = .clause c) : c.Canonical := by
  rw [statement] at h
  split at h
  · obtain ⟨keyword, -, h⟩ := bind_eq_ok h
    obtain ⟨opening, -, h⟩ := bind_eq_ok h
    obtain ⟨file, -, h⟩ := bind_eq_ok h
    obtain ⟨rest, -, h⟩ := bind_eq_ok h
    cases h
    cases hc
  · obtain ⟨c', hc', h⟩ := bind_eq_ok h
    cases h
    cases hc
    exact canonical_of_clauseStatement hc'

lemma canonical_of_statements {text : List Char} {found : List Statement}
    (h : statements text = .ok found) : CanonicalStatements found := by
  rw [statements] at h
  split_ifs at h
  · cases h
    simp [CanonicalStatements]
  · obtain ⟨first, hfirst, h⟩ := bind_eq_ok h
    obtain ⟨more, hmore, h⟩ := bind_eq_ok h
    cases h
    have hshorter := first.shorter
    intro c hc
    rcases List.mem_cons.1 hc with hc | hc
    · exact canonical_of_statement hfirst hc.symm
    · exact canonical_of_statements hmore c hc
termination_by text.length

lemma canonical_of_readStatements {text : String} {found : List Statement}
    (h : readStatements text = .ok found) : CanonicalStatements found := by
  rw [readStatements, readBy] at h
  split at h
  · rename_i value hvalue
    cases h
    exact canonical_of_statements hvalue
  · cases h

end Format

/-! ## Files -/

namespace Problem

lemma canonical_of_expand {tree : Files.Tree} {places : Places} {base : Option Files.Path}
    {load : Files.Path → Except LoadError (List Clause)}
    (hload : ∀ path cs, load path = .ok cs → ∀ c ∈ cs, c.Canonical) {found : List Statement}
    (hfound : CanonicalStatements found) {clauses : List Clause}
    (h : expand tree places base load found = .ok clauses) : ∀ c ∈ clauses, c.Canonical := by
  induction found generalizing clauses with
  | nil =>
      cases h
      simp
  | cons s found ih =>
      have hmore : CanonicalStatements found := fun c hc => hfound c (List.mem_cons_of_mem s hc)
      cases s with
      | clause c =>
          obtain ⟨more, hexpand, h⟩ := bind_eq_ok h
          cases h
          exact List.forall_mem_cons.2 ⟨hfound c List.mem_cons_self, ih hmore hexpand⟩
      | inclusion name selection =>
          obtain ⟨path, -, h⟩ := bind_eq_ok h
          obtain ⟨included, hincluded, h⟩ := bind_eq_ok h
          obtain ⟨more, hexpand, h⟩ := bind_eq_ok h
          cases h
          intro c hc
          rcases List.mem_append.1 hc with hc | hc
          · refine hload path included hincluded c ?_
            cases selection with
            | none => exact hc
            | some names => exact (List.mem_filter.1 hc).1
          · exact ih hmore hexpand c hc

lemma canonical_of_loadFile {tree : Files.Tree} {places : Places} {reading : List Files.Location}
    {path : Files.Path} {clauses : List Clause}
    (h : loadFile tree places reading path = .ok clauses) : ∀ c ∈ clauses, c.Canonical := by
  rw [loadFile] at h
  split at h
  · cases h
  · cases h
    simp
  · rename_i place text hread
    split_ifs at h with hopen
    split at h
    · cases h
    · rename_i found hfound
      have hsmaller := length_unopened_lt hread hopen
      exact canonical_of_expand (fun _ _ hcs => canonical_of_loadFile hcs)
        (canonical_of_readStatements hfound) h
termination_by (unopened tree reading).length

/-- **Reading gives canonical clauses**, those of included files among them. -/
theorem canonical_of_loadText {tree : Files.Tree} {places : Places} {base : Option Files.Path}
    {text : String} {clauses : List Clause} (h : loadText tree places base text = .ok clauses) :
    ∀ c ∈ clauses, c.Canonical := by
  rw [loadText] at h
  split at h
  · cases h
  · rename_i found hfound
    exact canonical_of_expand (fun _ _ hcs => canonical_of_loadFile hcs)
      (canonical_of_readStatements hfound) h

end Problem

end GivenClause
