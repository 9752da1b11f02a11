import Mathlib
import GivenClause.ClauseSet
import GivenClause.Proofs.Phrases

/-!
# Printed clauses

What is printed can be read again.  A printed phrase is read back as a whole whatever stands behind it,
provided that this begins with a character that can follow such a phrase: `term_render`,
`literal_render`, `clauseStatement_render`.  The printer puts no layout between lexemes, so nothing is
skipped before the end of a statement; the layout that a quoted name may contain is part of a lexeme.

Together with `canonical_of_loadText` this makes printing and reading inverse to each other
(`reading_inverts_printing`).
-/

namespace GivenClause

open Format

namespace Format

/-! ## What can stand where -/

/-- What may follow a term. -/
def FollowsTerm : List Char → Prop := Begins (· ∈ [',', ')', '|', '=', '!'])

/-- What may follow a literal. -/
def FollowsLiteral : List Char → Prop := Begins (· ∈ ['|', ')'])

namespace FollowsTerm

variable {rest : List Char}

lemma endsWord (h : FollowsTerm rest) : EndsWord rest := by
  refine h.mono fun c hc => ?_
  fin_cases hc <;> exact ⟨rfl, rfl⟩

lemma noArguments (h : FollowsTerm rest) : takeSymbol .openParen rest = .error rest := by
  refine takeSymbol_of_begins (h.mono fun c hc => ?_)
  fin_cases hc <;> decide

end FollowsTerm

/-! ## Lists -/

lemma begins_join {α : Type} {p : Char → Prop} (mark : String) {render : α → String} {a : α}
    (h : Begins p (render a).toList) (as : List α) :
    Begins p (Text.join mark ((a :: as).map render)).toList := by
  cases as with
  | nil => exact h
  | cons b bs =>
      rw [List.map_cons, List.map_cons, Text.join_cons_cons, String.toList_append,
        String.toList_append, List.append_assoc]
      exact h.append _

/-- **A printed list is read item by item**, if its items are. -/
theorem separated_join {α : Type} (Follows : List Char → Prop) {separator : Symbol} {mark : String}
    (hmark : mark.toList = separator.chars) {render : α → String}
    {item : (text : List Char) → Except Place (Taken text α)}
    (hseparator : ∀ text, Follows (separator.chars ++ text)) {a : α} {as : List α}
    (hsolid : ∀ b ∈ a :: as, Solid (render b).toList)
    (hitem : ∀ b ∈ a :: as, ∀ rest, Follows rest → Gives (item ((render b).toList ++ rest)) b rest)
    {rest : List Char} (hrest : Follows rest) (hstop : takeSymbol separator rest = .error rest) :
    Gives (separated separator item ((Text.join mark ((a :: as).map render)).toList ++ rest))
      (a :: as) rest := by
  induction as generalizing a with
  | nil =>
      rw [separated]
      refine (hitem a List.mem_cons_self rest hrest).bind fun _ => ?_
      dsimp only
      rw [hstop]
      exact .pure _
  | cons b bs ih =>
      have htext : (Text.join mark ((a :: b :: bs).map render)).toList ++ rest
          = (render a).toList ++ (separator.chars
            ++ ((Text.join mark ((b :: bs).map render)).toList ++ rest)) := by
        simp [hmark]
      have hmore := ih (fun c hc => hsolid c (List.mem_cons_of_mem a hc))
        (fun c hc => hitem c (List.mem_cons_of_mem a hc))
      have hbegins := (begins_join mark (hsolid b (by simp)) bs).append rest
      obtain ⟨_, hseparated⟩ := takeSymbol_solid separator hbegins
      rw [htext, separated]
      refine (hitem a List.mem_cons_self _ (hseparator _)).bind fun _ => ?_
      dsimp only
      rw [hseparated]
      exact hmore.bind fun _ => ⟨_, rfl⟩

end Format

/-! ## Terms -/

lemma Term.toList_render_app (f : String) (t : Term) (ts : List Term) :
    (Term.app f (t :: ts)).render.toList
      = f.toList ++ (Symbol.chars .openParen
        ++ ((Text.join "," ((t :: ts).map Term.render)).toList ++ Symbol.chars .closeParen)) := by
  simp [Term.render, Term.renderList_eq_map, Symbol.chars]

lemma Term.Canonical.begins {t : Term} (h : t.Canonical) : BeginsWord t.render.toList := by
  cases h with
  | var word => exact word.begins
  | @app f ts word args =>
      cases ts with
      | nil => exact word.begins
      | cons t ts =>
          rw [Term.toList_render_app]
          exact word.begins.append _

/-- Printed arguments are read back, if each of them is. -/
lemma terms_render {t : Term} {ts : List Term} (h : ∀ s ∈ t :: ts, s.Canonical)
    (hread : ∀ s ∈ t :: ts, ∀ rest, FollowsTerm rest → Gives (term (s.render.toList ++ rest)) s rest)
    (rest : List Char) :
    Gives (terms ((Text.join "," ((t :: ts).map Term.render)).toList
      ++ (Symbol.chars .closeParen ++ rest))) (t :: ts) (Symbol.chars .closeParen ++ rest) := by
  rw [terms_eq_separated]
  refine separated_join FollowsTerm rfl ?_ ?_ hread ⟨')', rest, by simp, rfl⟩ ?_
  · exact fun text => ⟨',', text, by simp, rfl⟩
  · exact fun s hs => (h s hs).begins.solid
  · exact takeSymbol_of_begins ⟨')', rest, by decide, rfl⟩

/-- **A printed term is read back**, whatever follows it that may follow a term. -/
theorem term_render {t : Term} (h : t.Canonical) {rest : List Char} (hrest : FollowsTerm rest) :
    Gives (term (t.render.toList ++ rest)) t rest := by
  induction h generalizing rest with
  | var word => exact term_of_variable (word.take hrest.endsWord)
  | @app f ts word args ih =>
      cases ts with
      | nil =>
          -- a constant ends where it stands, since no bracket can follow
          exact term_of_functor (word.take hrest.endsWord) hrest.noArguments
      | cons t ts =>
          have hargs := terms_render args (fun s hs more hmore => ih s hs hmore) rest
          have hbegins := (begins_join "," (args t List.mem_cons_self).begins ts).append
            (Symbol.chars .closeParen ++ rest)
          have hopen : EndsWord (Symbol.chars .openParen
              ++ ((Text.join "," ((t :: ts).map Term.render)).toList
                ++ (Symbol.chars .closeParen ++ rest))) := ⟨'(', _, by decide, rfl⟩
          rw [Term.toList_render_app, List.append_assoc, List.append_assoc, List.append_assoc]
          exact term_of_application (word.take hopen)
            (takeSymbol_solid .openParen (BeginsWord.solid hbegins)) hargs
            (takeSymbol_solid .closeParen hrest.endsWord.solid)

/-! ## Literals -/

lemma Literal.toList_render_equation (positive : Bool) (lhs rhs : Term) :
    (⟨positive, equality, [lhs, rhs]⟩ : Literal).render.toList
      = lhs.render.toList ++ ((if positive then Symbol.equals else Symbol.differs).chars
        ++ rhs.render.toList) := by
  have hrender : (⟨positive, equality, [lhs, rhs]⟩ : Literal).render
      = lhs.render ++ (if positive then "=" else "!=") ++ rhs.render := rfl
  rw [hrender, String.toList_append, String.toList_append, List.append_assoc]
  cases positive <;> rfl

lemma Literal.toList_render_atom {l : Literal} (h : l.isEquation = false) :
    l.render.toList = (if l.positive then [] else Symbol.chars .tilde) ++ l.atom.render.toList := by
  have hrender : l.render = (if l.positive then "" else "~") ++ l.atom.render := by simp [render, h]
  rw [hrender, String.toList_append]
  cases l.positive <;> rfl

lemma not_functor_equality : ¬ Terminal.functor.Accepts Literal.equality := by
  intro h
  obtain ⟨c, more, hc, hcons⟩ := h.begins.not_symbol (s := .equals) (by simp)
  cases hcons
  exact hc rfl

/-- What follows the sign of an atom. -/
lemma signed_atom (positive : Bool) {p : String} {args : List Term} (h : (Term.app p args).Canonical)
    {rest : List Char} (hrest : FollowsLiteral rest) :
    Gives (signed positive ((Term.app p args).render.toList ++ rest)) ⟨positive, p, args⟩ rest := by
  have hterm : FollowsTerm rest := hrest.mono (by simp)
  have hequals : takeSymbol .equals rest = .error rest := by
    refine takeSymbol_of_begins (hrest.mono fun c hc => ?_)
    fin_cases hc <;> decide
  have hdiffers : takeSymbol .differs rest = .error rest := by
    refine takeSymbol_of_begins (hrest.mono fun c hc => ?_)
    fin_cases hc <;> decide
  exact signed_of_term (term_render h hterm) hequals hdiffers positive

lemma signed_equation {lhs rhs : Term} (hlhs : lhs.Canonical) (hrhs : rhs.Canonical)
    (positive : Bool) {rest : List Char} (hrest : FollowsLiteral rest) :
    Gives (signed true ((⟨positive, Literal.equality, [lhs, rhs]⟩ : Literal).render.toList ++ rest))
      ⟨positive, Literal.equality, [lhs, rhs]⟩ rest := by
  have hterm : FollowsTerm rest := hrest.mono (by simp)
  have hright := term_render hrhs hterm
  have hsolid := hrhs.begins.solid.append rest
  rw [Literal.toList_render_equation]
  cases positive with
  | true =>
      have hfollows : FollowsTerm (Symbol.chars .equals ++ (rhs.render.toList ++ rest)) :=
        ⟨'=', _, by simp, rfl⟩
      rw [if_pos rfl, List.append_assoc, List.append_assoc]
      exact signed_of_equation (term_render hlhs hfollows) (takeSymbol_solid .equals hsolid) hright
        true
  | false =>
      have hfollows : FollowsTerm (Symbol.chars .differs ++ (rhs.render.toList ++ rest)) :=
        ⟨'!', _, by simp, rfl⟩
      rw [if_neg Bool.false_ne_true, List.append_assoc, List.append_assoc]
      exact signed_of_disequation (term_render hlhs hfollows) (takeSymbol_solid .differs hsolid)
        hright true

/-- An equation, or a term with the predicate as its head. -/
lemma Literal.Canonical.cases {l : Literal} (h : l.Canonical) :
    (∃ lhs rhs, lhs.Canonical ∧ rhs.Canonical ∧ l = ⟨l.positive, equality, [lhs, rhs]⟩) ∨
      l.atom.Canonical ∧ l.isEquation = false := by
  obtain ⟨positive, p, args⟩ := l
  obtain ⟨word | ⟨rfl, hlength⟩, hargs⟩ := h
  · refine Or.inr ⟨.app word hargs, ?_⟩
    have hne : p ≠ equality := fun e => not_functor_equality (e ▸ word)
    simp [isEquation, hne]
  · obtain ⟨lhs, rhs, rfl⟩ := List.length_eq_two.1 hlength
    exact Or.inl ⟨lhs, rhs, hargs lhs (by simp), hargs rhs (by simp), rfl⟩

lemma Literal.Canonical.begins {l : Literal} (h : l.Canonical) :
    BeginsWord l.render.toList ∨ Begins (· = '~') l.render.toList := by
  rcases h.cases with ⟨lhs, rhs, hlhs, -, hl⟩ | ⟨hatom, hequation⟩
  · rw [hl, Literal.toList_render_equation]
    exact Or.inl (hlhs.begins.append _)
  · rw [Literal.toList_render_atom hequation]
    cases l.positive with
    | true => exact Or.inl hatom.begins
    | false => exact Or.inr ⟨'~', _, rfl, rfl⟩

lemma Literal.Canonical.solid {l : Literal} (h : l.Canonical) : Solid l.render.toList := by
  rcases h.begins with hword | htilde
  · exact hword.solid
  · refine htilde.mono ?_
    rintro c rfl
    rfl

/-- **A printed literal is read back**, whatever follows it that may follow a literal. -/
theorem literal_render {l : Literal} (h : l.Canonical) {rest : List Char}
    (hrest : FollowsLiteral rest) : Gives (literal (l.render.toList ++ rest)) l rest := by
  rcases h.cases with ⟨lhs, rhs, hlhs, hrhs, hl⟩ | ⟨hatom, hequation⟩
  · rw [hl, literal_of_beginsWord]
    · exact signed_equation hlhs hrhs _ hrest
    · rw [Literal.toList_render_equation, List.append_assoc]
      exact hlhs.begins.append _
  · obtain ⟨positive, p, args⟩ := l
    rw [Literal.toList_render_atom hequation]
    cases positive with
    | true =>
        rw [if_pos rfl, List.nil_append, literal_of_beginsWord (hatom.begins.append rest)]
        exact signed_atom true hatom hrest
    | false =>
        obtain ⟨_, htilde⟩ := takeSymbol_solid .tilde (hatom.begins.solid.append rest)
        rw [if_neg Bool.false_ne_true, List.append_assoc, literal, htilde]
        exact (signed_atom false hatom hrest).bind fun _ => ⟨_, rfl⟩

/-! ## Clauses -/

/-- The printed literals of a clause, read before the literals that stand for nothing are dropped. -/
lemma separated_render {l : Literal} {ls : List Literal} (h : ∀ m ∈ l :: ls, m.Canonical)
    (rest : List Char) :
    Gives (separated .bar literal
        ((Text.join "|" ((l :: ls).map Literal.render)).toList ++ ')' :: rest))
      (l :: ls) (')' :: rest) := by
  refine separated_join FollowsLiteral rfl ?_ ?_ ?_ ⟨')', rest, by simp, rfl⟩ ?_
  · exact fun text => ⟨'|', text, by simp, rfl⟩
  · exact fun m hm => (h m hm).solid
  · exact fun m hm more hmore => literal_render (h m hm) hmore
  · exact takeSymbol_of_begins ⟨')', rest, by decide, rfl⟩

/-- Printed literals are read back as the body of a clause, except for those that stand for nothing. -/
lemma formula_join {l : Literal} {ls : List Literal} (h : ∀ m ∈ l :: ls, m.Canonical)
    (rest : List Char) :
    Gives (formula ((Text.join "|" ((l :: ls).map Literal.render)).toList ++ ')' :: rest))
      ((l :: ls).filter (· ≠ falsum)) (')' :: rest) := by
  have hbegins : Begins (fun c => (Symbol.chars .openParen).head? ≠ some c) l.render.toList := by
    rcases (h l List.mem_cons_self).begins with hword | htilde
    · exact hword.not_symbol (by simp)
    · refine htilde.mono ?_
      rintro c rfl
      decide
  rw [formula, takeSymbol_of_begins ((begins_join "|" hbegins ls).append _)]
  exact (separated_render h rest).bind fun _ => ⟨_, rfl⟩

lemma canonical_falsum : falsum.Canonical where
  word := Or.inl (by decide +kernel)
  args := by simp [falsum]

/-- **The body of a canonical clause is read back.**  An empty clause is printed as the literal that
stands for nothing. -/
theorem formula_render {c : Clause} (h : c.Canonical) (rest : List Char) :
    Gives (formula (c.renderLiterals.toList ++ ')' :: rest)) c.literals (')' :: rest) := by
  obtain ⟨hliterals, hfalsum⟩ : (∀ l ∈ c.literals, l.Canonical) ∧ falsum ∉ c.literals :=
    ⟨h.literals, h.noFalsum⟩
  rw [Clause.renderLiterals, Clause.isEmpty]
  cases hbody : c.literals with
  | nil => exact formula_join (List.forall_mem_singleton.2 canonical_falsum) rest
  | cons l ls =>
      rw [hbody] at hliterals hfalsum
      have hkept : (l :: ls).filter (· ≠ falsum) = l :: ls := by
        rw [List.filter_eq_self]
        intro m hm
        simpa using fun e : m = falsum => hfalsum (e ▸ hm)
      have hread := formula_join hliterals rest
      rwa [hkept] at hread

lemma Clause.Canonical.solid {c : Clause} (h : c.Canonical) : Solid c.renderLiterals.toList := by
  have hliterals := h.literals
  rw [Clause.renderLiterals, Clause.isEmpty]
  cases hbody : c.literals with
  | nil => exact ⟨'$', _, rfl, rfl⟩
  | cons l ls =>
      rw [hbody] at hliterals
      exact begins_join "|" (hliterals l List.mem_cons_self).solid ls

lemma clauseEnd_render (rest : List Char) :
    Gives (clauseEnd (')' :: (Symbol.chars .period ++ rest))) () (skipLayout rest) := by
  have hperiod : Solid (Symbol.chars .period ++ rest) := ⟨'.', rest, rfl, rfl⟩
  rw [clauseEnd, takeSymbol_of_begins ⟨')', _, by decide, rfl⟩]
  refine (takeSymbol_solid .closeParen hperiod).bind fun _ => ?_
  exact (takeSymbol_append .period rest).bind fun _ => ⟨_, rfl⟩

/-- The clause as it is read: the unifier is not printed. -/
def Clause.withoutUnifier (c : Clause) : Clause := { c with unifier := none }

lemma Clause.toList_render (c : Clause) (rest : List Char) :
    c.render.toList ++ rest = Symbol.chars .cnfKeyword ++ (Symbol.chars .openParen
      ++ (c.name.toList ++ (Symbol.chars .comma ++ (c.role.toList ++ (Symbol.chars .comma
        ++ (c.renderLiterals.toList ++ ')' :: (Symbol.chars .period ++ rest))))))) := by
  simp [Clause.render, Symbol.chars]

/-- **A printed clause is read back**, and the layout behind it is skipped. -/
theorem clauseStatement_render {c : Clause} (h : c.Canonical) (rest : List Char) :
    Gives (clauseStatement (c.render.toList ++ rest)) c.withoutUnifier (skipLayout rest) := by
  have hrole : Terminal.role.Accepts c.role ∧ Role.normalize c.role = c.role := by
    have hmem := h.role
    generalize c.role = role at hmem
    fin_cases hmem <;> decide +kernel
  have hmark : ∀ text, EndsWord (Symbol.chars .comma ++ text) :=
    fun text => ⟨',', text, by decide, rfl⟩
  have hread : c.withoutUnifier
      = { literals := c.literals, name := c.name, role := Role.normalize c.role } := by
    rw [hrole.2, Clause.withoutUnifier, h.support, h.rationale]
  rw [c.toList_render, hread, clauseStatement]
  refine (takeSymbol_solid .cnfKeyword ⟨'(', _, by decide, rfl⟩).bind fun _ => ?_
  refine (takeSymbol_solid .openParen (h.name.begins.solid.append _)).bind fun _ => ?_
  refine (h.name.take (hmark _)).bind fun _ => ?_
  refine (takeSymbol_solid .comma (hrole.1.begins.solid.append _)).bind fun _ => ?_
  refine (hrole.1.take (hmark _)).bind fun _ => ?_
  refine (takeSymbol_solid .comma (h.solid.append _)).bind fun _ => ?_
  refine (formula_render h _).bind fun _ => ?_
  exact (clauseEnd_render rest).bind fun _ => ⟨_, rfl⟩

/-! ## Files -/

lemma Clause.begins_render (c : Clause) : Begins (· = 'c') c.render.toList := by
  have htext := c.toList_render []
  rw [List.append_nil] at htext
  exact ⟨'c', _, rfl, htext⟩

lemma skipLayout_render (clauses : List Clause) :
    skipLayout (ClauseSet.render clauses).toList = (ClauseSet.render clauses).toList := by
  cases clauses with
  | nil =>
      rw [ClauseSet.render, List.map_nil, Text.join_nil, String.toList_empty, skipLayout]
  | cons c rest =>
      refine skipLayout_eq_self (begins_join "\n" ?_ rest)
      exact c.begins_render.mono (by rintro d rfl; rfl)

lemma statements_cons {c : Clause} (h : c.Canonical) {rest : List Char} {found : List Statement}
    (hrest : statements (skipLayout rest) = .ok found) :
    statements (c.render.toList ++ rest) = .ok (.clause c.withoutUnifier :: found) := by
  exact statements_of_statement (statement_of_clause (clauseStatement_render h rest)) hrest

/-- **Printed statements are read back.** -/
theorem statements_render {clauses : List Clause} (h : ∀ c ∈ clauses, c.Canonical) :
    statements (ClauseSet.render clauses).toList
      = .ok (clauses.map fun c => .clause c.withoutUnifier) := by
  induction clauses with
  | nil =>
      rw [ClauseSet.render, List.map_nil, Text.join_nil, String.toList_empty, statements]
      rfl
  | cons c rest ih =>
      obtain ⟨hc, hrest⟩ := List.forall_mem_cons.1 h
      cases rest with
      | nil =>
          have htext : (ClauseSet.render [c]).toList = c.render.toList ++ [] := by
            simp [ClauseSet.render]
          rw [htext]
          refine statements_cons hc ?_
          rw [skipLayout, statements]
          rfl
      | cons d ds =>
          have htext : (ClauseSet.render (c :: d :: ds)).toList
              = c.render.toList ++ '\n' :: (ClauseSet.render (d :: ds)).toList := by
            simp [ClauseSet.render]
          have hskip : skipLayout ('\n' :: (ClauseSet.render (d :: ds)).toList)
              = (ClauseSet.render (d :: ds)).toList := by
            rw [skipLayout.eq_def]
            simp [isLayoutBlank, skipLayout_render]
          rw [htext]
          refine statements_cons hc ?_
          rw [hskip]
          exact ih hrest

lemma expand_clauses (tree : Files.Tree) (places : Problem.Places) (base : Option Files.Path)
    (load : Files.Path → Except Problem.LoadError (List Clause)) (clauses : List Clause) :
    Problem.expand tree places base load (clauses.map .clause) = .ok clauses := by
  induction clauses with
  | nil => rfl
  | cons c rest ih =>
      rw [List.map_cons, Problem.expand, ih]
      rfl

/-- **Reading inverts printing.**  Every clause that is read is canonical, and printed canonical clauses
are read back in their order, with their names, roles and literals. -/
theorem reading_inverts_printing (tree : Files.Tree) (places : Problem.Places)
    (base : Option Files.Path) :
    (∀ (text : String) (clauses : List Clause),
      Problem.loadText tree places base text = .ok clauses → ∀ c ∈ clauses, c.Canonical) ∧
    ∀ clauses : List Clause, (∀ c ∈ clauses, c.Canonical) →
      Problem.loadText tree places base (ClauseSet.render clauses)
        = .ok (clauses.map Clause.withoutUnifier) := by
  refine ⟨fun text clauses h => Problem.canonical_of_loadText h, fun clauses h => ?_⟩
  have hread : readStatements (ClauseSet.render clauses)
      = .ok (clauses.map fun c => .clause c.withoutUnifier) := by
    rw [readStatements, readBy, skipLayout_render, statements_render h]
  rw [Problem.loadText, hread]
  have hexpand := expand_clauses tree places base (Problem.load tree places)
    (clauses.map Clause.withoutUnifier)
  rwa [List.map_map] at hexpand

/-- Quoted names with an escaped quote, with comment signs and with a line break, both kinds of
equations, and the empty clause. -/
def intricate : List Clause := [
  { name := "'it\\'s'", role := "axiom",
    literals := [⟨true, "p", [.app "'% no comment'" [], .var "X"]⟩,
      ⟨false, "=", [.var "X", .app "$f" [.var "Y_1"]]⟩] },
  { name := "17", role := "negated_conjecture",
    literals := [⟨false, "$false", []⟩, ⟨true, "=", [.app "a" [], .app "b" []]⟩] },
  { name := "'/*\n.*/'", role := "plain", literals := [] }]

/-- The same clauses in a layout that is not the printed one. -/
def intricateText : String :=
  "cnf('it\\'s', axiom, ( p('% no comment', X) | ~ X = $f(Y_1) | $false ), file('x', [1])).  % remark\n"
    ++ "/* cnf */ cnf(17,negated_conjecture,~$false|~a!=b).cnf('/*\n.*/',lemma,$false)."

theorem intricate_read_back :
    (∀ c ∈ intricate, c.Canonical) ∧
      Problem.loadText {} {} none (ClauseSet.render intricate) = .ok intricate := by
  have hread : Problem.loadText {} {} none intricateText = .ok intricate := by decide +kernel
  have hcanonical := (reading_inverts_printing {} {} none).1 _ _ hread
  exact ⟨hcanonical, (reading_inverts_printing {} {} none).2 _ hcanonical⟩

end GivenClause
