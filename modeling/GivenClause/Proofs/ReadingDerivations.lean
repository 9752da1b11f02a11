import Mathlib
import GivenClause.Proofs.Grammar
import GivenClause.Proofs.Phrases

/-!
# Derivations are read

What the grammar derives, the readers read, and they give what the derivation means.  A reader takes as
much as it can, so there is a condition on what follows: it must not begin with a symbol by which the
phrase might go on.  `Tree.ReadBy` says that a reader reads a derivation in front of every text that
does not begin with one of some symbols; there is one such statement for each reader.

In the grammar a phrase is followed by a symbol that does not continue it, or by nothing.  So the
condition holds wherever a phrase is part of a larger one.
-/

namespace GivenClause.Format

namespace Tree

/-- The reader reads the derivation, and gives what it means, in front of every text that begins with
none of the symbols. -/
def ReadBy {n : Nonterminal} (tree : Tree n)
    (reader : (text : List Char) → Except Place (Taken text n.Value)) (stops : List Symbol) : Prop :=
  ∀ {value : n.Value} {text rest : List Char}, tree.denote = .ok value →
    Spans tree.tokens text rest → LacksAll stops rest → Gives (reader text) value rest

/-! ## Lists -/

/-- **A list is read if its items are**, and if the symbol between them does not continue an item. -/
theorem readBy_separated {n : Nonterminal} {separator : Symbol} {stops : List Symbol}
    {item : (text : List Char) → Except Place (Taken text n.Value)} (hstops : separator ∉ stops)
    (tree : Tree (.several separator n))
    (hitem : ∀ t : Tree n, sizeOf t < sizeOf tree → t.ReadBy item stops) :
    tree.ReadBy (separated separator item) (separator :: stops) := by
  intro values text rest hdenote hspans hrest
  cases tree with
  | one first =>
      obtain ⟨value, hvalue, h⟩ := bind_eq_ok hdenote
      cases h
      have hfirst : first.ReadBy item stops := hitem first (by simp)
      rw [separated]
      refine (hfirst hvalue hspans fun s hs => hrest s (List.mem_cons_of_mem _ hs)).bind fun _ => ?_
      dsimp only
      rw [show takeSymbol separator rest = .error rest from hrest separator List.mem_cons_self]
      exact .pure _
  | more first others =>
      obtain ⟨value, hvalue, h⟩ := bind_eq_ok hdenote
      obtain ⟨values', hvalues, h⟩ := bind_eq_ok h
      cases h
      simp only [tokens, spans_append, spans_cons] at hspans
      obtain ⟨middle, hspans, inner, hmark, hmore⟩ := hspans
      have hfirst : first.ReadBy item stops := hitem first (by simp; omega)
      have hothers := readBy_separated hstops others
        (fun t ht => hitem t (by simp; omega)) hvalues hmore hrest
      rw [separated]
      refine (hfirst hvalue hspans (lacksAll_of_passes hmark hstops)).bind fun _ => ?_
      obtain ⟨_, hmark⟩ := hmark
      dsimp only
      rw [show takeSymbol separator middle = _ from hmark]
      exact hothers.bind fun _ => ⟨_, rfl⟩
termination_by sizeOf tree

/-! ## Terms -/

/-- Terms are read where no bracket follows. -/
theorem readBy_term (tree : Tree .term) : tree.ReadBy Format.term [.openParen] := by
  intro value text rest hdenote hspans hrest
  match tree with
  | .termOfVariable (.variableTerm x) =>
      cases hdenote
      simp only [tokens, spans_cons, spans_nil] at hspans
      obtain ⟨_, htake, rfl⟩ := hspans
      exact term_of_variable htake
  | .termOfFunction (.functionTerm f .absent) =>
      cases hdenote
      simp only [tokens, spans_cons, spans_nil] at hspans
      obtain ⟨_, htake, rfl⟩ := hspans
      exact term_of_functor htake (hrest _ List.mem_cons_self)
  | .termOfFunction (.functionTerm f (.present (.brackets args))) =>
      obtain ⟨found, hfound, h⟩ := bind_eq_ok hdenote
      cases h
      obtain ⟨values, hvalues, h⟩ := bind_eq_ok hfound
      cases h
      simp only [tokens, spans_cons, spans_append, spans_nil] at hspans
      obtain ⟨_, htake, _, hopen, _, hargs, _, hclose, rfl⟩ := hspans
      have hterms := readBy_separated (by simp) args (fun t _ => readBy_term t) hvalues hargs
        (lacksAll_of_passes hclose (by simp))
      rw [← terms_eq_separated] at hterms
      exact term_of_application htake hopen hterms hclose
termination_by sizeOf tree

/-! ## Literals and formulas -/

/-- The symbols that would continue a literal. -/
def literalStops : List Symbol := [.openParen, .equals, .differs]

/-- Both sides of an equation or disequation are read, since their mark is no bracket. -/
lemma readBy_sides {lhs rhs : Tree .term} {l r : Term} {text middle inner rest : List Char}
    {mark : Symbol} (hl : lhs.denote = .ok l) (hr : rhs.denote = .ok r)
    (hlhs : Spans lhs.tokens text middle) (hmark : Passes mark middle inner)
    (hrhs : Spans rhs.tokens inner rest) (hne : mark ≠ .openParen)
    (hrest : LacksAll literalStops rest) :
    Gives (Format.term text) l middle ∧ Gives (Format.term inner) r rest := by
  refine ⟨readBy_term lhs hl hlhs (lacksAll_of_passes hmark (by simpa using hne)),
    readBy_term rhs hr hrhs fun s hs => hrest s ?_⟩
  rw [List.mem_singleton.1 hs]
  exact List.mem_cons_self

/-- Atoms are read behind either sign. -/
lemma signed_of_atom {atom : Tree .atomicFormula} {p : String} {args : List Term}
    {text rest : List Char} (hdenote : atom.denote = .ok (.app p args))
    (hspans : Spans atom.tokens text rest) (hrest : LacksAll literalStops rest) (sign : Bool) :
    Gives (signed sign text) ⟨sign, p, args⟩ rest := by
  match atom with
  | .atomOfEquation (.equation lhs rhs) =>
      obtain ⟨l, hl, h⟩ := bind_eq_ok hdenote
      obtain ⟨r, hr, h⟩ := bind_eq_ok h
      cases h
      simp only [tokens, spans_cons, spans_append] at hspans
      obtain ⟨_, hlhs, _, hmark, hrhs⟩ := hspans
      obtain ⟨hlhs, hrhs⟩ := readBy_sides hl hr hlhs hmark hrhs (by simp) hrest
      exact signed_of_equation hlhs hmark hrhs sign
  | .atomOfFunction function =>
      have hterm : Gives (Format.term text) (.app p args) rest :=
        readBy_term (.termOfFunction function) hdenote hspans fun s hs => hrest s (by
          rw [List.mem_singleton.1 hs]; exact List.mem_cons_self)
      exact signed_of_term hterm (hrest _ (by simp [literalStops])) (hrest _ (by simp [literalStops]))
        sign

/-- Literals are read where nothing follows that would continue their last term. -/
theorem readBy_literal (tree : Tree .literal) : tree.ReadBy Format.literal literalStops := by
  intro value text rest hdenote hspans hrest
  cases tree with
  | positive atom =>
      obtain ⟨t, ht, h⟩ := bind_eq_ok hdenote
      obtain ⟨p, args, rfl⟩ := exists_app_of_denote ht
      cases h
      have hsigned := signed_of_atom ht hspans hrest true
      rwa [literal_of_beginsWord (beginsWord_of_signed hsigned)]
  | negative atom =>
      obtain ⟨t, ht, h⟩ := bind_eq_ok hdenote
      obtain ⟨p, args, rfl⟩ := exists_app_of_denote ht
      cases h
      simp only [tokens, spans_cons] at hspans
      obtain ⟨_, htilde, hspans⟩ := hspans
      exact literal_of_tilde htilde (signed_of_atom ht hspans hrest false)
  | disequation lhs rhs =>
      obtain ⟨l, hl, h⟩ := bind_eq_ok hdenote
      obtain ⟨r, hr, h⟩ := bind_eq_ok h
      cases h
      simp only [tokens, spans_cons, spans_append] at hspans
      obtain ⟨_, hlhs, _, hmark, hrhs⟩ := hspans
      obtain ⟨hlhs, hrhs⟩ := readBy_sides hl hr hlhs hmark hrhs (by simp) hrest
      rw [literal_of_beginsWord (beginsWord_of_term hlhs)]
      exact signed_of_disequation hlhs hmark hrhs true
  | negatedDisequation lhs rhs =>
      obtain ⟨l, hl, h⟩ := bind_eq_ok hdenote
      obtain ⟨r, hr, h⟩ := bind_eq_ok h
      cases h
      simp only [tokens, spans_cons, spans_append] at hspans
      obtain ⟨_, htilde, _, hlhs, _, hmark, hrhs⟩ := hspans
      obtain ⟨hlhs, hrhs⟩ := readBy_sides hl hr hlhs hmark hrhs (by simp) hrest
      exact literal_of_tilde htilde (signed_of_disequation hlhs hmark hrhs false)

/-- The symbols that would continue a disjunction. -/
def formulaStops : List Symbol := .bar :: literalStops

theorem readBy_disjunction (tree : Tree .disjunction) :
    tree.ReadBy Format.disjunction formulaStops := by
  intro value text rest hdenote hspans hrest
  cases tree with
  | disjunction literals =>
      obtain ⟨ls, hls, h⟩ := bind_eq_ok hdenote
      cases h
      have hread := readBy_separated (by simp [literalStops]) literals
        (fun t _ => readBy_literal t) hls hspans hrest
      exact hread.bind fun _ => ⟨_, rfl⟩

/-- Formulas are read where no literal follows. -/
theorem readBy_formula (tree : Tree .formula) : tree.ReadBy Format.formula formulaStops := by
  intro value text rest hdenote hspans hrest
  match tree with
  | .bare body =>
      have hread := readBy_disjunction body hdenote hspans hrest
      rwa [Format.formula, show takeSymbol .openParen text = _ from lacks_of_disjunction hread]
  | .inBrackets (.brackets body) =>
      simp only [tokens, spans_cons, spans_append, spans_nil] at hspans
      obtain ⟨_, ⟨_, hopen⟩, _, hbody, _, hclose, rfl⟩ := hspans
      have hread := readBy_disjunction body hdenote hbody
        (lacksAll_of_passes hclose (by simp [formulaStops, literalStops]))
      rw [Format.formula, show takeSymbol .openParen text = _ from hopen]
      exact hread.bind fun _ => hclose.bind fun _ => ⟨_, rfl⟩

/-! ## Annotations -/

/-- Annotations are read if each of them is, in front of a symbol that ends their list. -/
lemma generalTerms_of_trees {items : Tree (.several .comma .generalTerm)}
    (hitem : ∀ t : Tree .generalTerm, sizeOf t < sizeOf items → t.ReadBy generalTerm [.openParen])
    {text middle rest : List Char} {mark : Symbol} (hspans : Spans items.tokens text middle)
    (hclose : Passes mark middle rest) (hmark : mark ∉ [Symbol.comma, Symbol.openParen]) :
    Gives (Format.generalTerms text) () middle := by
  obtain ⟨values, hvalues⟩ := items.exists_denote
  have hread := readBy_separated (by simp) items hitem hvalues hspans
    (lacksAll_of_passes hclose hmark)
  rw [generalTerms_eq_separated]
  exact hread.bind fun _ => ⟨_, rfl⟩

/-- Annotations are read where no bracket follows. -/
theorem readBy_generalTerm (tree : Tree .generalTerm) : tree.ReadBy generalTerm [.openParen] := by
  intro value text rest hdenote hspans hrest
  match tree with
  | .generalOfData (.dataVariable w) =>
      simp only [tokens, spans_cons, spans_nil] at hspans
      obtain ⟨_, htake, rfl⟩ := hspans
      exact generalTerm_of_plainData (take_mono (by simp) htake)
  | .generalOfData (.dataInteger w) =>
      simp only [tokens, spans_cons, spans_nil] at hspans
      obtain ⟨_, htake, rfl⟩ := hspans
      exact generalTerm_of_plainData (take_mono (by simp) htake)
  | .generalOfData (.dataWord w .absent) =>
      simp only [tokens, spans_cons, spans_nil] at hspans
      obtain ⟨_, htake, rfl⟩ := hspans
      exact generalTerm_of_word htake (hrest _ List.mem_cons_self)
  | .generalOfData (.dataWord w (.present (.brackets args))) =>
      simp only [tokens, spans_cons, spans_append, spans_nil] at hspans
      obtain ⟨_, htake, _, hopen, _, hargs, _, hclose, rfl⟩ := hspans
      have hread := generalTerms_of_trees (fun t _ => readBy_generalTerm t) hargs hclose (by simp)
      exact generalTerm_of_application htake hopen hread hclose
  | .generalOfList (.generalList .absent) =>
      simp only [tokens, spans_cons, spans_append, spans_nil] at hspans
      obtain ⟨_, hopen, _, rfl, _, hclose, rfl⟩ := hspans
      exact generalTerm_of_emptyList hopen hclose
  | .generalOfList (.generalList (.present items)) =>
      simp only [tokens, spans_cons, spans_append, spans_nil] at hspans
      obtain ⟨_, hopen, _, hitems, _, hclose, rfl⟩ := hspans
      have hread := generalTerms_of_trees (fun t _ => readBy_generalTerm t) hitems hclose (by simp)
      exact generalTerm_of_list hopen hread hclose
termination_by sizeOf tree

/-! ## Statements -/

lemma clauseEnd_of_tree {notes : Tree (.optional .annotations)} {text middle inner rest : List Char}
    (hspans : Spans notes.tokens text middle) (hclose : Passes .closeParen middle inner)
    (hperiod : Passes .period inner rest) : Gives (clauseEnd text) () rest := by
  match notes with
  | .absent =>
      obtain rfl := spans_nil.1 hspans
      rw [clauseEnd, show takeSymbol .comma text = _ from lacks_of_passes hclose (by simp)]
      exact closing_of_passes hclose hperiod
  | .present (.annotations items) =>
      simp only [tokens, spans_cons] at hspans
      obtain ⟨_, ⟨_, hmark⟩, hitems⟩ := hspans
      have hread := generalTerms_of_trees (fun t _ => readBy_generalTerm t) hitems hclose (by simp)
      rw [clauseEnd, show takeSymbol .comma text = _ from hmark]
      exact hread.bind fun _ => (closing_of_passes hclose hperiod).bind fun _ => ⟨_, rfl⟩

/-- What follows a formula does not continue it. -/
lemma lacksAll_of_notes {notes : Tree (.optional .annotations)} {text middle inner : List Char}
    (hspans : Spans notes.tokens text middle) (hclose : Passes .closeParen middle inner) :
    LacksAll formulaStops text := by
  match notes with
  | .absent =>
      obtain rfl := spans_nil.1 hspans
      exact lacksAll_of_passes hclose (by simp [formulaStops, literalStops])
  | .present (.annotations items) =>
      simp only [tokens, spans_cons] at hspans
      obtain ⟨_, hmark, -⟩ := hspans
      exact lacksAll_of_passes hmark (by simp [formulaStops, literalStops])

/-- Clause statements are read whatever follows them. -/
theorem readBy_clauseStatement (tree : Tree .clause) : tree.ReadBy clauseStatement [] := by
  intro value text rest hdenote hspans _
  cases tree with
  | clause label role body notes =>
      obtain ⟨literals, hliterals, h⟩ := bind_eq_ok hdenote
      cases h
      simp only [tokens, spans_cons, spans_append, spans_nil] at hspans
      obtain ⟨_, hkeyword, _, hopen, _, hname, _, hmark, _, hrole, _, hmark', _, hbody, _, hnotes,
        _, hclose, _, hperiod, rfl⟩ := hspans
      have hformula := readBy_formula body hliterals hbody (lacksAll_of_notes hnotes hclose)
      exact hkeyword.bind fun _ => hopen.bind fun _ => hname.bind fun _ => hmark.bind fun _ =>
        hrole.bind fun _ => hmark'.bind fun _ => hformula.bind fun _ =>
          (clauseEnd_of_tree hnotes hclose hperiod).bind fun _ => ⟨_, rfl⟩

lemma readBy_name (tree : Tree .name) : tree.ReadBy (take .name) [] := by
  intro value text rest hdenote hspans _
  cases tree with
  | name word =>
      cases hdenote
      simp only [tokens, spans_cons, spans_nil] at hspans
      obtain ⟨_, htake, rfl⟩ := hspans
      exact htake

lemma inclusionEnd_of_tree {chosen : Tree (.optional .selection)} {names : Option (List String)}
    {text middle inner rest : List Char} (hdenote : chosen.denote = .ok names)
    (hspans : Spans chosen.tokens text middle) (hclose : Passes .closeParen middle inner)
    (hperiod : Passes .period inner rest) : Gives (inclusionEnd text) names rest := by
  match chosen with
  | .absent =>
      cases hdenote
      obtain rfl := spans_nil.1 hspans
      rw [inclusionEnd, show takeSymbol .comma text = _ from lacks_of_passes hclose (by simp)]
      exact (closing_of_passes hclose hperiod).bind fun _ => ⟨_, rfl⟩
  | .present (.selection words) =>
      obtain ⟨values, hvalues, h⟩ := bind_eq_ok hdenote
      cases h
      simp only [tokens, spans_cons, spans_append, spans_nil] at hspans
      obtain ⟨_, ⟨_, hmark⟩, _, hopen, _, hnames, _, hbracket, rfl⟩ := hspans
      have hread := readBy_separated (by simp) words (fun t _ => readBy_name t)
        hvalues hnames (lacksAll_of_passes hbracket (by simp))
      rw [inclusionEnd, show takeSymbol .comma text = _ from hmark]
      exact hopen.bind fun _ => hread.bind fun _ => hbracket.bind fun _ =>
        (closing_of_passes hclose hperiod).bind fun _ => ⟨_, rfl⟩

/-- Inclusions are read whatever follows them. -/
theorem readBy_inclusion (tree : Tree .inclusion) : tree.ReadBy Format.inclusion [] := by
  intro value text rest hdenote hspans _
  cases tree with
  | inclusion file chosen =>
      obtain ⟨names, hnames, h⟩ := bind_eq_ok hdenote
      cases h
      simp only [tokens, spans_cons, spans_append, spans_nil] at hspans
      obtain ⟨_, hkeyword, _, hopen, _, hfile, _, hchosen, _, hclose, _, hperiod, rfl⟩ := hspans
      exact hkeyword.bind fun _ => hopen.bind fun _ => hfile.bind fun _ =>
        (inclusionEnd_of_tree hnames hchosen hclose hperiod).bind fun _ => ⟨_, rfl⟩

/-- **Whole files are read.** -/
theorem statements_of_tree (tree : Tree .file) {found : List Statement} {text : List Char}
    (hdenote : tree.denote = .ok found) (hspans : Spans tree.tokens text []) :
    statements text = .ok found := by
  match tree with
  | .endOfFile =>
      cases hdenote
      obtain rfl := spans_nil.1 hspans
      rw [statements]
      rfl
  | .thenClause first others =>
      obtain ⟨c, hc, h⟩ := bind_eq_ok hdenote
      obtain ⟨more, hmore, h⟩ := bind_eq_ok h
      cases h
      simp only [tokens, spans_append] at hspans
      obtain ⟨middle, hfirst, hothers⟩ := hspans
      have hread := readBy_clauseStatement first hc hfirst fun _ hs => absurd hs List.not_mem_nil
      exact statements_of_statement (statement_of_clause hread) (statements_of_tree others hmore hothers)
  | .thenInclusion first others =>
      obtain ⟨s, hs, h⟩ := bind_eq_ok hdenote
      obtain ⟨more, hmore, h⟩ := bind_eq_ok h
      cases h
      simp only [tokens, spans_append] at hspans
      obtain ⟨middle, hfirst, hothers⟩ := hspans
      have hread := readBy_inclusion first hs hfirst fun _ hs => absurd hs List.not_mem_nil
      exact statements_of_statement (statement_of_inclusion hread)
        (statements_of_tree others hmore hothers)
termination_by sizeOf tree

end Tree

end GivenClause.Format
