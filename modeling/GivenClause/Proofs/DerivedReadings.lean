import Mathlib
import GivenClause.Format.Read
import GivenClause.Proofs.ReadingDerivations

/-!
# The reader and the grammar

Every reader gives what some derivation of the text it takes means (`Derived`): the choices it makes are
alternatives of the rules.  Together with the converse this makes reading and the grammar the same.

* `Start.read_eq_ok_iff`: a text is read if and only if it is derived, and with the same meaning.
* Hence all derivations of a text mean the same, and since tokens may be written with any layout between
  them, what a text means depends on its lexemes only.

`grammar_read_unambiguously` collects this for the four phrases that can be read.
-/

namespace GivenClause.Format

/-- A derivation of what stands between the first text and the second means this value. -/
def Derived (n : Nonterminal) (text : List Char) (value : n.Value) (rest : List Char) : Prop :=
  ∃ tree : Tree n, tree.denote = .ok value ∧ Spans tree.tokens text rest

lemma gives_of_ok {text : List Char} {α : Type} {x : Except Place (Taken text α)} {r : Taken text α}
    (h : x = .ok r) : Gives x r.value r.rest := ⟨r.shorter, h⟩

/-! ## Lists -/

/-- A list of derived items is derived.  Only texts that are no longer than the whole have to be
considered. -/
lemma derived_of_separated {n : Nonterminal} {separator : Symbol}
    {item : (text : List Char) → Except Place (Taken text n.Value)} {text : List Char}
    {r : Taken text (List n.Value)}
    (hitem : ∀ part : List Char, part.length ≤ text.length →
      ∀ a : Taken part n.Value, item part = .ok a → Derived n part a.value a.rest)
    (h : separated separator item text = .ok r) :
    Derived (.several separator n) text r.value r.rest := by
  rw [separated] at h
  obtain ⟨first, hfirst, h⟩ := bind_eq_ok h
  obtain ⟨tree, hdenote, hspans⟩ := hitem text le_rfl first hfirst
  split at h
  · cases h
    exact ⟨.one tree, by rw [Tree.denote, hdenote]; rfl, hspans⟩
  · rename_i mark hmark
    obtain ⟨more, hmore, h⟩ := bind_eq_ok h
    cases h
    have hshorter : mark.rest.length < text.length := mark.shorter.trans first.shorter
    obtain ⟨trees, hdenotes, hspans'⟩ :=
      derived_of_separated (fun part hpart => hitem part (hpart.trans hshorter.le)) hmore
    refine ⟨.more tree trees, by rw [Tree.denote, hdenote, hdenotes]; rfl, ?_⟩
    exact spans_append.2 ⟨_, hspans, spans_cons.2 ⟨_, passes_of_ok hmark, hspans'⟩⟩
termination_by text.length

/-! ## Terms -/

theorem derived_of_term {text : List Char} {r : Taken text Term} (h : term text = .ok r) :
    Derived .term text r.value r.rest := by
  rw [term] at h
  split at h
  · rename_i x hx
    cases h
    exact ⟨.termOfVariable (.variableTerm x.value), rfl,
      spans_cons.2 ⟨_, gives_of_ok hx, spans_nil.2 rfl⟩⟩
  · obtain ⟨f, hf, h⟩ := bind_eq_ok h
    split at h
    · cases h
      exact ⟨.termOfFunction (.functionTerm f.value .absent), rfl,
        spans_cons.2 ⟨_, gives_of_ok hf, spans_nil.2 rfl⟩⟩
    · rename_i opening hopening
      obtain ⟨args, hargs, h⟩ := bind_eq_ok h
      obtain ⟨closing, hclosing, h⟩ := bind_eq_ok h
      cases h
      rw [terms_eq_separated] at hargs
      have hshorter : opening.rest.length < text.length := opening.shorter.trans f.shorter
      obtain ⟨trees, hdenotes, hspans⟩ : Derived (.several .comma .term) _ args.value args.rest :=
        derived_of_separated (fun part hpart a ha => by
          have hpart : part.length < text.length := hpart.trans_lt hshorter
          exact derived_of_term ha) hargs
      refine ⟨.termOfFunction (.functionTerm f.value (.present (.brackets trees))), ?_, ?_⟩
      · simp [Tree.denote, hdenotes, bind, Except.bind, pure, Except.pure, Taken.as]
      · simp only [Tree.tokens, spans_cons, spans_append, spans_nil]
        exact ⟨_, gives_of_ok hf, _, passes_of_ok hopening, _, hspans, _, passes_of_ok hclosing, rfl⟩
termination_by text.length

/-! ## Literals and formulas -/

/-- What is read behind a sign is an atom, or a disequation, which turns the sign around. -/
lemma derived_of_signed {sign : Bool} {text : List Char} {r : Taken text Literal}
    (h : signed sign text = .ok r) :
    (∃ atom : Tree .atomicFormula, atom.denote >>= Literal.ofTerm sign = .ok r.value ∧
      Spans atom.tokens text r.rest) ∨
    ∃ lhs rhs : Tree .term,
      (do Literal.ofTerm (!sign) (equated (← lhs.denote) (← rhs.denote))) = .ok r.value ∧
      Spans (lhs.tokens ++ .symbol .differs :: rhs.tokens) text r.rest := by
  rw [signed] at h
  obtain ⟨lhs, hlhs, h⟩ := bind_eq_ok h
  obtain ⟨left, hleft, hspans⟩ := derived_of_term hlhs
  split at h
  · rename_i mark hmark
    obtain ⟨rhs, hrhs, h⟩ := bind_eq_ok h
    obtain ⟨right, hright, hspans'⟩ := derived_of_term hrhs
    cases h
    refine .inl ⟨.atomOfEquation (.equation left right), ?_, ?_⟩
    · rw [Tree.denote, Tree.denote, hleft, hright]
      rfl
    · exact spans_append.2 ⟨_, hspans, spans_cons.2 ⟨_, passes_of_ok hmark, hspans'⟩⟩
  · split at h
    · rename_i mark hmark
      obtain ⟨rhs, hrhs, h⟩ := bind_eq_ok h
      obtain ⟨right, hright, hspans'⟩ := derived_of_term hrhs
      cases h
      refine .inr ⟨left, right, ?_, ?_⟩
      · rw [hleft, hright]
        rfl
      · exact spans_append.2 ⟨_, hspans, spans_cons.2 ⟨_, passes_of_ok hmark, hspans'⟩⟩
    · split at h
      · rename_i p args hvalue
        cases h
        rw [hvalue] at hleft
        -- A term that is no variable is a function term, and so an atom.
        cases left with
        | termOfVariable x =>
            cases x
            cases hleft
        | termOfFunction function =>
            refine .inl ⟨.atomOfFunction function, ?_, hspans⟩
            rw [Tree.denote, show function.denote = _ from hleft]
            rfl
      · cases h

theorem derived_of_literal {text : List Char} {r : Taken text Literal} (h : literal text = .ok r) :
    Derived .literal text r.value r.rest := by
  rw [literal] at h
  split at h
  · rename_i mark hmark
    obtain ⟨l, hl, h⟩ := bind_eq_ok h
    cases h
    rcases derived_of_signed hl with ⟨atom, hdenote, hspans⟩ | ⟨lhs, rhs, hdenote, hspans⟩
    · exact ⟨.negative atom, hdenote, spans_cons.2 ⟨_, passes_of_ok hmark, hspans⟩⟩
    · exact ⟨.negatedDisequation lhs rhs, hdenote, spans_cons.2 ⟨_, passes_of_ok hmark, hspans⟩⟩
  · rcases derived_of_signed h with ⟨atom, hdenote, hspans⟩ | ⟨lhs, rhs, hdenote, hspans⟩
    · exact ⟨.positive atom, hdenote, hspans⟩
    · exact ⟨.disequation lhs rhs, hdenote, hspans⟩

lemma derived_of_disjunction {text : List Char} {r : Taken text (List Literal)}
    (h : disjunction text = .ok r) : Derived .disjunction text r.value r.rest := by
  obtain ⟨ls, hls, h⟩ := bind_eq_ok h
  cases h
  obtain ⟨trees, hdenotes, hspans⟩ : Derived (.several .bar .literal) _ ls.value ls.rest :=
    derived_of_separated (fun _ _ _ ha => derived_of_literal ha) hls
  exact ⟨.disjunction trees, by rw [Tree.denote, hdenotes]; rfl, hspans⟩

lemma derived_of_formula {text : List Char} {r : Taken text (List Literal)}
    (h : formula text = .ok r) : Derived .formula text r.value r.rest := by
  rw [formula] at h
  split at h
  · rename_i opening hopening
    obtain ⟨ls, hls, h⟩ := bind_eq_ok h
    obtain ⟨closing, hclosing, h⟩ := bind_eq_ok h
    cases h
    obtain ⟨body, hdenote, hspans⟩ := derived_of_disjunction hls
    refine ⟨.inBrackets (.brackets body), hdenote, ?_⟩
    simp only [Tree.tokens, spans_cons, spans_append, spans_nil]
    exact ⟨_, passes_of_ok hopening, _, hspans, _, passes_of_ok hclosing, rfl⟩
  · obtain ⟨body, hdenote, hspans⟩ := derived_of_disjunction h
    exact ⟨.bare body, hdenote, hspans⟩

/-! ## Annotations -/

/-- Annotations are derived if each of them is.  Only texts that are no longer than the whole have to
be considered. -/
lemma derived_of_generalTerms {text : List Char} {r : Taken text Unit}
    (hitem : ∀ part : List Char, part.length ≤ text.length →
      ∀ a : Taken part Unit, generalTerm part = .ok a → Derived .generalTerm part a.value a.rest)
    (h : generalTerms text = .ok r) :
    ∃ items : Tree (.several .comma .generalTerm), Spans items.tokens text r.rest := by
  rw [generalTerms_eq_separated] at h
  obtain ⟨list, hlist, h⟩ := bind_eq_ok h
  cases h
  obtain ⟨items, -, hspans⟩ : Derived (.several .comma .generalTerm) _ list.value list.rest :=
    derived_of_separated hitem hlist
  exact ⟨items, hspans⟩

/-- A variable or a number of an annotation. -/
lemma derived_of_plainData {text rest : List Char} {w : String}
    (h : Gives (take .plainData text) w rest) : Derived .generalTerm text () rest := by
  obtain ⟨kind, hkind, after, hscan, rfl⟩ := scan_of_take_word h
  have hone : Gives (take (.word [kind]) text) w (skipLayout after) :=
    take_word_of_scan List.mem_cons_self hscan
  rcases List.mem_pair.1 hkind with rfl | rfl
  · exact ⟨.generalOfData (.dataVariable w), rfl, spans_cons.2 ⟨_, hone, spans_nil.2 rfl⟩⟩
  · exact ⟨.generalOfData (.dataInteger w), rfl, spans_cons.2 ⟨_, hone, spans_nil.2 rfl⟩⟩

theorem derived_of_generalTerm {text : List Char} {r : Taken text Unit}
    (h : generalTerm text = .ok r) : Derived .generalTerm text () r.rest := by
  rw [generalTerm] at h
  split at h
  · rename_i w hw
    cases h
    exact derived_of_plainData (gives_of_ok hw)
  · split at h
    · rename_i opening hopening
      split at h
      · rename_i closing hclosing
        cases h
        refine ⟨.generalOfList (.generalList .absent), rfl, ?_⟩
        simp only [Tree.tokens, spans_cons, spans_append, spans_nil]
        exact ⟨_, passes_of_ok hopening, _, rfl, _, passes_of_ok hclosing, rfl⟩
      · obtain ⟨list, hlist, h⟩ := bind_eq_ok h
        obtain ⟨closing, hclosing, h⟩ := bind_eq_ok h
        cases h
        have hshorter : opening.rest.length < text.length := opening.shorter
        obtain ⟨items, hspans⟩ := derived_of_generalTerms (fun part hpart a ha => by
          have hpart : part.length < text.length := hpart.trans_lt hshorter
          exact derived_of_generalTerm ha) hlist
        refine ⟨.generalOfList (.generalList (.present items)), rfl, ?_⟩
        simp only [Tree.tokens, spans_cons, spans_append, spans_nil]
        exact ⟨_, passes_of_ok hopening, _, hspans, _, passes_of_ok hclosing, rfl⟩
    · obtain ⟨w, hw, h⟩ := bind_eq_ok h
      split at h
      · cases h
        exact ⟨.generalOfData (.dataWord w.value .absent), rfl,
          spans_cons.2 ⟨_, gives_of_ok hw, spans_nil.2 rfl⟩⟩
      · rename_i opening hopening
        obtain ⟨args, hargs, h⟩ := bind_eq_ok h
        obtain ⟨closing, hclosing, h⟩ := bind_eq_ok h
        cases h
        have hshorter : opening.rest.length < text.length := opening.shorter.trans w.shorter
        obtain ⟨items, hspans⟩ := derived_of_generalTerms (fun part hpart a ha => by
          have hpart : part.length < text.length := hpart.trans_lt hshorter
          exact derived_of_generalTerm ha) hargs
        refine ⟨.generalOfData (.dataWord w.value (.present (.brackets items))), rfl, ?_⟩
        simp only [Tree.tokens, spans_cons, spans_append, spans_nil]
        exact ⟨_, gives_of_ok hw, _, passes_of_ok hopening, _, hspans, _, passes_of_ok hclosing, rfl⟩
termination_by text.length

/-! ## Statements -/

lemma spans_of_closing {text : List Char} {r : Taken text Unit} (h : closing text = .ok r) :
    Spans [.symbol .closeParen, .symbol .period] text r.rest := by
  obtain ⟨bracket, hbracket, h⟩ := bind_eq_ok h
  obtain ⟨period, hperiod, h⟩ := bind_eq_ok h
  cases h
  simp only [spans_cons, spans_nil]
  exact ⟨_, passes_of_ok hbracket, _, passes_of_ok hperiod, rfl⟩

lemma derived_of_clauseEnd {text : List Char} {r : Taken text Unit} (h : clauseEnd text = .ok r) :
    ∃ notes : Tree (.optional .annotations),
      Spans (notes.tokens ++ [.symbol .closeParen, .symbol .period]) text r.rest := by
  rw [clauseEnd] at h
  split at h
  · exact ⟨.absent, spans_of_closing h⟩
  · rename_i mark hmark
    obtain ⟨list, hlist, h⟩ := bind_eq_ok h
    obtain ⟨close, hclose, h⟩ := bind_eq_ok h
    cases h
    obtain ⟨items, hspans⟩ :=
      derived_of_generalTerms (fun _ _ _ ha => derived_of_generalTerm ha) hlist
    refine ⟨.present (.annotations items), spans_cons.2 ⟨_, passes_of_ok hmark, ?_⟩⟩
    exact spans_append.2 ⟨_, hspans, spans_of_closing hclose⟩

theorem derived_of_clauseStatement {text : List Char} {r : Taken text Clause}
    (h : clauseStatement text = .ok r) : Derived .clause text r.value r.rest := by
  obtain ⟨keyword, hkeyword, h⟩ := bind_eq_ok h
  obtain ⟨opening, hopening, h⟩ := bind_eq_ok h
  obtain ⟨name, hname, h⟩ := bind_eq_ok h
  obtain ⟨mark, hmark, h⟩ := bind_eq_ok h
  obtain ⟨role, hrole, h⟩ := bind_eq_ok h
  obtain ⟨mark', hmark', h⟩ := bind_eq_ok h
  obtain ⟨body, hbody, h⟩ := bind_eq_ok h
  obtain ⟨close, hclose, h⟩ := bind_eq_ok h
  cases h
  obtain ⟨formula, hdenote, hspans⟩ := derived_of_formula hbody
  obtain ⟨notes, hend⟩ := derived_of_clauseEnd hclose
  refine ⟨.clause name.value role.value formula notes, by rw [Tree.denote, hdenote]; rfl, ?_⟩
  rw [Tree.tokens]
  simp only [spans_cons]
  exact ⟨_, passes_of_ok hkeyword, _, passes_of_ok hopening, _, gives_of_ok hname, _,
    passes_of_ok hmark, _, gives_of_ok hrole, _, passes_of_ok hmark', spans_append.2 ⟨_, hspans, hend⟩⟩

lemma derived_of_name {text : List Char} {r : Taken text String} (h : take .name text = .ok r) :
    Derived .name text r.value r.rest :=
  ⟨.name r.value, rfl, spans_cons.2 ⟨_, gives_of_ok h, spans_nil.2 rfl⟩⟩

lemma derived_of_inclusionEnd {text : List Char} {r : Taken text (Option (List String))}
    (h : inclusionEnd text = .ok r) :
    ∃ chosen : Tree (.optional .selection), chosen.denote = .ok r.value ∧
      Spans (chosen.tokens ++ [.symbol .closeParen, .symbol .period]) text r.rest := by
  rw [inclusionEnd] at h
  split at h
  · obtain ⟨close, hclose, h⟩ := bind_eq_ok h
    cases h
    exact ⟨.absent, rfl, spans_of_closing hclose⟩
  · rename_i mark hmark
    obtain ⟨opening, hopening, h⟩ := bind_eq_ok h
    obtain ⟨names, hnames, h⟩ := bind_eq_ok h
    obtain ⟨bracket, hbracket, h⟩ := bind_eq_ok h
    obtain ⟨close, hclose, h⟩ := bind_eq_ok h
    cases h
    obtain ⟨words, hdenote, hspans⟩ : Derived (.several .comma .name) _ names.value names.rest :=
      derived_of_separated (fun _ _ _ ha => derived_of_name ha) hnames
    refine ⟨.present (.selection words), ?_, ?_⟩
    · rw [Tree.denote, Tree.denote, hdenote]
      rfl
    · refine spans_append.2 ⟨bracket.rest, ?_, spans_of_closing hclose⟩
      simp only [Tree.tokens, spans_cons, spans_append, spans_nil]
      exact ⟨_, passes_of_ok hmark, _, passes_of_ok hopening, _, hspans, _, passes_of_ok hbracket,
        rfl⟩

theorem derived_of_inclusion {text : List Char} {r : Taken text Statement}
    (h : inclusion text = .ok r) : Derived .inclusion text r.value r.rest := by
  obtain ⟨keyword, hkeyword, h⟩ := bind_eq_ok h
  obtain ⟨opening, hopening, h⟩ := bind_eq_ok h
  obtain ⟨file, hfile, h⟩ := bind_eq_ok h
  obtain ⟨rest, hrest, h⟩ := bind_eq_ok h
  cases h
  obtain ⟨chosen, hdenote, hend⟩ := derived_of_inclusionEnd hrest
  refine ⟨.inclusion file.value chosen, by rw [Tree.denote, hdenote]; rfl, ?_⟩
  rw [Tree.tokens]
  simp only [spans_cons]
  exact ⟨_, passes_of_ok hkeyword, _, passes_of_ok hopening, _, gives_of_ok hfile, hend⟩

/-- **What is read of a file is derived.** -/
theorem derived_of_statements {text : List Char} {found : List Statement}
    (h : statements text = .ok found) : Derived .file text found [] := by
  rw [statements] at h
  split_ifs at h with hempty
  · cases h
    exact ⟨.endOfFile, rfl, spans_nil.2 (List.isEmpty_iff.1 hempty)⟩
  · obtain ⟨first, hfirst, h⟩ := bind_eq_ok h
    obtain ⟨more, hmore, h⟩ := bind_eq_ok h
    cases h
    have hshorter := first.shorter
    obtain ⟨rest, hdenote, hspans⟩ := derived_of_statements hmore
    rw [statement] at hfirst
    split at hfirst
    · obtain ⟨tree, htree, hspans'⟩ := derived_of_inclusion hfirst
      exact ⟨.thenInclusion tree rest, by rw [Tree.denote, htree, hdenote]; rfl,
        spans_append.2 ⟨_, hspans', hspans⟩⟩
    · obtain ⟨c, hc, hfirst⟩ := bind_eq_ok hfirst
      obtain ⟨tree, htree, hspans'⟩ := derived_of_clauseStatement hc
      cases hfirst
      exact ⟨.thenClause tree rest, by rw [Tree.denote, htree, hdenote]; rfl,
        spans_append.2 ⟨_, hspans', hspans⟩⟩
termination_by text.length

/-! ## Whole texts -/

/-- The phrases that a text can be read as. -/
inductive Start where
  | file
  | clause
  | literal
  | term

namespace Start

/-- The rule that derives the phrase. -/
@[reducible]
def nonterminal : Start → Nonterminal
  | file => .file
  | clause => .clause
  | literal => .literal
  | term => .singleTerm

/-- Read a text as the phrase. -/
def read : (start : Start) → String → Except ReadError start.nonterminal.Value
  | file => readStatements
  | clause => readClause
  | literal => readLiteral
  | term => readTerm

end Start

lemma readBy_eq_ok_iff {α : Type} {read : List Char → Except Place α} {text : String} {value : α} :
    readBy read text = .ok value ↔ read text.toList = .ok value := by
  rw [readBy]
  cases read text.toList with
  | ok found => simp
  | error rest => simp

lemma whole_eq_ok_iff {α : Type} {phrase : (text : List Char) → Except Place (Taken text α)}
    {text : List Char} {value : α} :
    whole phrase text = .ok value ↔ Gives (phrase (skipLayout text)) value [] := by
  constructor
  · intro h
    obtain ⟨found, hfound, h⟩ := bind_eq_ok h
    split_ifs at h with hempty
    cases h
    rw [← List.isEmpty_iff.1 hempty]
    exact gives_of_ok hfound
  · rintro ⟨shorter, h⟩
    rw [whole, h]
    rfl

/-- A reader that is right about a phrase reads the texts that consist of it. -/
lemma whole_eq_ok_iff_derived {n : Nonterminal}
    {phrase : (text : List Char) → Except Place (Taken text n.Value)} {stops : List Symbol}
    (hsound : ∀ {text} {r : Taken text n.Value}, phrase text = .ok r →
      Derived n text r.value r.rest)
    (hcomplete : ∀ tree : Tree n, tree.ReadBy phrase stops) {text : List Char} {value : n.Value} :
    whole phrase text = .ok value ↔
      ∃ tree : Tree n, Spelled tree.tokens text ∧ tree.denote = .ok value := by
  rw [whole_eq_ok_iff]
  constructor
  · rintro ⟨shorter, h⟩
    obtain ⟨tree, hdenote, hspans⟩ := hsound h
    exact ⟨tree, spelled_iff_spans.2 hspans, hdenote⟩
  · rintro ⟨tree, hspelled, hdenote⟩
    exact hcomplete tree hdenote (spelled_iff_spans.1 hspelled) (fun s _ => lacks_nil s)

/-- **A text is read if and only if the grammar derives it**, and the result is what the derivation
means. -/
theorem Start.read_eq_ok_iff (start : Start) {text : String} {value : start.nonterminal.Value} :
    start.read text = .ok value ↔
      ∃ tree : Tree start.nonterminal, Spelled tree.tokens text.toList ∧
        tree.denote = .ok value := by
  cases start with
  | file =>
      have hread : file.read text = .ok value ↔ statements (skipLayout text.toList) = .ok value :=
        @readBy_eq_ok_iff _ (fun cs => statements (skipLayout cs)) text value
      rw [hread]
      constructor
      · intro h
        obtain ⟨tree, hdenote, hspans⟩ := derived_of_statements h
        exact ⟨tree, spelled_iff_spans.2 hspans, hdenote⟩
      · rintro ⟨tree, hspelled, hdenote⟩
        exact Tree.statements_of_tree tree hdenote (spelled_iff_spans.1 hspelled)
  | clause =>
      exact readBy_eq_ok_iff.trans
        (whole_eq_ok_iff_derived derived_of_clauseStatement Tree.readBy_clauseStatement)
  | literal =>
      exact readBy_eq_ok_iff.trans (whole_eq_ok_iff_derived derived_of_literal Tree.readBy_literal)
  | term =>
      refine readBy_eq_ok_iff.trans
        ((whole_eq_ok_iff_derived derived_of_term Tree.readBy_term).trans ⟨?_, ?_⟩)
      · rintro ⟨tree, hspelled, hdenote⟩
        exact ⟨.singleTerm tree, hspelled, hdenote⟩
      · rintro ⟨tree, hspelled, hdenote⟩
        cases tree with
        | singleTerm tree => exact ⟨tree, hspelled, hdenote⟩

namespace Start

variable {start : Start}

lemma read_of_spelled {text : String} {tree : Tree start.nonterminal}
    (h : Spelled tree.tokens text.toList) :
    ∃ value, tree.denote = .ok value ∧ start.read text = .ok value := by
  obtain ⟨value, hdenote⟩ := tree.exists_denote
  exact ⟨value, hdenote, start.read_eq_ok_iff.2 ⟨tree, h, hdenote⟩⟩

/-- All derivations of a text mean the same. -/
lemma denote_unique {text : String} {tree tree' : Tree start.nonterminal}
    (h : Spelled tree.tokens text.toList) (h' : Spelled tree'.tokens text.toList) :
    tree.denote = tree'.denote := by
  obtain ⟨value, hdenote, hread⟩ := read_of_spelled h
  obtain ⟨value', hdenote', hread'⟩ := read_of_spelled h'
  rw [hdenote, hdenote', Except.ok.inj (hread.symm.trans hread')]

/-- What a derivation means depends on its lexemes only: they can be written with blanks between them,
and that text is the same for both. -/
lemma denote_eq_of_lexemes {text text' : String} {tree tree' : Tree start.nonterminal}
    (h : Spelled tree.tokens text.toList) (h' : Spelled tree'.tokens text'.toList)
    (hlexemes : tree.tokens.map Token.lexeme = tree'.tokens.map Token.lexeme) :
    tree.denote = tree'.denote := by
  have hspaced := spelled_spaced h.accepts
  have hspaced' := spelled_spaced h'.accepts
  rw [← hlexemes] at hspaced'
  rw [← String.toList_ofList (l := spaced _)] at hspaced hspaced'
  exact denote_unique hspaced hspaced'

end Start

/-- **The reader accepts exactly the grammar, and reads it unambiguously.**  For each of the four
phrases: a text is read if and only if it has a derivation, with the longest match for every terminal
and any layout between tokens, and the result is what the derivation means; all derivations of a text
mean the same; texts with the same lexemes read alike, whatever layout is between them; and no
derivation is refused for a variable in the place of an atom. -/
theorem grammar_read_unambiguously (start : Start) :
    (∀ (text : String) (value : start.nonterminal.Value), start.read text = .ok value ↔
      ∃ tree : Tree start.nonterminal, Spelled tree.tokens text.toList ∧
        tree.denote = .ok value) ∧
    (∀ text : String, (∃ value, start.read text = .ok value) ↔
      ∃ tree : Tree start.nonterminal, Spelled tree.tokens text.toList) ∧
    (∀ (text : String) (tree tree' : Tree start.nonterminal), Spelled tree.tokens text.toList →
      Spelled tree'.tokens text.toList → tree.denote = tree'.denote) ∧
    (∀ (text text' : String) (tree tree' : Tree start.nonterminal),
      Spelled tree.tokens text.toList → Spelled tree'.tokens text'.toList →
      tree.tokens.map Token.lexeme = tree'.tokens.map Token.lexeme →
      start.read text = start.read text') ∧
    ∀ tree : Tree start.nonterminal, ∃ value, tree.denote = .ok value := by
  refine ⟨fun text value => start.read_eq_ok_iff, fun text => ⟨?_, ?_⟩,
    fun text tree tree' h h' => Start.denote_unique h h', ?_, fun tree => tree.exists_denote⟩
  · rintro ⟨value, hread⟩
    obtain ⟨tree, hspelled, -⟩ := start.read_eq_ok_iff.1 hread
    exact ⟨tree, hspelled⟩
  · rintro ⟨tree, hspelled⟩
    obtain ⟨value, -, hread⟩ := Start.read_of_spelled hspelled
    exact ⟨value, hread⟩
  · intro text text' tree tree' h h' hlexemes
    obtain ⟨value, hdenote, hread⟩ := Start.read_of_spelled h
    obtain ⟨value', hdenote', hread'⟩ := Start.read_of_spelled h'
    have hsame := Start.denote_eq_of_lexemes h h' hlexemes
    rw [hdenote, hdenote'] at hsame
    rw [hread, hread', Except.ok.inj hsame]

/-- A literal with comments in it, and symbols in the comments. -/
def remarked : String := "~ f(X, /* ) */ 'it\\'s' )% != d\n!= c"

theorem remarked_derived :
    (∃ tree : Tree .literal, Spelled tree.tokens remarked.toList) ∧
    ∀ tree : Tree .literal, Spelled tree.tokens remarked.toList → tree.denote
      = .ok ⟨true, "=", [.app "f" [.var "X", .app "'it\\'s'" []], .app "c" []]⟩ := by
  obtain ⟨hread, hderived, hunique, -⟩ := grammar_read_unambiguously .literal
  have hremarked : Start.literal.read remarked
      = .ok ⟨true, "=", [.app "f" [.var "X", .app "'it\\'s'" []], .app "c" []]⟩ := by
    decide +kernel
  obtain ⟨tree, hspelled, hdenote⟩ := (hread _ _).1 hremarked
  refine ⟨(hderived _).1 ⟨_, hremarked⟩, fun tree' hspelled' => ?_⟩
  rw [hunique _ tree' tree hspelled' hspelled, hdenote]

end GivenClause.Format
