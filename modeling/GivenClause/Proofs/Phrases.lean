import Mathlib
import GivenClause.Proofs.CanonicalClauses
import GivenClause.Proofs.Tokens

/-!
# Phrases from their parts

What each reader reads, put together from what its parts read.  The readers look one symbol ahead:
which alternative they take, and where they stop, depends on the symbol that comes next.  So the
lemmas have conditions of two kinds, that a symbol stands at the front of a text (`Passes`) or that it
does not (`Lacks`).

The symbols begin with different characters, so one that stands there rules out all others
(`lacks_of_passes`).
-/

namespace GivenClause.Format

/-! ## Looking ahead -/

/-- The symbol is taken off the first text, which leaves the second. -/
abbrev Passes (s : Symbol) (text rest : List Char) : Prop :=
  Gives (takeSymbol s text) (String.ofList s.chars) rest

/-- The text does not begin with the symbol. -/
def Lacks (s : Symbol) (text : List Char) : Prop := takeSymbol s text = .error text

/-- The text begins with none of the symbols. -/
def LacksAll (stops : List Symbol) (text : List Char) : Prop := ∀ s ∈ stops, Lacks s text

lemma passes_of_ok {s : Symbol} {text : List Char} {mark : Taken text String}
    (h : takeSymbol s text = .ok mark) : Passes s text mark.rest := by
  have hvalue : mark.value.toList = s.chars := Terminal.accepts_of_take h
  refine ⟨mark.shorter, ?_⟩
  rw [h, ← hvalue, String.ofList_toList]

lemma head_chars_injective {s s' : Symbol} (h : s.chars.head? = s'.chars.head?) : s = s' := by
  cases s <;> cases s' <;> first | rfl | cases h

/-- **A text begins with one symbol at most.** -/
lemma lacks_of_passes {s s' : Symbol} {text rest : List Char} (h : Passes s text rest)
    (hne : s ≠ s') : Lacks s' text := by
  obtain ⟨after, rfl, -, -⟩ := gives_take_iff.1 h
  refine takeSymbol_of_begins ?_
  rw [String.toList_ofList]
  cases hchars : s.chars with
  | nil => cases s <;> cases hchars
  | cons c more =>
      refine ⟨c, more ++ after, fun h' => hne (head_chars_injective ?_), rfl⟩
      rw [hchars, h']
      rfl

lemma lacksAll_of_passes {s : Symbol} {stops : List Symbol} {text rest : List Char}
    (h : Passes s text rest) (hs : s ∉ stops) : LacksAll stops text :=
  fun _ hmem => lacks_of_passes h fun heq => hs (heq ▸ hmem)

lemma lacks_nil (s : Symbol) : Lacks s [] := by
  refine take_of_scan_none ?_
  cases s <;> rfl

lemma BeginsWord.lacks {text : List Char} (h : BeginsWord text) {s : Symbol}
    (hs : s ∉ [Symbol.cnfKeyword, Symbol.includeKeyword]) : Lacks s text :=
  takeSymbol_of_begins (h.not_symbol hs)

lemma beginsWord_of_take {kinds : List WordKind} {text rest : List Char} {w : String}
    (h : Gives (take (.word kinds) text) w rest) : BeginsWord text := by
  obtain ⟨after, rfl, hmatches, -⟩ := gives_take_iff.1 h
  exact hmatches.1.begins.append after

/-- A word is taken for no other kind. -/
lemma take_other {kinds others : List WordKind} (hother : kinds.Disjoint others)
    {text rest : List Char} {w : String} (h : Gives (take (.word kinds) text) w rest) :
    take (.word others) text = .error text := by
  obtain ⟨after, rfl, hmatches, -⟩ := gives_take_iff.1 h
  exact hmatches.1.take_other hother after

/-- What is taken is a word of one of the kinds allowed. -/
lemma scan_of_take_word {kinds : List WordKind} {text rest : List Char} {w : String}
    (h : Gives (take (.word kinds) text) w rest) :
    ∃ kind ∈ kinds, ∃ after, kind.scan text = some (w.toList, after) ∧ rest = skipLayout after := by
  obtain ⟨after, htext, hmatches, rfl⟩ := gives_take_iff.1 h
  obtain ⟨kind, hkind, hscan⟩ :=
    List.exists_of_findSome?_eq_some (Terminal.scan_iff.2 ⟨htext, hmatches⟩)
  exact ⟨kind, hkind, after, hscan, rfl⟩

lemma take_word_of_scan {kinds : List WordKind} {kind : WordKind} (hkind : kind ∈ kinds)
    {text after : List Char} {w : String} (h : kind.scan text = some (w.toList, after)) :
    Gives (take (.word kinds) text) w (skipLayout after) := by
  have htake := take_of_scan (Terminal.scan_word_of_scan hkind h)
  rwa [String.ofList_toList] at htake

/-- What is taken as a word of some kinds is also taken where more kinds are allowed. -/
lemma take_mono {kinds more : List WordKind} (hmore : kinds ⊆ more) {text rest : List Char}
    {w : String} (h : Gives (take (.word kinds) text) w rest) :
    Gives (take (.word more) text) w rest := by
  obtain ⟨kind, hkind, after, hscan, rfl⟩ := scan_of_take_word h
  exact take_word_of_scan (hmore hkind) hscan

/-! ## Terms -/

lemma term_of_variable {text rest : List Char} {x : String}
    (h : Gives (take .variableName text) x rest) : Gives (term text) (.var x) rest := by
  obtain ⟨_, h⟩ := h
  rw [term, h]
  exact .pure _

lemma term_of_functor {text rest : List Char} {f : String} (h : Gives (take .functor text) f rest)
    (hrest : Lacks .openParen rest) : Gives (term text) (.app f []) rest := by
  rw [term, show take .variableName text = _ from take_other (by simp) h]
  refine h.bind fun _ => ?_
  dsimp only
  rw [show takeSymbol .openParen rest = _ from hrest]
  exact .pure _

lemma term_of_application {text inner after middle rest : List Char} {f : String} {args : List Term}
    (h : Gives (take .functor text) f middle) (hopen : Passes .openParen middle inner)
    (hargs : Gives (terms inner) args after) (hclose : Passes .closeParen after rest) :
    Gives (term text) (.app f args) rest := by
  obtain ⟨_, hopen⟩ := hopen
  rw [term, show take .variableName text = _ from take_other (by simp) h]
  refine h.bind fun _ => ?_
  dsimp only
  rw [hopen]
  exact hargs.bind fun _ => hclose.bind fun _ => ⟨_, rfl⟩

lemma beginsWord_of_term {text rest : List Char} {t : Term} (h : Gives (term text) t rest) :
    BeginsWord text := by
  obtain ⟨_, h⟩ := h
  rw [term] at h
  split at h
  · rename_i x hx
    exact beginsWord_of_take ⟨x.shorter, hx⟩
  · obtain ⟨f, hf, -⟩ := bind_eq_ok h
    exact beginsWord_of_take ⟨f.shorter, hf⟩

/-! ## Literals and formulas -/

lemma beginsWord_of_signed {sign : Bool} {text rest : List Char} {l : Literal}
    (h : Gives (signed sign text) l rest) : BeginsWord text := by
  obtain ⟨_, h⟩ := h
  obtain ⟨lhs, hlhs, -⟩ := bind_eq_ok h
  exact beginsWord_of_term ⟨lhs.shorter, hlhs⟩

lemma signed_of_term {text rest : List Char} {p : String} {args : List Term}
    (h : Gives (term text) (.app p args) rest) (hequals : Lacks .equals rest)
    (hdiffers : Lacks .differs rest) (sign : Bool) :
    Gives (signed sign text) ⟨sign, p, args⟩ rest := by
  rw [signed]
  refine h.bind fun _ => ?_
  dsimp only
  rw [show takeSymbol .equals rest = _ from hequals,
    show takeSymbol .differs rest = _ from hdiffers]
  exact .pure _

lemma signed_of_equation {text middle inner rest : List Char} {lhs rhs : Term}
    (hlhs : Gives (term text) lhs middle) (hmark : Passes .equals middle inner)
    (hrhs : Gives (term inner) rhs rest) (sign : Bool) :
    Gives (signed sign text) ⟨sign, Literal.equality, [lhs, rhs]⟩ rest := by
  obtain ⟨_, hmark⟩ := hmark
  rw [signed]
  refine hlhs.bind fun _ => ?_
  dsimp only
  rw [hmark]
  exact hrhs.bind fun _ => ⟨_, rfl⟩

lemma signed_of_disequation {text middle inner rest : List Char} {lhs rhs : Term}
    (hlhs : Gives (term text) lhs middle) (hmark : Passes .differs middle inner)
    (hrhs : Gives (term inner) rhs rest) (sign : Bool) :
    Gives (signed sign text) ⟨!sign, Literal.equality, [lhs, rhs]⟩ rest := by
  have hequals : Lacks .equals middle := lacks_of_passes hmark (by simp)
  obtain ⟨_, hmark⟩ := hmark
  rw [signed]
  refine hlhs.bind fun _ => ?_
  dsimp only
  rw [show takeSymbol .equals middle = _ from hequals]
  dsimp only
  rw [hmark]
  exact hrhs.bind fun _ => ⟨_, rfl⟩

lemma literal_of_beginsWord {text : List Char} (h : BeginsWord text) :
    literal text = signed true text := by
  rw [literal, show takeSymbol .tilde text = _ from h.lacks (by simp)]

lemma literal_of_tilde {text inner rest : List Char} {l : Literal} (h : Passes .tilde text inner)
    (hl : Gives (signed false inner) l rest) : Gives (literal text) l rest := by
  obtain ⟨_, h⟩ := h
  rw [literal, h]
  exact hl.bind fun _ => ⟨_, rfl⟩

lemma lacks_of_literal {text rest : List Char} {l : Literal}
    (h : Gives (literal text) l rest) : Lacks .openParen text := by
  obtain ⟨_, h⟩ := h
  rw [literal] at h
  split at h
  · rename_i mark hmark
    exact lacks_of_passes (passes_of_ok hmark) (by simp)
  · exact (beginsWord_of_signed ⟨_, h⟩).lacks (by simp)

lemma lacks_of_disjunction {text rest : List Char} {ls : List Literal}
    (h : Gives (disjunction text) ls rest) : Lacks .openParen text := by
  obtain ⟨_, h⟩ := h
  obtain ⟨found, hfound, -⟩ := bind_eq_ok h
  rw [separated] at hfound
  obtain ⟨first, hfirst, -⟩ := bind_eq_ok hfound
  exact lacks_of_literal ⟨first.shorter, hfirst⟩

/-! ## Annotations -/

/-- Annotations are a list with commas, whose value is forgotten. -/
lemma generalTerms_eq_separated (text : List Char) :
    generalTerms text
      = separated .comma generalTerm text >>= fun items => .ok (items.as ()) := by
  rw [generalTerms, separated, bind_assoc]
  refine bind_congr fun first => ?_
  cases takeSymbol .comma first.rest with
  | error e => rfl
  | ok mark =>
      have hshorter : mark.rest.length < text.length := mark.shorter.trans first.shorter
      dsimp only
      rw [generalTerms_eq_separated mark.rest, bind_assoc, bind_assoc]
      rfl
termination_by text.length

lemma generalTerm_of_plainData {text rest : List Char} {w : String}
    (h : Gives (take .plainData text) w rest) : Gives (generalTerm text) () rest := by
  obtain ⟨_, h⟩ := h
  rw [generalTerm, h]
  exact .pure _

lemma lacks_closeBracket_of_generalTerm {text rest : List Char}
    (h : Gives (generalTerm text) () rest) : Lacks .closeBracket text := by
  obtain ⟨_, h⟩ := h
  rw [generalTerm] at h
  split at h
  · rename_i w hw
    exact (beginsWord_of_take ⟨w.shorter, hw⟩).lacks (by simp)
  · split at h
    · rename_i opening hopening
      exact lacks_of_passes (passes_of_ok hopening) (by simp)
    · obtain ⟨w, hw, -⟩ := bind_eq_ok h
      exact (beginsWord_of_take ⟨w.shorter, hw⟩).lacks (by simp)

lemma lacks_closeBracket_of_generalTerms {text rest : List Char}
    (h : Gives (generalTerms text) () rest) : Lacks .closeBracket text := by
  obtain ⟨_, h⟩ := h
  rw [generalTerms] at h
  obtain ⟨first, hfirst, -⟩ := bind_eq_ok h
  exact lacks_closeBracket_of_generalTerm ⟨first.shorter, hfirst⟩

lemma generalTerm_of_word {text rest : List Char} {w : String}
    (h : Gives (take .atomicWord text) w rest) (hrest : Lacks .openParen rest) :
    Gives (generalTerm text) () rest := by
  rw [generalTerm, show take .plainData text = _ from take_other (by simp) h,
    show takeSymbol .openBracket text = _ from (beginsWord_of_take h).lacks (by simp)]
  refine h.bind fun _ => ?_
  dsimp only
  rw [show takeSymbol .openParen rest = _ from hrest]
  exact .pure _

lemma generalTerm_of_application {text middle inner after rest : List Char} {w : String}
    (h : Gives (take .atomicWord text) w middle) (hopen : Passes .openParen middle inner)
    (hargs : Gives (generalTerms inner) () after) (hclose : Passes .closeParen after rest) :
    Gives (generalTerm text) () rest := by
  obtain ⟨_, hopen⟩ := hopen
  rw [generalTerm, show take .plainData text = _ from take_other (by simp) h,
    show takeSymbol .openBracket text = _ from (beginsWord_of_take h).lacks (by simp)]
  refine h.bind fun _ => ?_
  dsimp only
  rw [hopen]
  exact hargs.bind fun _ => hclose.bind fun _ => ⟨_, rfl⟩

/-- A bracket is no word. -/
lemma take_plainData_of_openBracket {text inner : List Char} (h : Passes .openBracket text inner) :
    take .plainData text = .error text := by
  obtain ⟨after, rfl, -, -⟩ := gives_take_iff.1 h
  exact take_of_scan_none rfl

lemma generalTerm_of_emptyList {text inner rest : List Char} (hopen : Passes .openBracket text inner)
    (hclose : Passes .closeBracket inner rest) : Gives (generalTerm text) () rest := by
  have hplain := take_plainData_of_openBracket hopen
  obtain ⟨_, hopen⟩ := hopen
  obtain ⟨_, hclose⟩ := hclose
  rw [generalTerm, hplain]
  dsimp only
  rw [hopen]
  dsimp only
  rw [hclose]
  exact .pure _

lemma generalTerm_of_list {text inner after rest : List Char} (hopen : Passes .openBracket text inner)
    (hitems : Gives (generalTerms inner) () after) (hclose : Passes .closeBracket after rest) :
    Gives (generalTerm text) () rest := by
  have hplain := take_plainData_of_openBracket hopen
  obtain ⟨_, hopen⟩ := hopen
  rw [generalTerm, hplain]
  dsimp only
  rw [hopen]
  dsimp only
  rw [show takeSymbol .closeBracket inner = _ from lacks_closeBracket_of_generalTerms hitems]
  exact hitems.bind fun _ => hclose.bind fun _ => ⟨_, rfl⟩

/-! ## Statements -/

lemma closing_of_passes {text middle rest : List Char} (hclose : Passes .closeParen text middle)
    (hperiod : Passes .period middle rest) : Gives (closing text) () rest :=
  hclose.bind fun _ => hperiod.bind fun _ => ⟨_, rfl⟩

lemma statement_of_clause {text rest : List Char} {c : Clause}
    (h : Gives (clauseStatement text) c rest) : Gives (statement text) (.clause c) rest := by
  have hkeyword : Lacks .includeKeyword text := by
    obtain ⟨_, h⟩ := h
    obtain ⟨keyword, hkeyword, -⟩ := bind_eq_ok h
    exact lacks_of_passes (passes_of_ok hkeyword) (by simp)
  rw [statement, show takeSymbol .includeKeyword text = _ from hkeyword]
  exact h.bind fun _ => ⟨_, rfl⟩

lemma statement_of_inclusion {text rest : List Char} {s : Statement}
    (h : Gives (inclusion text) s rest) : Gives (statement text) s rest := by
  obtain ⟨_, hinclusion⟩ := id h
  obtain ⟨keyword, hkeyword, -⟩ := bind_eq_ok hinclusion
  rw [statement, hkeyword]
  exact h

lemma statements_of_statement {text middle : List Char} {s : Statement} {more : List Statement}
    (h : Gives (statement text) s middle) (hmore : statements middle = .ok more) :
    statements text = .ok (s :: more) := by
  obtain ⟨hshorter, h⟩ := h
  have hempty : text.isEmpty = false := by
    cases text with
    | nil => exact absurd hshorter (Nat.not_lt_zero _)
    | cons => rfl
  rw [statements, hempty, if_neg Bool.false_ne_true, h]
  show (statements middle >>= fun more => _) = _
  rw [hmore]
  rfl

end GivenClause.Format
