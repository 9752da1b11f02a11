import Mathlib
import GivenClause.Proofs.Words

/-!
# Texts as sequences of tokens

What it means that a text is spelled by a sequence of tokens, said without scanning.  A token stands at
a place if no longer lexeme of its terminal does (`Terminal.Matches`).  Between tokens there may be runs
of blanks, comments up to the end of the line, and comments up to the first closing mark (`Layout`), any
number of them in any order (`Skips`).

Scanning finds exactly this: a terminal that is asked for is found if and only if it stands there
(`Terminal.scan_iff`), and passing over layout leads to the next token (`Skips.skipLayout_eq`).  Hence a
text is spelled by tokens if taking them one after the other uses it up (`spelled_iff_spans`).
-/

namespace GivenClause.Format

/-! ## Longest matches -/

/-- A lexeme of the terminal stands in front of a text, and no longer one does. -/
def Terminal.Matches (t : Terminal) (lexeme : String) (after : List Char) : Prop :=
  t.Accepts lexeme ∧
    ∀ other, t.Accepts other → other.toList <+: lexeme.toList ++ after →
      other.toList.length ≤ lexeme.toList.length

namespace WordKind

lemma prefix_takeWhile {p : Char → Bool} {w text : List Char} (hw : ∀ c ∈ w, p c = true)
    (h : w <+: text) : w <+: text.takeWhile p := by
  obtain ⟨rest, rfl⟩ := h
  rw [List.takeWhile_append_of_pos hw]
  exact List.prefix_append _ _

lemma scanRun_at_front {first more : Char → Bool} {c : Char} {w text : List Char}
    (hc : first c = true) (hw : ∀ d ∈ w, more d = true) (h : c :: w <+: text) :
    ∃ longest after, scanRun first more text = some (longest, after) ∧ c :: w <+: longest := by
  obtain ⟨rest, rfl⟩ := h
  refine ⟨_, _, if_pos hc, ?_⟩
  exact List.cons_prefix_cons.2 ⟨rfl, prefix_takeWhile hw (List.prefix_append _ _)⟩

/-- Where a word stands, one is scanned, and it is at least as long. -/
theorem Spells.scan_at_front {k : WordKind} {w text : List Char} (h : k.Spells w)
    (hfront : w <+: text) :
    ∃ longest after, k.scan text = some (longest, after) ∧ w <+: longest := by
  cases h with
  | lower first more => exact scanRun_at_front first more hfront
  | upper first more => exact scanRun_at_front first more hfront
  | integer first more => exact scanRun_at_front first more hfront
  | quoted nonempty inside =>
      obtain ⟨rest, rfl⟩ := hfront
      exact ⟨_, rest, scan_quoted_append nonempty inside rest, List.prefix_rfl⟩
  | @dollar c w first more =>
      obtain ⟨rest, rfl⟩ := hfront
      obtain ⟨longest, after, hscan, hlongest⟩ :=
        scanRun_at_front first more (List.prefix_append (c :: w) rest)
      refine ⟨'$' :: longest, after, ?_, List.cons_prefix_cons.2 ⟨rfl, hlongest⟩⟩
      rw [List.cons_append] at hscan
      simp [scan, hscan]

lemma starts_of_scan {k : WordKind} {c : Char} {text : List Char} {r : List Char × List Char}
    (h : k.scan (c :: text) = some r) : k.starts c = true := by
  by_contra hstarts
  rw [scan_of_not_starts (Bool.eq_false_iff.2 hstarts)] at h
  cases h

end WordKind

namespace Terminal

/-- Of the kinds that a terminal allows, only one can be found at a place. -/
lemma scan_word_of_scan {kinds : List WordKind} {kind : WordKind} (hkind : kind ∈ kinds)
    {text : List Char} {r : List Char × List Char} (h : kind.scan text = some r) :
    (Terminal.word kinds).scan text = some r := by
  cases text with
  | nil => cases kind <;> cases h
  | cons c text =>
      have hother : ∀ k, k ≠ kind → k.scan (c :: text) = none := by
        intro k hk
        refine WordKind.scan_of_not_starts ?_ text
        rw [Bool.eq_false_iff]
        exact fun hstarts => hk (WordKind.eq_of_starts hstarts (WordKind.starts_of_scan h))
      rw [scan]
      induction kinds with
      | nil => cases hkind
      | cons k kinds ih =>
          rw [List.findSome?_cons]
          by_cases hk : k = kind
          · rw [hk, h]
          · rw [hother k hk]
            exact ih (List.mem_of_ne_of_mem (Ne.symm hk) hkind)

lemma accepts_of_scan {t : Terminal} {text lexeme after : List Char}
    (h : t.scan text = some (lexeme, after)) : t.Accepts (String.ofList lexeme) := by
  have haccepts := accepts_of_take (take_of_scan h).choose_spec
  exact haccepts

/-- Where a lexeme stands, one is scanned, and it is at least as long. -/
lemma Accepts.scan_at_front {t : Terminal} {w : String} {text : List Char} (h : t.Accepts w)
    (hfront : w.toList <+: text) :
    ∃ longest after, t.scan text = some (longest, after) ∧ w.toList <+: longest := by
  cases t with
  | symbol s =>
      obtain ⟨rest, rfl⟩ := hfront
      rw [show w.toList = s.chars from h]
      exact ⟨s.chars, rest, by simp [scan, dropWord_append], List.prefix_rfl⟩
  | word kinds =>
      obtain ⟨kind, hkind, hspells⟩ := h
      obtain ⟨longest, after, hscan, hlongest⟩ := hspells.scan_at_front hfront
      exact ⟨longest, after, scan_word_of_scan hkind hscan, hlongest⟩

/-- **Scanning finds the longest match.** -/
theorem scan_iff {t : Terminal} {text after : List Char} {lexeme : String} :
    t.scan text = some (lexeme.toList, after) ↔
      text = lexeme.toList ++ after ∧ t.Matches lexeme after := by
  constructor
  · intro h
    obtain ⟨-, htext⟩ := scan_eq_some h
    have haccepts := accepts_of_scan h
    rw [String.ofList_toList] at haccepts
    refine ⟨htext.symm, haccepts, fun other hother hfront => ?_⟩
    rw [htext] at hfront
    obtain ⟨longest, after', hscan, hlongest⟩ := hother.scan_at_front hfront
    cases h.symm.trans hscan
    exact hlongest.length_le
  · rintro ⟨rfl, haccepts, hmax⟩
    obtain ⟨longest, after', hscan, hlongest⟩ :=
      haccepts.scan_at_front (List.prefix_append lexeme.toList after)
    obtain ⟨-, htext⟩ := scan_eq_some hscan
    have hle := hmax (String.ofList longest) (accepts_of_scan hscan)
      (by rw [String.toList_ofList, ← htext]; exact List.prefix_append _ _)
    rw [String.toList_ofList] at hle
    obtain rfl : lexeme.toList = longest := hlongest.eq_of_length_le hle
    rw [hscan, List.append_cancel_left htext]

end Terminal

/-! ## Layout -/

/-- A comment is closed by the mark behind it, and not before. -/
def Unclosed (comment : List Char) : Prop :=
  ∀ front back, comment ++ ['*', '/'] = front ++ '*' :: '/' :: back → back = []

/-- Blanks or a comment in front of a text, as much of it as there is. -/
inductive Layout : List Char → List Char → Prop
  | blanks {c : Char} {blanks after : List Char} (first : isLayoutBlank c = true)
      (more : ∀ d ∈ blanks, isLayoutBlank d = true)
      (stop : ∀ d ∈ after.head?, isLayoutBlank d = false) : Layout (c :: blanks) after
  | line {comment after : List Char} (sameLine : ∀ d ∈ comment, d ≠ '\n')
      (stop : ∀ d ∈ after.head?, d = '\n') : Layout ('%' :: comment) after
  | block {comment after : List Char} (unclosed : Unclosed comment) :
      Layout ('/' :: '*' :: (comment ++ ['*', '/'])) after

/-- The second text is what is left of the first behind any amount of layout. -/
inductive Skips : List Char → List Char → Prop
  | nothing (text : List Char) : Skips text text
  | layout {piece after rest : List Char} (front : Layout piece after) (more : Skips after rest) :
      Skips (piece ++ after) rest

lemma unclosed_cons {c : Char} {comment : List Char} :
    Unclosed (c :: comment) ↔
      (∀ back, c = '*' → comment ++ ['*', '/'] ≠ '/' :: back) ∧ Unclosed comment := by
  constructor
  · intro h
    refine ⟨fun back hc hback => ?_, fun front back heq => h (c :: front) back ?_⟩
    · obtain rfl := h [] back (by rw [hc, List.cons_append, hback]; rfl)
      simpa using congrArg List.length hback
    · rw [List.cons_append, heq, List.cons_append]
  · rintro ⟨hfirst, hrest⟩ front back heq
    cases front with
    | nil =>
        obtain ⟨hc, hback⟩ := List.cons.inj heq
        exact absurd hback (hfirst back hc)
    | cons d front => exact hrest front back (List.cons.inj heq).2

lemma closeComment_append {comment : List Char} (h : Unclosed comment) (after : List Char) :
    closeComment (comment ++ ['*', '/'] ++ after) = some after := by
  induction comment with
  | nil => rfl
  | cons c comment ih =>
      obtain ⟨hfirst, hrest⟩ := unclosed_cons.1 h
      rw [List.cons_append, List.cons_append, closeComment]
      · exact ih hrest
      · intro back hc hback
        cases comment with
        | nil => cases hback
        | cons d comment => exact hfirst _ hc (by rw [(List.cons.inj hback).1]; rfl)

lemma unclosed_of_closeComment {text after : List Char} (h : closeComment text = some after) :
    ∃ comment, Unclosed comment ∧ text = comment ++ ['*', '/'] ++ after := by
  fun_induction closeComment text with
  | case1 => cases h
  | case2 rest =>
      cases h
      refine ⟨[], fun front back heq => ?_, rfl⟩
      have hlength := congrArg List.length heq
      simp only [List.nil_append, List.length_append, List.length_cons, List.length_nil] at hlength
      exact List.length_eq_zero_iff.1 (by omega)
  | case3 c rest hopen ih =>
      obtain ⟨comment, hcomment, rfl⟩ := ih h
      refine ⟨c :: comment, unclosed_cons.2 ⟨fun back hc hback => ?_, hcomment⟩, rfl⟩
      exact hopen (back ++ after) hc (by rw [hback]; rfl)

lemma dropWhile_eq_self {p : Char → Bool} {text : List Char} (h : ∀ c ∈ text.head?, p c = false) :
    text.dropWhile p = text := by
  cases text with
  | nil => rfl
  | cons c text => rw [List.dropWhile_cons, h c rfl]; rfl

lemma skipLayout_blank {c : Char} (h : isLayoutBlank c = true) (text : List Char) :
    skipLayout (c :: text) = skipLayout text := by
  rw [skipLayout.eq_def]
  simp [h]

lemma skipLayout_blanks {blanks : List Char} (h : ∀ c ∈ blanks, isLayoutBlank c = true)
    (text : List Char) : skipLayout (blanks ++ text) = skipLayout text := by
  induction blanks with
  | nil => rfl
  | cons c blanks ih =>
      rw [List.cons_append, skipLayout_blank (h c List.mem_cons_self)]
      exact ih fun d hd => h d (List.mem_cons_of_mem c hd)

lemma skipLayout_line (text : List Char) :
    skipLayout ('%' :: text) = skipLayout (text.dropWhile (· ≠ '\n')) := by
  rw [skipLayout.eq_def]
  simp [isLayoutBlank]

lemma skipLayout_block {inside after : List Char} (h : closeComment inside = some after) :
    skipLayout ('/' :: '*' :: inside) = skipLayout after := by
  rw [skipLayout.eq_def]
  dsimp only
  rw [if_neg (by decide), if_neg (by decide), if_pos rfl]
  split
  · rename_i inside' hinside
    cases hinside
    split
    · rename_i after' hclosed
      cases h.symm.trans hclosed
      rfl
    · rename_i hopen
      cases h.symm.trans hopen
  · rename_i hother
    exact absurd rfl (hother inside)

/-- Layout is passed over. -/
lemma Layout.skipLayout_append {piece after : List Char} (h : Layout piece after) :
    skipLayout (piece ++ after) = skipLayout after := by
  cases h with
  | @blanks c blanks after first more stop =>
      exact skipLayout_blanks (List.forall_mem_cons.2 ⟨first, more⟩) after
  | @line comment after sameLine stop =>
      rw [List.cons_append, skipLayout_line, List.dropWhile_append_of_pos (by simpa using sameLine),
        dropWhile_eq_self (by simpa using stop)]
  | @block comment after unclosed =>
      exact skipLayout_block (closeComment_append unclosed after)

/-- **Behind layout stands what passing over it leads to.** -/
lemma Skips.skipLayout_eq {text rest : List Char} (h : Skips text rest) :
    skipLayout text = skipLayout rest := by
  induction h with
  | nothing => rfl
  | layout front _ ih => rw [front.skipLayout_append, ih]

/-- Passing over layout leads to no blank. -/
lemma head_skipLayout (text : List Char) :
    ∀ c ∈ (skipLayout text).head?, isLayoutBlank c = false := by
  fun_induction skipLayout text with
  | case1 => exact fun _ h => by cases h
  | case2 _ _ _ ih => exact ih
  | case3 _ _ ih => exact ih
  | case4 _ _ _ _ _ ih => exact ih
  | case5 | case6 | case7 => simp_all

/-- A blank in front joins the blanks behind it. -/
lemma Skips.blank {c : Char} {text rest : List Char} (hc : isLayoutBlank c = true)
    (h : Skips text rest) (hrest : ∀ d ∈ rest.head?, isLayoutBlank d = false) :
    Skips (c :: text) rest := by
  have alone : ∀ {text}, (∀ d ∈ text.head?, isLayoutBlank d = false) → Skips text rest →
      Skips (c :: text) rest := fun hstop hmore =>
    .layout (.blanks hc (fun _ hd => absurd hd List.not_mem_nil) hstop) hmore
  cases h with
  | nothing => exact alone hrest (.nothing _)
  | layout front more =>
      cases front with
      | blanks first others stop =>
          exact .layout (.blanks hc (List.forall_mem_cons.2 ⟨first, others⟩) stop) more
      | line sameLine stop =>
          exact alone (by simp [isLayoutBlank]) (.layout (.line sameLine stop) more)
      | block unclosed => exact alone (by simp [isLayoutBlank]) (.layout (.block unclosed) more)

/-- Only layout is passed over. -/
theorem skips_skipLayout (text : List Char) : Skips text (skipLayout text) := by
  fun_induction skipLayout text with
  | case1 => exact .nothing []
  | case2 c rest hblank ih => exact ih.blank hblank (head_skipLayout rest)
  | case3 rest _ ih =>
      have hline : Layout ('%' :: rest.takeWhile (· ≠ '\n')) (rest.dropWhile (· ≠ '\n')) := by
        refine .line (fun d hd => by simpa using List.mem_takeWhile_imp hd) fun d hd => ?_
        have hstop := List.head?_dropWhile_not (· ≠ '\n') rest
        rw [show (rest.dropWhile (· ≠ '\n')).head? = some d from hd] at hstop
        simpa using hstop
      have hskips := Skips.layout hline ih
      rwa [List.cons_append, List.takeWhile_append_dropWhile] at hskips
  | case4 inside after hclosed _ _ ih =>
      obtain ⟨comment, hcomment, rfl⟩ := unclosed_of_closeComment hclosed
      exact .layout (.block hcomment) ih
  | case5 | case6 | case7 => exact .nothing _

/-! ## Tokens -/

/-- A terminal with one of its lexemes. -/
structure Token where
  terminal : Terminal
  lexeme : String

/-- A symbol as a token. -/
def Token.symbol (s : Symbol) : Token := ⟨.symbol s, String.ofList s.chars⟩

/-- The text consists of these tokens, with layout before, between and behind them. -/
inductive Spelled : List Token → List Char → Prop
  | nil {text : List Char} (layout : Skips text []) : Spelled [] text
  | cons {token : Token} {tokens : List Token} {text after : List Char}
      (layout : Skips text (token.lexeme.toList ++ after))
      (stands : token.terminal.Matches token.lexeme after) (more : Spelled tokens after) :
      Spelled (token :: tokens) text

/-- Taking these tokens off the first text one after the other leaves the second. -/
inductive Spans : List Token → List Char → List Char → Prop
  | nil (text : List Char) : Spans [] text text
  | cons {token : Token} {tokens : List Token} {text middle rest : List Char}
      (taken : Gives (take token.terminal text) token.lexeme middle)
      (more : Spans tokens middle rest) : Spans (token :: tokens) text rest

lemma gives_take_iff {t : Terminal} {text rest : List Char} {lexeme : String} :
    Gives (take t text) lexeme rest ↔
      ∃ after, text = lexeme.toList ++ after ∧ t.Matches lexeme after ∧ rest = skipLayout after := by
  constructor
  · rintro ⟨shorter, htake⟩
    obtain ⟨w, after, hscan, hvalue, hrest⟩ := scan_of_take htake
    obtain rfl : lexeme = String.ofList w := hvalue
    rw [← String.toList_ofList (l := w)] at hscan
    obtain ⟨htext, hmatches⟩ := Terminal.scan_iff.1 hscan
    exact ⟨after, htext, hmatches, hrest⟩
  · rintro ⟨after, htext, hmatches, rfl⟩
    have htake := take_of_scan (Terminal.scan_iff.2 ⟨htext, hmatches⟩)
    rwa [String.ofList_toList] at htake

namespace Terminal

/-- No layout begins with a lexeme. -/
lemma Accepts.solid {t : Terminal} {w : String} (h : t.Accepts w) (rest : List Char) :
    Solid (w.toList ++ rest) := by
  refine Begins.append ?_ rest
  cases t with
  | symbol s =>
      rw [show w.toList = s.chars from h]
      cases s <;> exact ⟨_, _, by decide, rfl⟩
  | word kinds => exact h.begins.solid

end Terminal

/-- **A text is spelled by tokens if taking them uses it up.** -/
theorem spelled_iff_spans {tokens : List Token} {text : List Char} :
    Spelled tokens text ↔ Spans tokens (skipLayout text) [] := by
  constructor
  · intro h
    induction h with
    | nil layout =>
        rw [layout.skipLayout_eq, skipLayout]
        exact .nil []
    | cons layout stands _ ih =>
        rw [layout.skipLayout_eq, skipLayout_eq_self (stands.1.solid _)]
        exact .cons (gives_take_iff.2 ⟨_, rfl, stands, rfl⟩) ih
  · intro h
    induction tokens generalizing text with
    | nil =>
        refine .nil ?_
        have hskips := skips_skipLayout text
        cases hrest : skipLayout text with
        | nil => rwa [hrest] at hskips
        | cons c rest =>
            rw [hrest] at h
            cases h
    | cons token tokens ih =>
        cases h with
        | cons taken more =>
            obtain ⟨after, htext, hmatches, rfl⟩ := gives_take_iff.1 taken
            exact .cons (htext ▸ skips_skipLayout text) hmatches (ih more)

lemma spans_nil {text rest : List Char} : Spans [] text rest ↔ text = rest := by
  constructor
  · rintro ⟨⟩
    rfl
  · rintro rfl
    exact .nil text

lemma spans_cons {token : Token} {tokens : List Token} {text rest : List Char} :
    Spans (token :: tokens) text rest ↔
      ∃ middle, Gives (take token.terminal text) token.lexeme middle ∧ Spans tokens middle rest := by
  constructor
  · rintro (_ | ⟨taken, more⟩)
    exact ⟨_, taken, more⟩
  · rintro ⟨middle, taken, more⟩
    exact .cons taken more

lemma spans_append {tokens more : List Token} {text rest : List Char} :
    Spans (tokens ++ more) text rest ↔
      ∃ middle, Spans tokens text middle ∧ Spans more middle rest := by
  induction tokens generalizing text with
  | nil => simp [spans_nil]
  | cons token tokens ih =>
      simp only [List.cons_append, spans_cons, ih]
      constructor
      · rintro ⟨first, taken, middle, hfront, hback⟩
        exact ⟨middle, ⟨first, taken, hfront⟩, hback⟩
      · rintro ⟨middle, ⟨first, taken, hfront⟩, hback⟩
        exact ⟨first, taken, middle, hfront, hback⟩

/-! ## Lexemes with blanks between them -/

/-- Tokens written with a blank behind each. -/
def spaced (lexemes : List String) : List Char := lexemes.flatMap fun w => w.toList ++ [' ']

lemma Terminal.Accepts.take_spaced {t : Terminal} {w : String} (h : t.Accepts w) (rest : List Char) :
    Gives (Format.take t (w.toList ++ ' ' :: rest)) w (skipLayout rest) := by
  have hscan : t.scan (w.toList ++ ' ' :: rest) = some (w.toList, ' ' :: rest) := by
    cases t with
    | symbol s =>
        rw [show w.toList = s.chars from h]
        simp [scan, dropWord_append]
    | word kinds =>
        obtain ⟨kind, hkind, hspells⟩ := h
        exact scan_word_append hkind hspells (by simp [isWordChar, isLower, isUpper, isDigit])
  have htake := take_of_scan hscan
  rwa [String.ofList_toList, skipLayout_blank rfl] at htake

/-- Whatever lexemes tokens have, they can be written with blanks between them. -/
theorem spelled_spaced {tokens : List Token}
    (h : ∀ token ∈ tokens, token.terminal.Accepts token.lexeme) :
    Spelled tokens (spaced (tokens.map Token.lexeme)) := by
  rw [spelled_iff_spans]
  induction tokens with
  | nil =>
      show Spans [] (skipLayout []) []
      rw [skipLayout]
      exact .nil []
  | cons token tokens ih =>
      have haccepts := h token List.mem_cons_self
      have htext : spaced ((token :: tokens).map Token.lexeme)
          = token.lexeme.toList ++ ' ' :: spaced (tokens.map Token.lexeme) := by
        simp [spaced]
      rw [htext, skipLayout_eq_self (haccepts.solid _)]
      exact .cons (haccepts.take_spaced _) (ih fun t ht => h t (List.mem_cons_of_mem token ht))

lemma Spelled.accepts {tokens : List Token} {text : List Char} (h : Spelled tokens text) :
    ∀ token ∈ tokens, token.terminal.Accepts token.lexeme := by
  induction h with
  | nil => exact fun _ hmem => absurd hmem List.not_mem_nil
  | cons _ stands _ ih => exact List.forall_mem_cons.2 ⟨stands.1, ih⟩

end GivenClause.Format
