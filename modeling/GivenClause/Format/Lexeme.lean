/-!
# Lexemes of the clause format

The words and symbols a clause file is made of, and the layout between them.  At each place the
reader knows which kinds of lexeme may come next, so scanning is always for a given `Terminal`;
a word takes as many characters as it can.

* `Terminal.scan` takes a lexeme off the front of a text.
* `skipLayout` passes over blanks, `%` comments and `/* … */` comments.
* `take` does both: it scans a lexeme and skips the layout behind it.  What is left is shorter
  (`Taken.shorter`), which is why reading ends.
-/

namespace GivenClause.Format

/-! ## Words -/

/-- A lower-case letter. -/
def isLower (c : Char) : Bool := 'a' ≤ c && c ≤ 'z'

/-- An upper-case letter. -/
def isUpper (c : Char) : Bool := 'A' ≤ c && c ≤ 'Z'

/-- A decimal digit. -/
def isDigit (c : Char) : Bool := '0' ≤ c && c ≤ '9'

/-- A character that may continue a word. -/
def isWordChar (c : Char) : Bool := isLower c || isUpper c || isDigit c || c == '_'

/-- The kinds of words. -/
inductive WordKind where
  /-- A lower-case letter and word characters. -/
  | lower
  /-- An upper-case letter and word characters. -/
  | upper
  /-- Digits. -/
  | integer
  /-- Characters between single quotes; a backslash takes the next character with it. -/
  | quoted
  /-- A dollar sign and a lower-case word. -/
  | dollar
  deriving Repr, DecidableEq

/-- Take a character of one class and then as many as possible of another. -/
def scanRun (first more : Char → Bool) : List Char → Option (List Char × List Char)
  | [] => none
  | c :: rest => if first c then some (c :: rest.takeWhile more, rest.dropWhile more) else none

/-- The inside of a quoted word up to and including the closing quote.  A backslash must be followed
by a character of the same line, which it protects. -/
def scanQuoted : List Char → Option (List Char × List Char)
  | [] => none
  | '\\' :: c :: rest =>
    if c = '\n' then none
    else (scanQuoted rest).map fun (inside, after) => ('\\' :: c :: inside, after)
  | c :: rest =>
    if c = '\'' then some ([c], rest)
    else if c = '\\' then none
    else (scanQuoted rest).map fun (inside, after) => (c :: inside, after)

/-- Take the longest word of a kind off a text. -/
def WordKind.scan : WordKind → List Char → Option (List Char × List Char)
  | .lower, text => scanRun isLower isWordChar text
  | .upper, text => scanRun isUpper isWordChar text
  | .integer, text => scanRun isDigit isDigit text
  | .quoted, text =>
    match text with
    | '\'' :: c :: rest =>
      if c = '\'' then none
      else (scanQuoted (c :: rest)).map fun (inside, after) => ('\'' :: inside, after)
    | _ => none
  | .dollar, text =>
    match text with
    | '$' :: rest => (scanRun isLower isWordChar rest).map fun (word, after) => ('$' :: word, after)
    | _ => none

/-! ## Symbols -/

/-- The fixed symbols and keywords. -/
inductive Symbol where
  | openParen | closeParen | openBracket | closeBracket | comma | period | bar | tilde
  | equals | differs | cnfKeyword | includeKeyword
  deriving Repr, DecidableEq

/-- The spelling of a symbol. -/
def Symbol.chars : Symbol → List Char
  | .openParen => ['(']
  | .closeParen => [')']
  | .openBracket => ['[']
  | .closeBracket => [']']
  | .comma => [',']
  | .period => ['.']
  | .bar => ['|']
  | .tilde => ['~']
  | .equals => ['=']
  | .differs => ['!', '=']
  | .cnfKeyword => ['c', 'n', 'f']
  | .includeKeyword => ['i', 'n', 'c', 'l', 'u', 'd', 'e']

/-- What follows a given word at the front of a text. -/
def dropWord : List Char → List Char → Option (List Char)
  | [], text => some text
  | _ :: _, [] => none
  | w :: word, c :: text => if w = c then dropWord word text else none

/-! ## Terminals -/

/-- What the grammar can ask for next: a symbol, or a word of one of several kinds. -/
inductive Terminal where
  | symbol (s : Symbol)
  | word (kinds : List WordKind)
  deriving Repr, DecidableEq

namespace Terminal

/-- The head of a term or atom. -/
def functor : Terminal := .word [.lower, .quoted, .dollar]

/-- A variable. -/
def variableName : Terminal := .word [.upper]

/-- The name of a statement. -/
def name : Terminal := .word [.lower, .quoted, .integer]

/-- The role of a statement. -/
def role : Terminal := .word [.lower]

/-- The name of an included file. -/
def fileName : Terminal := .word [.quoted]

/-- A word of an annotation that may take arguments. -/
def atomicWord : Terminal := .word [.lower, .quoted]

/-- A word of an annotation that stands alone. -/
def plainData : Terminal := .word [.upper, .integer]

/-- Take the lexeme that a terminal asks for off a text: the lexeme and what follows it. -/
def scan : Terminal → List Char → Option (List Char × List Char)
  | .symbol s, text => (dropWord s.chars text).map fun after => (s.chars, after)
  | .word kinds, text => kinds.findSome? fun kind => kind.scan text

end Terminal

/-! ## Scanning splits the text -/

theorem scanRun_eq_some {first more : Char → Bool} {text lexeme after : List Char}
    (h : scanRun first more text = some (lexeme, after)) : lexeme ≠ [] ∧ lexeme ++ after = text := by
  cases text with
  | nil => simp [scanRun] at h
  | cons c rest =>
    by_cases hc : first c
    · simp only [scanRun, hc, if_true, Option.some.injEq, Prod.mk.injEq] at h
      obtain ⟨rfl, rfl⟩ := h
      simp [List.takeWhile_append_dropWhile]
    · simp [scanRun, hc] at h

theorem scanQuoted_eq_some {text inside after : List Char}
    (h : scanQuoted text = some (inside, after)) : inside ≠ [] ∧ inside ++ after = text := by
  fun_induction scanQuoted text generalizing inside after with
  | case1 => simp at h
  | case2 => simp at h
  | case3 c rest _ ih =>
    obtain ⟨⟨i, a⟩, hs, he⟩ := Option.map_eq_some_iff.1 h
    simp only [Prod.mk.injEq] at he
    obtain ⟨rfl, rfl⟩ := he
    simp [(ih hs).2]
  | case4 rest =>
    simp only [Option.some.injEq, Prod.mk.injEq] at h
    obtain ⟨rfl, rfl⟩ := h
    simp
  | case5 => simp at h
  | case6 c rest _ _ _ ih =>
    obtain ⟨⟨i, a⟩, hs, he⟩ := Option.map_eq_some_iff.1 h
    simp only [Prod.mk.injEq] at he
    obtain ⟨rfl, rfl⟩ := he
    simp [(ih hs).2]

theorem WordKind.scan_eq_some {kind : WordKind} {text lexeme after : List Char}
    (h : kind.scan text = some (lexeme, after)) : lexeme ≠ [] ∧ lexeme ++ after = text := by
  cases kind with
  | lower => exact scanRun_eq_some h
  | upper => exact scanRun_eq_some h
  | integer => exact scanRun_eq_some h
  | quoted =>
    simp only [WordKind.scan] at h
    split at h
    · split at h
      · simp at h
      · obtain ⟨⟨i, a⟩, hs, he⟩ := Option.map_eq_some_iff.1 h
        simp only [Prod.mk.injEq] at he
        obtain ⟨rfl, rfl⟩ := he
        simp [(scanQuoted_eq_some hs).2]
    · simp at h
  | dollar =>
    simp only [WordKind.scan] at h
    split at h
    · obtain ⟨⟨i, a⟩, hs, he⟩ := Option.map_eq_some_iff.1 h
      simp only [Prod.mk.injEq] at he
      obtain ⟨rfl, rfl⟩ := he
      simp [(scanRun_eq_some hs).2]
    · simp at h

theorem dropWord_eq_some {word text after : List Char} (h : dropWord word text = some after) :
    word ++ after = text := by
  fun_induction dropWord word text with
  | case1 => simpa using h.symm
  | case2 => simp at h
  | case3 word c text ih => simp [ih h]
  | case4 => simp at h

/-- **A lexeme is cut off the front of the text**, and it is not empty. -/
theorem Terminal.scan_eq_some {t : Terminal} {text lexeme after : List Char}
    (h : t.scan text = some (lexeme, after)) : lexeme ≠ [] ∧ lexeme ++ after = text := by
  cases t with
  | symbol s =>
    obtain ⟨a, hd, he⟩ := Option.map_eq_some_iff.1 h
    simp only [Prod.mk.injEq] at he
    obtain ⟨rfl, rfl⟩ := he
    exact ⟨by cases s <;> simp [Symbol.chars], dropWord_eq_some hd⟩
  | word kinds =>
    obtain ⟨kind, _, hk⟩ := List.exists_of_findSome?_eq_some h
    exact WordKind.scan_eq_some hk

/-! ## Layout -/

/-- The blanks between lexemes. -/
def isLayoutBlank (c : Char) : Bool :=
  c == ' ' || c == '\t' || c == '\x0c' || c == '\r' || c == '\n'

/-- What follows the end of a block comment; `none` if the comment is never closed. -/
def closeComment : List Char → Option (List Char)
  | [] => none
  | '*' :: '/' :: rest => some rest
  | _ :: rest => closeComment rest

theorem length_closeComment {text rest : List Char} (h : closeComment text = some rest) :
    rest.length < text.length := by
  fun_induction closeComment text with
  | case1 => simp at h
  | case2 =>
    cases h
    simp only [List.length_cons]
    omega
  | case3 _ _ _ ih =>
    have := ih h
    simp only [List.length_cons]
    omega

/-- Pass over blanks, comments to the end of the line, and block comments.  A block comment that is
not closed is no comment. -/
def skipLayout : List Char → List Char
  | [] => []
  | c :: rest =>
    if isLayoutBlank c then skipLayout rest
    else if c = '%' then skipLayout (rest.dropWhile (· ≠ '\n'))
    else if c = '/' then
      match rest with
      | '*' :: inside =>
        match _closed : closeComment inside with
        | some after => skipLayout after
        | none => c :: rest
      | _ => c :: rest
    else c :: rest
termination_by text => text.length
decreasing_by
  · simp
  · have := (List.dropWhile_sublist (l := rest) (· ≠ '\n')).length_le
    simp only [List.length_cons]
    omega
  · have := length_closeComment _closed
    simp only [List.length_cons]
    omega

theorem length_skipLayout_le (text : List Char) : (skipLayout text).length ≤ text.length := by
  fun_induction skipLayout text with
  | case1 => simp
  | case2 c rest _ ih => exact Nat.le_succ_of_le ih
  | case3 rest _ ih =>
    have := (List.dropWhile_sublist (l := rest) (· ≠ '\n')).length_le
    simp only [List.length_cons]
    omega
  | case4 inside after hclosed _ _ ih =>
    have := length_closeComment hclosed
    simp only [List.length_cons]
    omega
  | case5 => simp
  | case6 => simp
  | case7 => simp

/-- The length of the run of blanks, or of the comment, at the front of a text. -/
def layoutLength : List Char → Nat
  | [] => 0
  | c :: rest =>
    if isLayoutBlank c then 1 + (rest.takeWhile isLayoutBlank).length
    else if c = '%' then 1 + (rest.takeWhile (· ≠ '\n')).length
    else if c = '/' then
      match rest with
      | '*' :: inside =>
        match closeComment inside with
        | some after => 2 + (inside.length - after.length)
        | none => 0
      | _ => 0
    else 0

/-! ## Taking a lexeme -/

/-- Something read off the front of `text`: its value and what is left, which is shorter. -/
structure Taken (text : List Char) (α : Type) where
  value : α
  rest : List Char
  shorter : rest.length < text.length

/-- A place of a text, given by what follows it.  A reader that fails returns the place at which it
asked for a lexeme that is not there. -/
abbrev Place := List Char

/-- Take the lexeme that a terminal asks for, and the layout behind it. -/
def take (t : Terminal) (text : List Char) : Except Place (Taken text String) :=
  match h : t.scan text with
  | none => .error text
  | some (lexeme, after) =>
    .ok {
      value := String.ofList lexeme
      rest := skipLayout after
      shorter := by
        obtain ⟨hne, heq⟩ := Terminal.scan_eq_some h
        have := length_skipLayout_le after
        have := List.length_pos_iff.2 hne
        rw [← heq, List.length_append]
        omega }

/-- Take a symbol. -/
def takeSymbol (s : Symbol) (text : List Char) : Except Place (Taken text String) := take (.symbol s) text

end GivenClause.Format
