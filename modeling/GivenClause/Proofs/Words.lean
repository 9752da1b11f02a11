import Mathlib
import GivenClause.Format.Statement

/-!
# Words and what follows them

What a word of each kind looks like is said here without reference to scanning (`WordKind.Spells`).
A scanned word is spelled like that (`Terminal.accepts_of_take`).  Conversely a word in front of a
character that cannot continue it is scanned as a whole, by every terminal that accepts words of its
kind and by no other (`Terminal.Accepts.take`): words of different kinds begin with different
characters.

The readers return a piece of text together with a proof that what is left is shorter.  `Gives` states
what they return without the proof.
-/

namespace GivenClause.Format

/-! ## Spelling -/

/-- What may stand between the quotes of a quoted word. -/
inductive QuotedText : List Char → Prop
  | nil : QuotedText []
  | plain {c : Char} {text : List Char} (notQuote : c ≠ '\'') (notBackslash : c ≠ '\\')
      (more : QuotedText text) : QuotedText (c :: text)
  | escaped {c : Char} {text : List Char} (sameLine : c ≠ '\n') (more : QuotedText text) :
      QuotedText ('\\' :: c :: text)

/-- The words of each kind. -/
inductive WordKind.Spells : WordKind → List Char → Prop
  | lower {c : Char} {w : List Char} (first : isLower c = true)
      (more : ∀ d ∈ w, isWordChar d = true) : Spells .lower (c :: w)
  | upper {c : Char} {w : List Char} (first : isUpper c = true)
      (more : ∀ d ∈ w, isWordChar d = true) : Spells .upper (c :: w)
  | integer {c : Char} {w : List Char} (first : isDigit c = true)
      (more : ∀ d ∈ w, isDigit d = true) : Spells .integer (c :: w)
  | quoted {w : List Char} (nonempty : w ≠ []) (inside : QuotedText w) :
      Spells .quoted ('\'' :: (w ++ ['\'']))
  | dollar {c : Char} {w : List Char} (first : isLower c = true)
      (more : ∀ d ∈ w, isWordChar d = true) : Spells .dollar ('$' :: c :: w)

/-- The lexemes of a terminal. -/
def Terminal.Accepts (t : Terminal) (lexeme : String) : Prop :=
  match t with
  | .symbol s => lexeme.toList = s.chars
  | .word kinds => ∃ kind ∈ kinds, kind.Spells lexeme.toList

/-! ## Scanning words -/

lemma scanRun_append {first more : Char → Bool} {c : Char} {w rest : List Char}
    (hc : first c = true) (hw : ∀ d ∈ w, more d = true) (hrest : ∀ d ∈ rest.head?, more d = false) :
    scanRun first more (c :: w ++ rest) = some (c :: w, rest) := by
  have hstop : rest.takeWhile more = [] ∧ rest.dropWhile more = rest := by
    cases rest with
    | nil => exact ⟨rfl, rfl⟩
    | cons d rest => simp [hrest d rfl]
  rw [List.cons_append, scanRun, if_pos hc, List.takeWhile_append_of_pos hw,
    List.dropWhile_append_of_pos hw, hstop.1, hstop.2, List.append_nil]

lemma exists_of_scanRun {first more : Char → Bool} {text lexeme after : List Char}
    (h : scanRun first more text = some (lexeme, after)) :
    ∃ c w, lexeme = c :: w ∧ first c = true ∧ ∀ d ∈ w, more d = true := by
  cases text with
  | nil => simp [scanRun] at h
  | cons c rest =>
      rw [scanRun] at h
      split_ifs at h with hc
      cases h
      exact ⟨c, _, rfl, hc, fun d hd => List.mem_takeWhile_imp hd⟩

lemma scanQuoted_append {w : List Char} (h : QuotedText w) (rest : List Char) :
    scanQuoted (w ++ '\'' :: rest) = some (w ++ ['\''], rest) := by
  induction h with
  | nil => simp [scanQuoted]
  | plain notQuote notBackslash _ ih => simp [scanQuoted, notQuote, notBackslash, ih]
  | escaped sameLine _ ih => simp [scanQuoted, sameLine, ih]

lemma quotedText_of_scanQuoted {text inside after : List Char}
    (h : scanQuoted text = some (inside, after)) : ∃ w, QuotedText w ∧ inside = w ++ ['\''] := by
  fun_induction scanQuoted text generalizing inside after with
  | case1 => cases h
  | case2 => cases h
  | case3 c rest hline ih =>
      obtain ⟨⟨i, a⟩, hs, he⟩ := Option.map_eq_some_iff.1 h
      obtain ⟨w, hw, rfl⟩ := ih hs
      cases he
      exact ⟨'\\' :: c :: w, .escaped hline hw, rfl⟩
  | case4 rest =>
      cases h
      exact ⟨[], .nil, rfl⟩
  | case5 => cases h
  | case6 c rest _ hquote hbackslash ih =>
      obtain ⟨⟨i, a⟩, hs, he⟩ := Option.map_eq_some_iff.1 h
      obtain ⟨w, hw, rfl⟩ := ih hs
      cases he
      exact ⟨c :: w, .plain hquote hbackslash hw, rfl⟩

namespace WordKind

/-- The characters that words of a kind begin with. -/
def starts : WordKind → Char → Bool
  | .lower => isLower
  | .upper => isUpper
  | .integer => isDigit
  | .quoted => (· == '\'')
  | .dollar => (· == '$')

/-- The range of these characters. -/
def codes : WordKind → ℕ × ℕ
  | .lower => (97, 122)
  | .upper => (65, 90)
  | .integer => (48, 57)
  | .quoted => (39, 39)
  | .dollar => (36, 36)

lemma starts_iff {k : WordKind} {c : Char} :
    k.starts c = true ↔ k.codes.1 ≤ c.toNat ∧ c.toNat ≤ k.codes.2 := by
  cases k with
  | lower => simp [starts, codes, isLower, Char.le_def, UInt32.le_iff_toNat_le]
  | upper => simp [starts, codes, isUpper, Char.le_def, UInt32.le_iff_toNat_le]
  | integer => simp [starts, codes, isDigit, Char.le_def, UInt32.le_iff_toNat_le]
  | quoted | dollar =>
      rw [starts, beq_iff_eq, ← Char.toNat_inj]
      exact le_antisymm_iff.trans and_comm

/-- **Words of different kinds begin differently.** -/
theorem eq_of_starts {k k' : WordKind} {c : Char} (h : k.starts c = true)
    (h' : k'.starts c = true) : k = k' := by
  rw [starts_iff] at h h'
  have hoverlap : k.codes.1 ≤ k'.codes.2 ∧ k'.codes.1 ≤ k.codes.2 :=
    ⟨h.1.trans h'.2, h'.1.trans h.2⟩
  clear h h'
  -- no two of the five ranges overlap
  cases k <;> cases k' <;> simp_all [codes]

lemma Spells.exists_starts {k : WordKind} {w : List Char} (h : k.Spells w) :
    ∃ c more, w = c :: more ∧ k.starts c = true := by
  cases h with
  | lower first _ | upper first _ | integer first _ => exact ⟨_, _, rfl, first⟩
  | quoted _ _ | dollar _ _ => exact ⟨_, _, rfl, rfl⟩

lemma scan_of_not_starts {k : WordKind} {c : Char} (h : k.starts c = false) (text : List Char) :
    k.scan (c :: text) = none := by
  cases k with
  | lower | upper | integer => simp_all [scan, scanRun, starts]
  | quoted =>
      rw [scan]
      rintro d rest ⟨⟩
      cases h
  | dollar =>
      rw [scan]
      rintro rest ⟨⟩
      cases h

/-- The closing quote ends a quoted word, whatever comes behind it. -/
lemma scan_quoted_append {w : List Char} (nonempty : w ≠ []) (inside : QuotedText w)
    (rest : List Char) :
    scan .quoted ('\'' :: (w ++ ['\'']) ++ rest) = some ('\'' :: (w ++ ['\'']), rest) := by
  have hinside := scanQuoted_append inside rest
  obtain ⟨c, w, rfl⟩ := List.exists_cons_of_ne_nil nonempty
  have hc : c ≠ '\'' := by
    cases inside with
    | plain notQuote => exact notQuote
    | escaped => decide
  rw [List.cons_append] at hinside
  simp [scan, hc, hinside]

theorem Spells.scan_append {k : WordKind} {w : List Char} (h : k.Spells w) {rest : List Char}
    (hrest : ∀ d ∈ rest.head?, isWordChar d = false) : k.scan (w ++ rest) = some (w, rest) := by
  cases h with
  | lower first more => exact scanRun_append first more hrest
  | upper first more => exact scanRun_append first more hrest
  | integer first more =>
      refine scanRun_append first more fun d hd => ?_
      have := hrest d hd
      simp_all [isWordChar]
  | quoted nonempty inside => exact scan_quoted_append nonempty inside rest
  | dollar first more =>
      have hword := scanRun_append first more hrest
      rw [List.cons_append] at hword
      simp [scan, hword]

theorem spells_of_scan {k : WordKind} {text w after : List Char} (h : k.scan text = some (w, after)) :
    k.Spells w := by
  cases k with
  | lower =>
      obtain ⟨c, w, rfl, hc, hw⟩ := exists_of_scanRun h
      exact .lower hc hw
  | upper =>
      obtain ⟨c, w, rfl, hc, hw⟩ := exists_of_scanRun h
      exact .upper hc hw
  | integer =>
      obtain ⟨c, w, rfl, hc, hw⟩ := exists_of_scanRun h
      exact .integer hc hw
  | quoted =>
      simp only [scan] at h
      split at h
      · split_ifs at h with hc
        obtain ⟨⟨inside, after'⟩, hs, he⟩ := Option.map_eq_some_iff.1 h
        cases he
        obtain ⟨w, hw, rfl⟩ := quotedText_of_scanQuoted hs
        refine .quoted ?_ hw
        rintro rfl
        exact hc (List.cons.inj (scanQuoted_eq_some hs).2).1.symm
      · cases h
  | dollar =>
      simp only [scan] at h
      split at h
      · obtain ⟨⟨word, after'⟩, hs, he⟩ := Option.map_eq_some_iff.1 h
        cases he
        obtain ⟨c, w, rfl, hc, hw⟩ := exists_of_scanRun hs
        exact .dollar hc hw
      · cases h

/-- A word is what is scanned as a whole. -/
theorem spells_iff {k : WordKind} {w : List Char} : k.Spells w ↔ k.scan w = some (w, []) := by
  refine ⟨fun h => ?_, spells_of_scan⟩
  have hscan : k.scan (w ++ []) = some (w, []) := h.scan_append (by simp)
  rwa [List.append_nil] at hscan

instance (k : WordKind) (w : List Char) : Decidable (k.Spells w) := decidable_of_iff _ spells_iff.symm

end WordKind

instance (t : Terminal) (w : String) : Decidable (t.Accepts w) :=
  match t with
  | .symbol s => inferInstanceAs (Decidable (w.toList = s.chars))
  | .word kinds => inferInstanceAs (Decidable (∃ kind ∈ kinds, kind.Spells w.toList))

/-! ## The beginning of a text -/

/-- The text is not empty, and its first character has a property. -/
def Begins (p : Char → Prop) (text : List Char) : Prop := ∃ c more, p c ∧ text = c :: more

namespace Begins

variable {p q : Char → Prop} {text : List Char}

lemma mono (h : Begins p text) (hpq : ∀ c, p c → q c) : Begins q text := by
  obtain ⟨c, more, hc, rfl⟩ := h
  exact ⟨c, more, hpq c hc, rfl⟩

lemma append (h : Begins p text) (rest : List Char) : Begins p (text ++ rest) := by
  obtain ⟨c, more, hc, rfl⟩ := h
  exact ⟨c, more ++ rest, hc, rfl⟩

end Begins

/-- The characters that layout may begin with. -/
def opensLayout (c : Char) : Bool := isLayoutBlank c || c == '%' || c == '/'

/-- No layout stands at the front. -/
def Solid : List Char → Prop := Begins (opensLayout · = false)

lemma skipLayout_eq_self {text : List Char} (h : Solid text) : skipLayout text = text := by
  obtain ⟨c, rest, hc, rfl⟩ := h
  simp only [opensLayout, Bool.or_eq_false_iff, beq_eq_false_iff_ne] at hc
  rw [skipLayout.eq_def]
  simp [hc.1.1, hc.1.2, hc.2]

/-- A word stands at the front. -/
def BeginsWord : List Char → Prop := Begins fun c => ∃ kind : WordKind, kind.starts c = true

namespace BeginsWord

variable {text : List Char}

lemma solid (h : BeginsWord text) : Solid text := by
  refine h.mono fun c hc => ?_
  obtain ⟨kind, hkind⟩ := hc
  rw [Bool.eq_false_iff]
  intro hlayout
  simp only [opensLayout, isLayoutBlank, Bool.or_eq_true, beq_iff_eq] at hlayout
  rcases hlayout with (((((rfl | rfl) | rfl) | rfl) | rfl) | rfl) | rfl <;> cases kind <;> cases hkind

/-- Of the symbols only the keywords begin like a word. -/
lemma not_symbol (h : BeginsWord text) {s : Symbol}
    (hs : s ∉ [Symbol.cnfKeyword, Symbol.includeKeyword]) :
    Begins (fun c => s.chars.head? ≠ some c) text := by
  refine h.mono fun c hc hsymbol => ?_
  obtain ⟨kind, hkind⟩ := hc
  cases s with
  | cnfKeyword | includeKeyword => exact hs (by simp)
  | _ => cases hsymbol; cases kind <;> cases hkind

end BeginsWord

/-- What stands at the front neither continues a word nor is layout. -/
def EndsWord : List Char → Prop := Begins fun c => isWordChar c = false ∧ opensLayout c = false

lemma EndsWord.solid {text : List Char} (h : EndsWord text) : Solid text := h.mono fun _ hc => hc.2

/-! ## Taking lexemes -/

/-- The reader succeeds with this value and leaves this text. -/
def Gives {text : List Char} {α : Type} (r : Except Place (Taken text α)) (value : α)
    (rest : List Char) : Prop := ∃ shorter, r = .ok ⟨value, rest, shorter⟩

namespace Gives

variable {text part : List Char} {α β : Type}

lemma bind {r : Except Place (Taken part α)} {value : α} {rest : List Char} (h : Gives r value rest)
    {f : Taken part α → Except Place (Taken text β)} {value' : β} {rest' : List Char}
    (hf : ∀ shorter, Gives (f ⟨value, rest, shorter⟩) value' rest') :
    Gives (r >>= f) value' rest' := by
  obtain ⟨shorter, rfl⟩ := h
  exact hf shorter

lemma pure (t : Taken text α) : Gives (.ok t) t.value t.rest := ⟨t.shorter, rfl⟩

end Gives

lemma take_of_scan {t : Terminal} {text lexeme after : List Char}
    (h : t.scan text = some (lexeme, after)) :
    Gives (take t text) (String.ofList lexeme) (skipLayout after) := by
  unfold take
  split
  · simp_all
  · rename_i hscan
    cases h.symm.trans hscan
    exact .pure _

lemma take_of_scan_none {t : Terminal} {text : List Char} (h : t.scan text = none) :
    take t text = .error text := by
  unfold take
  split
  · rfl
  · simp_all

lemma scan_of_take {t : Terminal} {text : List Char} {r : Taken text String}
    (h : take t text = .ok r) :
    ∃ lexeme after, t.scan text = some (lexeme, after) ∧ r.value = String.ofList lexeme ∧
      r.rest = skipLayout after := by
  unfold take at h
  split at h
  · cases h
  · rename_i lexeme after hscan
    cases h
    exact ⟨lexeme, after, hscan, rfl, rfl⟩

lemma dropWord_append (word text : List Char) : dropWord word (word ++ text) = some text := by
  induction word with
  | nil => simp [dropWord]
  | cons c word ih => simp [dropWord, ih]

lemma takeSymbol_append (s : Symbol) (text : List Char) :
    Gives (takeSymbol s (s.chars ++ text)) (String.ofList s.chars) (skipLayout text) :=
  take_of_scan (by simp [Terminal.scan, dropWord_append])

lemma takeSymbol_solid (s : Symbol) {text : List Char} (h : Solid text) :
    Gives (takeSymbol s (s.chars ++ text)) (String.ofList s.chars) text := by
  have htake := takeSymbol_append s text
  rwa [skipLayout_eq_self h] at htake

/-- A symbol is not found in front of another character than its first. -/
lemma takeSymbol_of_begins {s : Symbol} {text : List Char}
    (h : Begins (fun c => s.chars.head? ≠ some c) text) : takeSymbol s text = .error text := by
  obtain ⟨c, rest, hc, rfl⟩ := h
  refine take_of_scan_none ?_
  cases hs : s.chars with
  | nil => cases s <;> cases hs
  | cons d more =>
      rw [hs] at hc
      have hdc : d ≠ c := fun e => hc (by rw [e]; rfl)
      simp [Terminal.scan, hs, dropWord, hdc]

namespace Terminal

/-- **What is taken is a lexeme of the terminal.** -/
theorem accepts_of_take {t : Terminal} {text : List Char} {r : Taken text String}
    (h : Format.take t text = .ok r) : t.Accepts r.value := by
  obtain ⟨lexeme, after, hscan, hvalue, -⟩ := scan_of_take h
  rw [hvalue]
  cases t with
  | symbol s =>
      obtain ⟨_, _, he⟩ := Option.map_eq_some_iff.1 hscan
      cases he
      exact String.toList_ofList
  | word kinds =>
      obtain ⟨kind, hkind, hk⟩ := List.exists_of_findSome?_eq_some hscan
      refine ⟨kind, hkind, ?_⟩
      rw [String.toList_ofList]
      exact WordKind.spells_of_scan hk

lemma scan_word_append {kinds : List WordKind} {kind : WordKind} (hkind : kind ∈ kinds)
    {w : List Char} (hw : kind.Spells w) {rest : List Char}
    (hrest : ∀ d ∈ rest.head?, isWordChar d = false) :
    (Terminal.word kinds).scan (w ++ rest) = some (w, rest) := by
  obtain ⟨c, more, rfl, hstarts⟩ := hw.exists_starts
  rw [scan]
  induction kinds with
  | nil => cases hkind
  | cons k kinds ih =>
      rw [List.findSome?_cons]
      by_cases hk : k = kind
      · rw [hk, hw.scan_append hrest]
      · have hstop : k.starts c = false := by
          rw [Bool.eq_false_iff]
          exact fun h => hk (WordKind.eq_of_starts h hstarts)
        rw [List.cons_append, WordKind.scan_of_not_starts hstop]
        exact ih (List.mem_of_ne_of_mem (Ne.symm hk) hkind)

lemma scan_word_none {kinds : List WordKind} {kind : WordKind} (hkind : kind ∉ kinds)
    {w : List Char} (hw : kind.Spells w) (rest : List Char) :
    (Terminal.word kinds).scan (w ++ rest) = none := by
  obtain ⟨c, more, rfl, hstarts⟩ := hw.exists_starts
  rw [scan, List.findSome?_eq_none_iff]
  intro k hk
  refine WordKind.scan_of_not_starts ?_ _
  rw [Bool.eq_false_iff]
  exact fun h => hkind (WordKind.eq_of_starts h hstarts ▸ hk)

/-- **A word is taken as a whole** in front of what does not continue it. -/
theorem Accepts.take {kinds : List WordKind} {w : String} (h : (Terminal.word kinds).Accepts w)
    {rest : List Char} (hrest : EndsWord rest) :
    Gives (Format.take (.word kinds) (w.toList ++ rest)) w rest := by
  obtain ⟨kind, hkind, hw⟩ := h
  have hends : ∀ d ∈ rest.head?, isWordChar d = false := by
    obtain ⟨c, more, hc, rfl⟩ := hrest
    simpa using hc.1
  have htake := take_of_scan (scan_word_append hkind hw hends)
  rwa [String.ofList_toList, skipLayout_eq_self hrest.solid] at htake

/-- A word is not taken for one of another kind. -/
lemma Accepts.take_other {kinds others : List WordKind} (hother : kinds.Disjoint others) {w : String}
    (h : (Terminal.word kinds).Accepts w) (rest : List Char) :
    Format.take (.word others) (w.toList ++ rest) = .error (w.toList ++ rest) := by
  obtain ⟨kind, hkind, hw⟩ := h
  exact take_of_scan_none (scan_word_none (hother hkind) hw rest)

lemma Accepts.begins {kinds : List WordKind} {w : String} (h : (Terminal.word kinds).Accepts w) :
    BeginsWord w.toList := by
  obtain ⟨kind, -, hw⟩ := h
  obtain ⟨c, more, hcons, hstarts⟩ := hw.exists_starts
  exact ⟨c, more, ⟨kind, hstarts⟩, hcons⟩

end Terminal

end GivenClause.Format
