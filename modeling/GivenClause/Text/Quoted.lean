import GivenClause.Text.Printable

/-!
# Quoted text

How a message shows a name that a user wrote: between quotes, on one line, with every character
that would not print replaced by an escape.  Single quotes are used unless the text holds a single
quote and no double quote.
-/

namespace GivenClause.Text

/-- The hexadecimal digits of `n`, padded with zeros to at least `width` places. -/
def hex (width n : Nat) : List Char :=
  let digits := Nat.toDigits 16 n
  List.replicate (width - digits.length) '0' ++ digits

/-- A character inside a text that stands between two `quote` characters. -/
def escape (quote c : Char) : List Char :=
  if c = quote ∨ c = '\\' then ['\\', c]
  else if c = '\t' then ['\\', 't']
  else if c = '\n' then ['\\', 'n']
  else if c = '\r' then ['\\', 'r']
  else if isPrintable c then [c]
  else if c.toNat ≤ 0xFF then '\\' :: 'x' :: hex 2 c.toNat
  else if c.toNat ≤ 0xFFFF then '\\' :: 'u' :: hex 4 c.toNat
  else '\\' :: 'U' :: hex 8 c.toNat

/-- The quote that a text calls for. -/
def quoteFor (text : List Char) : Char :=
  if text.contains '\'' && !text.contains '"' then '"' else '\''

/-- The text between quotes, with escapes where a character would not print. -/
def quoted (text : String) : String :=
  let quote := quoteFor text.toList
  String.ofList (quote :: text.toList.flatMap (escape quote) ++ [quote])

example : quoted "it's" = "\"it's\"" := by decide +kernel
example : quoted "a\"b\\c\n" = "'a\"b\\\\c\\n'" := by decide +kernel

end GivenClause.Text
